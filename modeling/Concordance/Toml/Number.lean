import Concordance.Text.Number
namespace Concordance.Toml

open Concordance.Text

-- Each reader takes the start of a text and gives what it read and the rest.

def isDigit (c : Char) : Bool := (digit? c).isSome

def hexDigit? (c : Char) : Option Nat :=
  if '0' ≤ c ∧ c ≤ '9' then some (c.toNat - 48)
  else if 'a' ≤ c ∧ c ≤ 'f' then some (c.toNat - 87)
  else if 'A' ≤ c ∧ c ≤ 'F' then some (c.toNat - 55)
  else none

-- A digit below `base`.
def digitBelow? (base : Nat) (c : Char) : Option Nat := do
  let d ← hexDigit? c
  if d < base then some d else none

-- The digits after the first one. An underscore may stand before a digit.
def moreDigits (base : Nat) : List Char → List Nat × List Char
  | [] => ([], [])
  | [c] =>
    match digitBelow? base c with
    | some d => ([d], [])
    | none => ([], [c])
  | c :: e :: cs =>
    match digitBelow? base c with
    | some d =>
      let (ds, rest) := moreDigits base (e :: cs)
      (d :: ds, rest)
    | none =>
      if c = '_' then
        match digitBelow? base e with
        | some d =>
          let (ds, rest) := moreDigits base cs
          (d :: ds, rest)
        | none => ([], c :: e :: cs)
      else ([], c :: e :: cs)

def digits? (base : Nat) : List Char → Option (List Nat × List Char)
  | [] => none
  | c :: cs =>
    match digitBelow? base c with
    | some d =>
      let (ds, rest) := moreDigits base cs
      some (d :: ds, rest)
    | none => none

def valueOf (base : Nat) (ds : List Nat) : Nat := ds.foldl (fun n d => base * n + d) 0

def sign : List Char → Bool × List Char
  | '-' :: rest => (true, rest)
  | '+' :: rest => (false, rest)
  | cs => (false, cs)

-- The whole part of a decimal number: a zero alone, or digits that do not start with one.
def whole? : List Char → Option (List Nat × List Char)
  | '0' :: rest => some ([0], rest)
  | cs => digits? 10 cs

def minInt : Int := Int64.minValue.toInt

def maxInt : Int := Int64.maxValue.toInt

def fitting? (n : Int) (rest : List Char) : Option (Int × List Char) :=
  if minInt ≤ n ∧ n ≤ maxInt then some (n, rest) else none

def based? (base : Nat) (cs : List Char) : Option (Int × List Char) := do
  let (ds, rest) ← digits? base cs
  fitting? (valueOf base ds) rest

def integer? : List Char → Option (Int × List Char)
  | '0' :: 'x' :: rest => based? 16 rest
  | '0' :: 'o' :: rest => based? 8 rest
  | '0' :: 'b' :: rest => based? 2 rest
  | cs => do
    let (negative, cs) := sign cs
    let (ds, rest) ← whole? cs
    let n : Int := valueOf 10 ds
    fitting? (if negative then -n else n) rest

def fraction? : List Char → Option (List Nat × List Char)
  | '.' :: cs => digits? 10 cs
  | _ => none

def exponent? : List Char → Option (Int × List Char)
  | e :: cs =>
    if e = 'e' ∨ e = 'E' then do
      let (negative, cs) := sign cs
      let (ds, rest) ← digits? 10 cs
      let n : Int := valueOf 10 ds
      some (if negative then -n else n, rest)
    else none
  | [] => none

-- Whether the digits, with the point moved by the exponent, are too large for a float.
def overflows (ds : List Nat) (exponent : Int) : Bool :=
  let significant := ds.dropWhile (· = 0)
  let magnitude := (significant.length : Int) + exponent
  if significant.isEmpty || magnitude < 309 then false
  else if 309 < magnitude then true
  else if exponent < 0 then floatBound * Nat.pow 10 exponent.natAbs ≤ valueOf 10 significant
  else floatBound ≤ valueOf 10 significant * Nat.pow 10 exponent.natAbs

-- A number with a fraction, an exponent or both.
def decimalFloat? (cs : List Char) : Option (Unit × List Char) := do
  let (negative, afterSign) := sign cs
  let (ds, afterWhole) ← whole? afterSign
  let (fraction, afterFraction) := (fraction? afterWhole).getD ([], afterWhole)
  match exponent? afterFraction with
  | some (exponent, rest) =>
    if !negative && overflows (ds ++ fraction) (exponent - fraction.length) then none
    else some ((), rest)
  | none =>
    if fraction.isEmpty || (!negative && overflows (ds ++ fraction) (-fraction.length)) then none
    else some ((), afterFraction)

def specialFloat? (cs : List Char) : Option (Unit × List Char) :=
  match (sign cs).2 with
  | 'i' :: 'n' :: 'f' :: rest => some ((), rest)
  | 'n' :: 'a' :: 'n' :: rest => some ((), rest)
  | _ => none

def float? (cs : List Char) : Option (Unit × List Char) :=
  match decimalFloat? cs with
  | some r => some r
  | none => specialFloat? cs

-- A number of so many digits between two bounds.
def fixed? (count least most : Nat) (cs : List Char) : Option (Nat × List Char) := do
  let n ← decimal? (cs.take count)
  if (cs.take count).length = count ∧ least ≤ n ∧ n ≤ most then some (n, cs.drop count)
  else none

def literal? (c : Char) : List Char → Option (Unit × List Char)
  | d :: rest => if c = d then some ((), rest) else none
  | [] => none

def isLeap (year : Nat) : Bool :=
  year % 4 = 0 && (year % 100 ≠ 0 || year % 400 = 0)

def daysIn (year month : Nat) : Nat :=
  if month = 2 then (if isLeap year then 29 else 28)
  else if month = 4 ∨ month = 6 ∨ month = 9 ∨ month = 11 then 30
  else 31

def date? (cs : List Char) : Option (Unit × List Char) := do
  let (year, cs) ← fixed? 4 0 9999 cs
  let (_, cs) ← literal? '-' cs
  let (month, cs) ← fixed? 2 1 12 cs
  let (_, cs) ← literal? '-' cs
  let (_, cs) ← fixed? 2 1 (daysIn year month) cs
  some ((), cs)

-- A time of day. The last second of a day may be a leap second.
def time? (cs : List Char) : Option (Unit × List Char) := do
  let (_, cs) ← fixed? 2 0 23 cs
  let (_, cs) ← literal? ':' cs
  let (_, cs) ← fixed? 2 0 59 cs
  let (_, cs) ← literal? ':' cs
  let (_, cs) ← fixed? 2 0 60 cs
  match cs with
  | '.' :: rest =>
    match rest.span isDigit with
    | ([], _) => some ((), cs)
    | (_, rest) => some ((), rest)
  | _ => some ((), cs)

def offset? : List Char → Option (Unit × List Char)
  | c :: cs =>
    if c = 'Z' ∨ c = 'z' then some ((), cs)
    else if c = '+' ∨ c = '-' then do
      let (_, cs) ← fixed? 2 0 23 cs
      let (_, cs) ← literal? ':' cs
      let (_, cs) ← fixed? 2 0 59 cs
      some ((), cs)
    else none
  | [] => none

-- The time after a date, with the distance from Greenwich if it is given.
def timeOfDate? : List Char → Option (Unit × List Char)
  | c :: cs =>
    if c = 'T' ∨ c = 't' ∨ c = ' ' then do
      let (_, rest) ← time? cs
      match offset? rest with
      | some r => some r
      | none => some ((), rest)
    else none
  | [] => none

def moment? (cs : List Char) : Option (Unit × List Char) :=
  match date? cs with
  | some (_, rest) =>
    match timeOfDate? rest with
    | some r => some r
    | none => some ((), rest)
  | none => time? cs

end Concordance.Toml
