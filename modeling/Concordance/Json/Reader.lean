import Concordance.Json.Basic
import Concordance.Text.Number
namespace Concordance.Json

-- White space between the parts of a value.
def isSpace (c : Char) : Bool := c = ' ' || c = '\t' || c = '\n' || c = '\r'

def skip (cs : List Char) : List Char := cs.dropWhile isSpace

def isDigit (c : Char) : Bool := (Text.digit? c).isSome

def hexValue? (c : Char) : Option Nat :=
  if '0' ≤ c ∧ c ≤ '9' then some (c.toNat - 48)
  else if 'a' ≤ c ∧ c ≤ 'f' then some (c.toNat - 87)
  else if 'A' ≤ c ∧ c ≤ 'F' then some (c.toNat - 55)
  else none

def hex4? : List Char → Option (Nat × List Char)
  | a :: b :: c :: d :: rest => do
    let a ← hexValue? a
    let b ← hexValue? b
    let c ← hexValue? c
    let d ← hexValue? d
    some (((a * 16 + b) * 16 + c) * 16 + d, rest)
  | _ => none

-- What a backslash and a letter stand for.
def simpleEscape? : Char → Option Char
  | '"' => some '"'
  | '\\' => some '\\'
  | '/' => some '/'
  | 'b' => some (Char.ofNat 8)
  | 'f' => some (Char.ofNat 12)
  | 'n' => some '\n'
  | 'r' => some '\r'
  | 't' => some '\t'
  | _ => none

-- One character of a string, or half of a surrogate pair.
inductive Unit16 where
  | char (c : Char)
  | high (n : Nat)
  | low (n : Nat)
deriving DecidableEq, Repr

def Unit16.ofCode (n : Nat) : Unit16 :=
  if 0xD800 ≤ n ∧ n ≤ 0xDBFF then high n
  else if 0xDC00 ≤ n ∧ n ≤ 0xDFFF then low n
  else char (Char.ofNat n)

-- The rest of a string up to its closing quote, and what follows it.
def units? : Nat → List Char → Option (List Unit16 × List Char)
  | 0, _ => none
  | _ + 1, [] => none
  | fuel + 1, c :: cs =>
    if c = '"' then some ([], cs)
    else if c = '\\' then
      match cs with
      | [] => none
      | 'u' :: cs => do
        let (code, cs) ← hex4? cs
        let (units, rest) ← units? fuel cs
        some (Unit16.ofCode code :: units, rest)
      | e :: cs => do
        let e ← simpleEscape? e
        let (units, rest) ← units? fuel cs
        some (.char e :: units, rest)
    else if c.toNat < 32 then none
    else do
      let (units, rest) ← units? fuel cs
      some (.char c :: units, rest)

-- The characters that units stand for. Halves of pairs have to come in pairs.
def unitsText? : List Unit16 → Option (List Char)
  | [] => some []
  | .char c :: units => (unitsText? units).map (c :: ·)
  | .high h :: .low l :: units =>
    (unitsText? units).map
      (Char.ofNat (0x10000 + (h - 0xD800) * 0x400 + (l - 0xDC00)) :: ·)
  | _ => none

def digits (cs : List Char) : List Char × List Char := cs.span isDigit

-- The digits before the point: a zero alone, or digits that do not start with one.
def integer? (cs : List Char) : Option (List Char × List Char) :=
  match digits cs with
  | ([], _) => none
  | (['0'], rest) => some (['0'], rest)
  | ('0' :: _, _) => none
  | (ds, rest) => some (ds, rest)

def fraction? : List Char → Option (List Char × List Char)
  | '.' :: cs =>
    match digits cs with
    | ([], _) => none
    | (ds, rest) => some ('.' :: ds, rest)
  | cs => some ([], cs)

def exponent? : List Char → Option (List Char × List Char)
  | [] => some ([], [])
  | e :: cs =>
    if e = 'e' ∨ e = 'E' then
      let (sign, cs) := match cs with
        | '+' :: rest => (['+'], rest)
        | '-' :: rest => (['-'], rest)
        | _ => ([], cs)
      match digits cs with
      | ([], _) => none
      | (ds, rest) => some (e :: sign ++ ds, rest)
    else some ([], e :: cs)

def number? (cs : List Char) : Option (List Char × List Char) := do
  let (sign, cs) := match cs with
    | '-' :: rest => (['-'], rest)
    | _ => ([], cs)
  let (whole, cs) ← integer? cs
  let (part, cs) ← fraction? cs
  let (power, cs) ← exponent? cs
  some (sign ++ whole ++ part ++ power, cs)

-- The object of these members, if each of them has a name.
def ofMembers (members : List (Option (List Char) × Json)) : Json :=
  match members.mapM (fun m => m.1.map (fun name => (String.ofList name, m.2))) with
  | some members => .object members
  | none => .malformed

mutual

-- One value and what follows it.
def value? : Nat → List Char → Option (Json × List Char)
  | 0, _ => none
  | fuel + 1, cs =>
    match skip cs with
    | 'n' :: 'u' :: 'l' :: 'l' :: rest => some (.null, rest)
    | 't' :: 'r' :: 'u' :: 'e' :: rest => some (.bool true, rest)
    | 'f' :: 'a' :: 'l' :: 's' :: 'e' :: rest => some (.bool false, rest)
    | '"' :: rest => do
      let (units, rest) ← units? fuel rest
      match unitsText? units with
      | some chars => some (.text (String.ofList chars), rest)
      | none => some (.malformed, rest)
    | '[' :: rest =>
      match skip rest with
      | ']' :: rest => some (.array [], rest)
      | rest => do
        let (items, rest) ← items? fuel rest
        some (.array items, rest)
    | c :: rest =>
      if c.toNat = 123 then
        match skip rest with
        | [] => none
        | d :: rest =>
          if d.toNat = 125 then some (.object [], rest)
          else do
            let (members, rest) ← members? fuel (d :: rest)
            some (ofMembers members, rest)
      else do
        let (digits, rest) ← number? (c :: rest)
        some (.number digits, rest)
    | [] => none

-- One or more values up to the closing bracket.
def items? : Nat → List Char → Option (List Json × List Char)
  | 0, _ => none
  | fuel + 1, cs => do
    let (item, rest) ← value? fuel cs
    match skip rest with
    | ']' :: rest => some ([item], rest)
    | ',' :: rest => do
      let (items, rest) ← items? fuel rest
      some (item :: items, rest)
    | _ => none

-- One or more members up to the closing brace.
def members? : Nat → List Char → Option (List (Option (List Char) × Json) × List Char)
  | 0, _ => none
  | fuel + 1, cs =>
    match skip cs with
    | '"' :: rest => do
      let (units, rest) ← units? fuel rest
      let name := unitsText? units
      match skip rest with
      | ':' :: rest => do
        let (value, rest) ← value? fuel rest
        match skip rest with
        | ',' :: rest => do
          let (members, rest) ← members? fuel rest
          some ((name, value) :: members, rest)
        | c :: rest =>
          if c.toNat = 125 then some ([(name, value)], rest) else none
        | [] => none
      | _ => none
    | _ => none

end

-- A text that is one value and nothing else. Each step of the reader takes a character or
-- opens a level, so twice the length of the text is enough.
def read? (s : String) : Option Json :=
  let cs := s.toList
  match value? (2 * cs.length + 2) cs with
  | some (json, rest) => if (skip rest).isEmpty then some json else none
  | none => none

end Concordance.Json
