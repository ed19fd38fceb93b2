namespace Concordance.Text

def digit? (c : Char) : Option Nat :=
  if '0' ≤ c ∧ c ≤ '9' then some (c.toNat - 48) else none

-- Reads decimal digits after a number already read; anything else is refused.
def decimalFrom? (value : Nat) : List Char → Option Nat
  | [] => some value
  | c :: cs =>
    match digit? c with
    | some d => decimalFrom? (10 * value + d) cs
    | none => none

-- A non-empty run of decimal digits, leading zeros allowed.
def decimal? : List Char → Option Nat
  | [] => none
  | c :: cs => decimalFrom? 0 (c :: cs)

-- A decimal number that may carry a plus sign and is at most `limit`.
def unsigned? (limit : Nat) (cs : List Char) : Option Nat :=
  let digits := match cs with
    | '+' :: rest => rest
    | _ => cs
  match decimal? digits with
  | some n => if n ≤ limit then some n else none
  | none => none

-- The largest line number.
def maxWord32 : Nat := UInt32.size - 1

-- The largest count that a setting can hold.
def maxWord64 : Nat := UInt64.size - 1

-- The least value that is too large for a float of 64 bits: half a unit above the largest.
def floatBound : Nat := 1 <<< 1024 - 1 <<< 970

def line? (cs : List Char) : Option UInt32 :=
  (unsigned? maxWord32 cs).map UInt32.ofNat

end Concordance.Text
