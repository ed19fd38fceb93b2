import Concordance.Json.Reader
import Concordance.Text.Number
namespace Concordance.Json

-- The size of a number: a significand of 64 bits, which a power of ten moves.
structure Magnitude where
  significand : Nat
  exponent : Int
deriving DecidableEq, Repr

-- Takes digits into a significand as long as it fits, and gives those that are left.
def takeDigits (significand : Nat) : List Char → Nat × List Char
  | [] => (significand, [])
  | c :: cs =>
    let next := 10 * significand + (Text.digit? c).getD 0
    if next ≤ Text.maxWord64 then takeDigits next cs else (significand, c :: cs)

-- The value of the digits of an exponent with its sign.
def exponentValue (cs : List Char) : Int :=
  match cs with
  | '-' :: ds => -((Text.decimal? ds).getD 0)
  | '+' :: ds => (Text.decimal? ds).getD 0
  | ds => (Text.decimal? ds).getD 0

-- The size of a number as it is written. A digit of the whole part for which there is no
-- room is a zero; those of the fraction are left out from the first one that does not fit.
def Magnitude.ofDigits (cs : List Char) : Magnitude :=
  let unsigned := cs.dropWhile (· = '-')
  let (whole, afterWhole) := digits unsigned
  let (fraction, afterFraction) := match afterWhole with
    | '.' :: rest => digits rest
    | _ => ([], afterWhole)
  let (high, zeros) := takeDigits 0 whole
  let (significand, lost) := takeDigits high fraction
  let taken := fraction.length - lost.length
  ⟨significand, zeros.length - taken + exponentValue (afterFraction.drop 1)⟩

-- The nearest number of 53 significant bits; a half goes to the even one.
def roundFloat (n : Nat) : Nat :=
  let unit := 1 <<< (n.log2 - 52)
  let below := n / unit
  let part := n % unit
  if unit < 2 * part ∨ (2 * part = unit ∧ below % 2 = 1) then (below + 1) * unit
  else below * unit

-- The largest power of ten that a float holds.
def maxExponent : Int := 308

-- Whether a float holds the number. The significand and the power are rounded before they
-- are multiplied.
def Magnitude.fits (m : Magnitude) : Bool :=
  if m.significand = 0 || m.exponent < 0 then true
  else if maxExponent < m.exponent then false
  else roundFloat m.significand * roundFloat (Nat.pow 10 m.exponent.natAbs) < Text.floatBound

end Concordance.Json
