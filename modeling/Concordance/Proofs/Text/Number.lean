import Concordance.Text.Number

namespace Concordance.Text

theorem digit?_eq_some_iff {c : Char} {d : Nat} :
    digit? c = some d ↔ c.isDigit = true ∧ d = c.toNat - '0'.toNat := by
  have hdigit : '0' ≤ c ∧ c ≤ '9' ↔ c.isDigit = true := by
    rw [Char.isDigit_iff_toNat, Char.le_def, Char.le_def, UInt32.le_iff_toNat_le,
      UInt32.le_iff_toNat_le]
    exact Iff.rfl
  unfold digit?
  by_cases h : '0' ≤ c ∧ c ≤ '9'
  · rw [if_pos h, Option.some.injEq, eq_comm]
    exact ⟨fun hd => ⟨hdigit.mp h, hd⟩, fun hd => hd.2⟩
  · simp [if_neg h, mt hdigit.mpr h]

-- Digits are read one by one, and the value so far counts ten times when one more follows.
theorem decimalFrom?_eq_some_iff {value n : Nat} {cs : List Char} :
    decimalFrom? value cs = some n ↔
      (∀ c ∈ cs, c.isDigit = true) ∧ n = Nat.ofDigitChars 10 cs value := by
  induction cs generalizing value with
  | nil =>
    have hnil : Nat.ofDigitChars 10 [] value = value := rfl
    rw [decimalFrom?, Option.some.injEq, hnil, eq_comm]
    simp
  | cons c cs ih =>
    rw [decimalFrom?, List.forall_mem_cons, Nat.ofDigitChars_cons]
    cases hdigit : digit? c with
    | none =>
      have hc : ¬ c.isDigit = true := by
        intro hc
        rw [digit?_eq_some_iff.mpr ⟨hc, rfl⟩] at hdigit
        cases hdigit
      simp [hc]
    | some d =>
      obtain ⟨hc, rfl⟩ := digit?_eq_some_iff.mp hdigit
      simp only [hc, true_and]
      exact ih

theorem decimal?_eq_some_iff {n : Nat} {cs : List Char} :
    decimal? cs = some n ↔
      cs ≠ [] ∧ (∀ c ∈ cs, c.isDigit = true) ∧ n = Nat.ofDigitChars 10 cs 0 := by
  cases cs with
  | nil => simp [decimal?]
  | cons c cs => rw [decimal?, decimalFrom?_eq_some_iff, and_iff_right (List.cons_ne_nil c cs)]

theorem isDigit_of_mem_toDigits {n : Nat} {c : Char} (h : c ∈ Nat.toDigits 10 n) :
    c.isDigit = true := Nat.isDigit_of_mem_toDigits (by decide) (by decide) h

theorem ne_of_mem_toDigits {n : Nat} {c d : Char} (h : c ∈ Nat.toDigits 10 n)
    (hd : d.isDigit = false) : c ≠ d := by
  rintro rfl
  rw [isDigit_of_mem_toDigits h] at hd
  cases hd

theorem decimal?_toDigits (n : Nat) : decimal? (Nat.toDigits 10 n) = some n := by
  have hvalue : Nat.ofDigitChars 10 (Nat.toDigits 10 n) 0 = n :=
    Nat.ofDigitChars_toDigits (by decide) (by decide)
  refine decimal?_eq_some_iff.mpr ⟨Nat.toDigits_ne_nil, ?_, hvalue.symm⟩
  exact fun c hc => isDigit_of_mem_toDigits hc

-- A number that starts with a digit carries no sign.
theorem unsigned?_of_decimal? {limit n : Nat} {cs : List Char} (h : decimal? cs = some n)
    (hlimit : n ≤ limit) : unsigned? limit cs = some n := by
  unfold unsigned?
  dsimp only
  split
  · next value hvalue =>
    split at hvalue
    · cases h
    · rw [h] at hvalue
      cases hvalue
      exact if_pos hlimit
  · next hvalue =>
    split at hvalue
    · cases h
    · rw [h] at hvalue
      cases hvalue

theorem line?_toDigits (line : UInt32) : line? (Nat.toDigits 10 line.toNat) = some line := by
  have hlimit : line.toNat ≤ maxWord32 := by
    have hlt := line.toNat_lt_size
    unfold maxWord32
    omega
  rw [line?, unsigned?_of_decimal? (decimal?_toDigits line.toNat) hlimit, Option.map_some,
    UInt32.ofNat_toNat]

theorem toDigits_line_inj {line line' : UInt32} :
    Nat.toDigits 10 line.toNat = Nat.toDigits 10 line'.toNat ↔ line = line' := by
  refine ⟨fun h => ?_, fun h => by rw [h]⟩
  have hread := line?_toDigits line
  rw [h, line?_toDigits line', Option.some.injEq] at hread
  exact hread.symm

end Concordance.Text
