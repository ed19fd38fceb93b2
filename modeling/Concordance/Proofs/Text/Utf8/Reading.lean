import Mathlib.Tactic.SplitIfs
import Mathlib.Tactic.ByContra
import Concordance.Text.Utf8

namespace Concordance.Text.Utf8

@[simp] theorem Reading.nothing_andThen (held : List UInt8) (r : Reading) :
    (Reading.mk [] held false).andThen r = r := rfl

theorem Reading.close_andThen (a b : Reading) :
    (a.andThen b).close.chars = a.chars ++ b.close.chars := by
  unfold Reading.close Reading.andThen
  dsimp only
  split
  · rfl
  · rw [List.append_assoc]

theorem scan_cons (held : List UInt8) (b : UInt8) (bytes : List UInt8) :
    scan held (b :: bytes) = (step held b).andThen (scan (step held b).held bytes) := rfl

theorem step_whole {held : List UInt8} {b : UInt8} {c : Char}
    (h : shape (held ++ [b]) = .whole c) : step held b = ⟨[c], [], false⟩ := by
  cases held with
  | nil => simp only [step, start, List.isEmpty_nil, if_true, show shape [b] = .whole c from h]
  | cons a held => simp only [step, List.isEmpty_cons, Bool.false_eq_true, if_false, h]

theorem step_begun {held : List UInt8} {b : UInt8}
    (h : shape (held ++ [b]) = .begun) : step held b = ⟨[], held ++ [b], false⟩ := by
  cases held with
  | nil => simp only [step, start, List.isEmpty_nil, if_true, show shape [b] = .begun from h]; rfl
  | cons a held => simp only [step, List.isEmpty_cons, Bool.false_eq_true, if_false, h]

-- A byte that cannot go on closes the open character and is then read on its own.
theorem step_of_broken {a b : UInt8} {held : List UInt8} (h : shape (a :: held ++ [b]) = .broken) :
    step (a :: held) b = Reading.andThen ⟨[replacement], [], true⟩ (start b) := by
  simp only [step, List.isEmpty_cons, Bool.false_eq_true, if_false, h]

-- Bytes are open when they are the beginning of one character. Only open bytes are
-- ever held, and to hold them is as good as to read them again.
def Open (held : List UInt8) : Prop := scan [] held = ⟨[], held, false⟩

theorem open_nil : Open [] := rfl

theorem start_open (b : UInt8) : Open (start b).held := by
  unfold start
  split
  · exact open_nil
  · rename_i h
    simp [Open, scan, step, start, h, Reading.andThen]
  · exact open_nil

theorem step_open (held : List UInt8) (b : UInt8) (h : Open held) : Open (step held b).held := by
  by_cases he : held.isEmpty
  · simpa only [step, he, if_true] using start_open b
  · have hstep : scan held [b] = step held b := by
      simp [scan, Reading.andThen]
    cases hs : shape (held ++ [b]) with
    | whole c =>
      simp only [step, he, hs]
      exact open_nil
    | begun =>
      have hb : step held b = ⟨[], held ++ [b], false⟩ := by simp only [step, he, hs]; rfl
      rw [hb]
      show scan [] (held ++ [b]) = _
      rw [scan_append, h, Reading.nothing_andThen, hstep, hb]
    | broken =>
      simp only [step, he, hs]
      exact start_open b

theorem scan_open (held bytes : List UInt8) (h : Open held) : Open (scan held bytes).held := by
  induction bytes generalizing held with
  | nil => exact h
  | cons b bytes ih => exact ih _ (step_open held b h)

theorem scan_resume (held bytes : List UInt8) (h : Open held) :
    scan [] (held ++ bytes) = scan held bytes := by
  rw [scan_append, h, Reading.nothing_andThen]

-- What is read after the held bytes, when the input ends with these.
def lossyFrom (held bytes : List UInt8) : List Char := (scan held bytes).close.chars

theorem lossyFrom_append (held a b : List UInt8) :
    lossyFrom held (a ++ b) = (scan held a).chars ++ lossyFrom (scan held a).held b := by
  rw [lossyFrom, scan_append, Reading.close_andThen]
  rfl

-- What becomes of held bytes that are given up.
def abandoned (held : List UInt8) : List Char :=
  if held.isEmpty then [] else [replacement]

theorem close_chars (r : Reading) : r.close.chars = r.chars ++ abandoned r.held := by
  unfold Reading.close abandoned
  split_ifs <;> simp

theorem lossyFrom_nil (held : List UInt8) : lossyFrom held [] = abandoned held :=
  close_chars ⟨[], held, false⟩

theorem decodeLossy_open {held : List UInt8} (h : Open held) :
    decodeLossy held = abandoned held := by
  rw [decodeLossy, h]
  exact lossyFrom_nil held

theorem decodeLossy_open_newline {held : List UInt8} (h : Open held) :
    '\n' ∉ decodeLossy held := by
  rw [decodeLossy_open h, abandoned]
  split_ifs
  · exact List.not_mem_nil
  · decide

-- Whether what follows the held bytes goes on with them, as one character or at least as
-- one broken sequence.
def joins (held : List UInt8) : List UInt8 → Bool
  | [] => false
  | b :: _ => !held.isEmpty && shape (held ++ [b]) ≠ .broken

theorem lossyFrom_cons (held : List UInt8) (b : UInt8) (bytes : List UInt8) :
    lossyFrom held (b :: bytes) =
      (step held b).chars ++ lossyFrom (step held b).held bytes := by
  rw [lossyFrom, scan_cons, Reading.close_andThen]
  rfl

theorem step_of_not_joins {held : List UInt8} {b : UInt8} {bytes : List UInt8}
    (h : joins held (b :: bytes) = false) :
    step held b = (Reading.mk (abandoned held) [] (!held.isEmpty)).andThen (start b) := by
  unfold step abandoned
  split_ifs with he
  · simp [he, Reading.andThen]
  · have hs : shape (held ++ [b]) = .broken := by simpa [joins, he] using h
    simp [he, hs]

-- Held bytes with which nothing goes on can as well be given up at once.
theorem lossyFrom_of_not_joins {held bytes : List UInt8} (h : joins held bytes = false) :
    lossyFrom held bytes = abandoned held ++ lossyFrom [] bytes := by
  cases bytes with
  | nil => rw [lossyFrom_nil, lossyFrom_nil]; simp [abandoned]
  | cons b bytes =>
    rw [lossyFrom_cons, lossyFrom_cons, step_of_not_joins h, ← List.append_assoc]
    rfl

theorem scan_held_of_not_joins {held : List UInt8} {b : UInt8} {bytes : List UInt8}
    (h : joins held (b :: bytes) = false) :
    (scan held (b :: bytes)).held = (scan [] (b :: bytes)).held := by
  rw [scan_cons, scan_cons, step_of_not_joins h]
  rfl

theorem isTail_of_secondFits {a b : UInt8} (h : secondFits a b = true) : isTail b = true := by
  unfold secondFits isTail at h
  unfold isTail
  split_ifs at h <;> simp only [Bool.and_eq_true, decide_eq_true_eq] at h ⊢ <;> omega

theorem isTail_of_joins {held : List UInt8} {b : UInt8} {bytes : List UInt8}
    (h : joins held (b :: bytes) = true) : isTail b = true := by
  simp only [joins, Bool.and_eq_true, Bool.not_eq_true', List.isEmpty_eq_false_iff,
    decide_eq_true_eq] at h
  obtain ⟨hne, hs⟩ := h
  by_contra ht
  have hsecond (a : UInt8) : secondFits a b = false := by
    by_contra hf
    exact ht (isTail_of_secondFits (by simpa using hf))
  apply hs
  rcases held with _ | ⟨a, _ | ⟨c, _ | ⟨d, _ | ⟨e, held⟩⟩⟩⟩
  · exact absurd rfl hne
  · simp [shape, hsecond a]
  · simp [shape, ht]
  · simp [shape, ht]
  · simp [shape]

-- Only a byte that begins no character goes on with held ones.
theorem start_of_joins {held : List UInt8} {b : UInt8} {bytes : List UInt8}
    (h : joins held (b :: bytes) = true) : start b = ⟨[replacement], [], true⟩ := by
  have hb : 0x80 ≤ b.toNat ∧ b.toNat ≤ 0xBF := by
    simpa [isTail] using isTail_of_joins h
  have hs : shape [b] = .broken := by
    simp only [shape]
    rw [if_neg (by omega), if_neg (by omega)]
  simp [start, hs]

end Concordance.Text.Utf8
