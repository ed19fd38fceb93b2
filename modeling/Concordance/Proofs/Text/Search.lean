import Mathlib.Data.List.Infix
import Mathlib.Tactic.ByContra
import Concordance.Text.Search

namespace Concordance.Text

-- The first place at which a needle stands in a text.
def FirstAt (needle text : List Char) (i : Nat) : Prop :=
  needle <+: text.drop i ∧ ∀ j < i, ¬ needle <+: text.drop j

theorem find?_cons (needle : List Char) (c : Char) (text : List Char) :
    find? needle (c :: text) =
      if needle <+: c :: text then some 0 else (find? needle text).map (· + 1) := by
  rw [find?]
  by_cases h : needle <+: c :: text
  · rw [if_pos h, if_pos (List.isPrefixOf_iff_prefix.mpr h)]
  · rw [if_neg h, if_neg (mt List.isPrefixOf_iff_prefix.mp h)]

theorem find?_eq_some_iff {needle text : List Char} {i : Nat} :
    find? needle text = some i ↔ FirstAt needle text i := by
  induction text generalizing i with
  | nil =>
    cases needle with
    | nil =>
      constructor
      · intro h
        cases h
        refine ⟨?_, fun j hj => absurd hj (Nat.not_lt_zero j)⟩
        exact List.nil_prefix
      · rintro ⟨-, hfirst⟩
        cases i with
        | zero => rfl
        | succ i => exact absurd List.nil_prefix (hfirst 0 (Nat.succ_pos i))
    | cons c needle => simp [find?, FirstAt]
  | cons c text ih =>
    rw [find?_cons]
    by_cases hhere : needle <+: c :: text
    · rw [if_pos hhere]
      constructor
      · intro h
        cases h
        exact ⟨hhere, fun j hj => absurd hj (Nat.not_lt_zero j)⟩
      · rintro ⟨-, hfirst⟩
        cases i with
        | zero => rfl
        | succ i => exact absurd hhere (hfirst 0 (Nat.succ_pos i))
    · rw [if_neg hhere, Option.map_eq_some_iff]
      constructor
      · rintro ⟨i, hi, rfl⟩
        obtain ⟨hat, hfirst⟩ := ih.mp hi
        refine ⟨hat, fun j hj => ?_⟩
        cases j with
        | zero => exact hhere
        | succ j => exact hfirst j (by omega)
      · rintro ⟨hat, hfirst⟩
        cases i with
        | zero => exact absurd hat hhere
        | succ i =>
          refine ⟨i, ih.mpr ⟨hat, fun j hj => ?_⟩, rfl⟩
          exact hfirst (j + 1) (by omega)

theorem exists_firstAt {needle text : List Char} (h : needle <:+: text) :
    ∃ i, FirstAt needle text i := by
  suffices hfound : ∃ i, find? needle text = some i by
    obtain ⟨i, hi⟩ := hfound
    exact ⟨i, find?_eq_some_iff.mp hi⟩
  induction text with
  | nil =>
    rw [List.infix_nil.mp h]
    exact ⟨0, rfl⟩
  | cons c text ih =>
    rw [find?_cons]
    by_cases hhere : needle <+: c :: text
    · exact ⟨0, if_pos hhere⟩
    · obtain ⟨i, hi⟩ := ih ((List.infix_cons_iff.mp h).resolve_left hhere)
      exact ⟨i + 1, by rw [if_neg hhere, hi, Option.map_some]⟩

theorem FirstAt.eq_zero_of_nil {text : List Char} {i : Nat} (h : FirstAt [] text i) : i = 0 := by
  by_contra hpos
  exact h.2 0 (Nat.pos_of_ne_zero hpos) List.nil_prefix

theorem FirstAt.add_length_le {needle text : List Char} {i : Nat} (h : FirstAt needle text i) :
    i + needle.length ≤ text.length := by
  have hlength := h.1.length_le
  rw [List.length_drop] at hlength
  cases needle with
  | nil =>
    rw [h.eq_zero_of_nil]
    exact Nat.zero_le _
  | cons c needle =>
    rw [List.length_cons] at hlength ⊢
    omega

theorem FirstAt.unique {needle text : List Char} {i j : Nat} (hi : FirstAt needle text i)
    (hj : FirstAt needle text j) : i = j := by
  rw [← find?_eq_some_iff] at hi hj
  exact Option.some.inj (hi.symm.trans hj)

end Concordance.Text
