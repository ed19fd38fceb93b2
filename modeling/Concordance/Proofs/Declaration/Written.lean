import Concordance.Proofs.Declaration.Columns
import Concordance.Proofs.Text.Lines
import Concordance.Proofs.Text.Number
import Concordance.Proofs.Text.Search

namespace Concordance.Declaration

open Concordance.Text

-- The characters before which an excerpt has a backslash.
def Escaped (c : Char) : Prop := c = '/' ∨ c = '\\'

instance : DecidablePred Escaped := fun c => inferInstanceAs (Decidable (c = '/' ∨ c = '\\'))

-- A line of the source as its excerpt gives it.
def escape : List Char → List Char
  | [] => []
  | c :: cs => if Escaped c then '\\' :: c :: escape cs else c :: escape cs

-- Text that an excerpt gives as it is.
def Plain (text : List Char) : Prop := ∀ c ∈ text, ¬ Escaped c

instance : DecidablePred Plain := fun text => text.decidableBAll fun c => ¬ Escaped c

-- How many characters before a column have a backslash before them.
def escapedBefore (text : List Char) (i : Nat) : Nat := (text.take i).countP fun c => Escaped c

theorem Plain.of_part {text part : List Char} (h : Plain text) (hpart : part <:+: text) :
    Plain part := fun c hc => h c (hpart.subset hc)

theorem Plain.unmarked {text : List Char} (h : Plain text) : ¬ endMark <:+: text :=
  fun hmark => h '/' (hmark.subset List.mem_cons_self) (Or.inl rfl)

theorem Plain.escapedBefore_eq_zero {text : List Char} (h : Plain text) (i : Nat) :
    escapedBefore text i = 0 := by
  rw [escapedBefore, List.countP_eq_zero]
  intro c hc
  simpa using h c (List.mem_of_mem_take hc)

theorem escape_cons_of_escaped {c : Char} (h : Escaped c) (cs : List Char) :
    escape (c :: cs) = '\\' :: c :: escape cs := if_pos h

theorem escape_cons_of_not_escaped {c : Char} (h : ¬ Escaped c) (cs : List Char) :
    escape (c :: cs) = c :: escape cs := if_neg h

theorem escape_of_plain {text : List Char} (h : Plain text) : escape text = text := by
  induction text with
  | nil => rfl
  | cons c text ih =>
    obtain ⟨hc, htext⟩ := List.forall_mem_cons.mp h
    rw [escape_cons_of_not_escaped hc, ih htext]

theorem mem_escape {text : List Char} {c : Char} (h : c ∈ escape text) : c = '\\' ∨ c ∈ text := by
  induction text with
  | nil => cases h
  | cons d text ih =>
    by_cases hd : Escaped d
    · rw [escape_cons_of_escaped hd, List.mem_cons, List.mem_cons] at h
      rcases h with hback | hhere | hrest
      · exact Or.inl hback
      · exact Or.inr (List.mem_cons.mpr (Or.inl hhere))
      · exact (ih hrest).imp id (List.mem_cons_of_mem d)
    · rw [escape_cons_of_not_escaped hd, List.mem_cons] at h
      rcases h with hhere | hrest
      · exact Or.inr (List.mem_cons.mpr (Or.inl hhere))
      · exact (ih hrest).imp id (List.mem_cons_of_mem d)

theorem not_plain_prefix_of_escaped {c : Char} {needle text : List Char} (hneedle : Plain needle)
    (hne : needle ≠ []) (hc : Escaped c) : ¬ needle <+: c :: text := by
  intro h
  obtain ⟨d, rest, rfl⟩ := List.exists_cons_of_ne_nil hne
  obtain ⟨rfl, -⟩ := List.cons_prefix_cons.mp h
  exact hneedle d List.mem_cons_self hc

-- Plain text stands in an excerpt where it stands in the line.
theorem prefix_escape_iff {needle text : List Char} (h : Plain needle) :
    needle <+: escape text ↔ needle <+: text := by
  induction text generalizing needle with
  | nil => rfl
  | cons c text ih =>
    by_cases hne : needle = []
    · simp [hne]
    · by_cases hc : Escaped c
      · have hback : Escaped '\\' := Or.inr rfl
        rw [escape_cons_of_escaped hc]
        exact iff_of_false (not_plain_prefix_of_escaped h hne hback)
          (not_plain_prefix_of_escaped h hne hc)
      · obtain ⟨d, needle, rfl⟩ := List.exists_cons_of_ne_nil hne
        have hneedle : Plain needle := fun c hc => h c (List.mem_cons_of_mem d hc)
        rw [escape_cons_of_not_escaped hc, List.cons_prefix_cons, List.cons_prefix_cons,
          ih hneedle]

-- Each slash and backslash of the line moves what follows it by one column.
theorem find?_escape {needle : List Char} (h : Plain needle) (hne : needle ≠ [])
    (text : List Char) :
    find? needle (escape text) =
      (find? needle text).map fun i => i + escapedBefore text i := by
  induction text with
  | nil =>
    cases needle with
    | nil => exact absurd rfl hne
    | cons c needle => rfl
  | cons c text ih =>
    by_cases hc : Escaped c
    · have hback : Escaped '\\' := Or.inr rfl
      rw [escape_cons_of_escaped hc, find?_cons, find?_cons, find?_cons,
        if_neg (not_plain_prefix_of_escaped h hne hback),
        if_neg (not_plain_prefix_of_escaped h hne hc),
        if_neg (not_plain_prefix_of_escaped h hne hc), ih]
      cases find? needle text with
      | none => rfl
      | some i =>
        simp only [Option.map_some, escapedBefore, List.take_succ_cons, List.countP_cons, hc,
          decide_true, if_true]
        congr 1
        omega
    · have hhere : needle <+: c :: escape text ↔ needle <+: c :: text := by
        rw [← escape_cons_of_not_escaped hc, prefix_escape_iff h]
      rw [escape_cons_of_not_escaped hc, find?_cons, find?_cons]
      by_cases hfound : needle <+: c :: text
      · rw [if_pos hfound, if_pos (hhere.mpr hfound)]
        rfl
      · rw [if_neg hfound, if_neg (mt hhere.mp hfound), ih]
        cases find? needle text with
        | none => rfl
        | some i =>
          simp only [Option.map_some, escapedBefore, List.take_succ_cons, List.countP_cons, hc,
            decide_false, Bool.false_eq_true, if_false]
          congr 1
          omega

-- A mark in an excerpt is one of the line: only its slash is escaped.
theorem endMark_infix_of_escape {text : List Char} (h : endMark <:+: escape text) :
    endMark <:+: text := by
  induction text with
  | nil => exact h
  | cons c text ih =>
    have hrest : Plain [';', '"', '\t'] := by decide
    by_cases hc : Escaped c
    · rw [escape_cons_of_escaped hc, List.infix_cons_iff, List.infix_cons_iff] at h
      rcases h with hback | hhere | hlater
      · obtain ⟨heq, -⟩ := List.cons_prefix_cons.mp hback
        exact absurd heq (by decide)
      · obtain ⟨rfl, htail⟩ := List.cons_prefix_cons.mp hhere
        have hmark := (prefix_escape_iff hrest).mp htail
        exact (List.cons_prefix_cons.mpr ⟨rfl, hmark⟩).isInfix
      · exact (ih hlater).trans (List.suffix_cons c text).isInfix
    · rw [escape_cons_of_not_escaped hc, List.infix_cons_iff] at h
      rcases h with hhere | hlater
      · obtain ⟨rfl, -⟩ := List.cons_prefix_cons.mp hhere
        exact absurd (Or.inl rfl) hc
      · exact (ih hlater).trans (List.suffix_cons c text).isInfix

-- A line that an excerpt begins with, and goes on otherwise than with a backslash, holds
-- nothing that is escaped. The induction counts the backslashes by which the excerpt is ahead.
theorem plain_of_append_eq {text behind rest : List Char} {c : Char} (ahead : Nat) (hc : c ≠ '\\')
    (h : text ++ c :: behind = List.replicate ahead '\\' ++ (escape text ++ rest)) :
    ahead = 0 ∧ Plain text := by
  induction text generalizing ahead with
  | nil =>
    cases ahead with
    | zero => exact ⟨rfl, fun c hc => absurd hc List.not_mem_nil⟩
    | succ ahead =>
      obtain ⟨rfl, -⟩ := List.cons.inj h
      exact absurd rfl hc
  | cons d text ih =>
    by_cases hd : Escaped d
    · have hmore : List.replicate ahead '\\' ++ (escape (d :: text) ++ rest) =
          List.replicate (ahead + 1) '\\' ++ d :: (escape text ++ rest) := by
        rw [escape_cons_of_escaped hd, List.replicate_succ', List.append_assoc]
        rfl
      rw [hmore, List.replicate_succ, List.cons_append, List.cons_append] at h
      obtain ⟨rfl, htail⟩ := List.cons.inj h
      have hone : List.replicate ahead '\\' ++ '\\' :: (escape text ++ rest) =
          List.replicate (ahead + 1) '\\' ++ (escape text ++ rest) := by
        rw [List.replicate_succ', List.append_assoc, List.singleton_append]
      obtain ⟨hzero, -⟩ := ih (ahead + 1) (htail.trans hone)
      omega
    · cases ahead with
      | zero =>
        rw [escape_cons_of_not_escaped hd] at h
        obtain ⟨-, htail⟩ := List.cons.inj h
        obtain ⟨-, hplain⟩ := ih 0 htail
        exact ⟨rfl, List.forall_mem_cons.mpr ⟨hd, hplain⟩⟩
      | succ ahead =>
        obtain ⟨rfl, -⟩ := List.cons.inj h
        exact absurd (Or.inr rfl) hd

end Concordance.Declaration
