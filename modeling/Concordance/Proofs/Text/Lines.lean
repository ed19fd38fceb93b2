import Mathlib.Data.List.DropRight
import Concordance.Text.Lines

namespace Concordance.Text

theorem cut_newline (text : List Char) :
    cut ('\n' :: text) = ([] :: (cut text).1, (cut text).2) := by
  simp [cut]

theorem cut_cons_nil {c : Char} {text : List Char} (hc : c ≠ '\n') (h : (cut text).1 = []) :
    cut (c :: text) = ([], c :: (cut text).2) := by
  simp [cut, hc, h]

theorem cut_cons_cons {c : Char} {text first : List Char} {others : List (List Char)}
    (hc : c ≠ '\n') (h : (cut text).1 = first :: others) :
    cut (c :: text) = ((c :: first) :: others, (cut text).2) := by
  simp [cut, hc, h]

theorem cut_of_not_mem {text : List Char} (h : '\n' ∉ text) : cut text = ([], text) := by
  induction text with
  | nil => rfl
  | cons c text ih =>
    obtain ⟨hc, ht⟩ := not_or.mp (mt List.mem_cons.mpr h)
    have hcut := ih ht
    rw [cut_cons_nil (Ne.symm hc) (by rw [hcut]), hcut]

theorem not_mem_cut_snd (text : List Char) : '\n' ∉ (cut text).2 := by
  induction text with
  | nil => simp [cut]
  | cons c text ih =>
    by_cases hc : c = '\n'
    · subst hc
      rwa [cut_newline]
    · cases h : (cut text).1 with
      | nil =>
        rw [cut_cons_nil hc h, List.mem_cons, not_or]
        exact ⟨Ne.symm hc, ih⟩
      | cons first others => rwa [cut_cons_cons hc h]

-- Text that arrives later is cut together with what was left over before.
theorem cut_append (before after : List Char) :
    cut (before ++ after) =
      ((cut before).1 ++ (cut ((cut before).2 ++ after)).1, (cut ((cut before).2 ++ after)).2) := by
  induction before with
  | nil => rfl
  | cons c before ih =>
    by_cases hc : c = '\n'
    · subst hc
      rw [List.cons_append, cut_newline, cut_newline, ih]
      rfl
    · cases h : (cut before).1 with
      | nil =>
        rw [cut_cons_nil hc h]
        rw [h, List.nil_append] at ih
        cases hs : (cut ((cut before).2 ++ after)).1 with
        | nil =>
          rw [List.cons_append, cut_cons_nil hc (by rw [ih]; exact hs), List.nil_append,
            List.cons_append, cut_cons_nil hc hs, ih]
        | cons first others =>
          rw [List.cons_append, cut_cons_cons hc (by rw [ih]; exact hs), List.nil_append,
            List.cons_append, cut_cons_cons hc hs, ih]
      | cons first others =>
        rw [h] at ih
        rw [List.cons_append, cut_cons_cons hc h, cut_cons_cons hc (by rw [ih]; rfl), ih]
        rfl

theorem cut_append_newline {line : List Char} (h : '\n' ∉ line) :
    cut (line ++ ['\n']) = ([line], []) := by
  induction line with
  | nil => rfl
  | cons c line ih =>
    obtain ⟨hc, hline⟩ := not_or.mp (mt List.mem_cons.mpr h)
    have hcut := ih hline
    rw [List.cons_append, cut_cons_cons (Ne.symm hc) (by rw [hcut]), hcut]

theorem cut_concat_newline (front : List Char) :
    cut (front ++ ['\n']) = ((cut front).1 ++ [(cut front).2], []) := by
  rw [cut_append, cut_append_newline (not_mem_cut_snd front)]

theorem cut_concat {c : Char} (front : List Char) (hc : c ≠ '\n') :
    cut (front ++ [c]) = ((cut front).1, (cut front).2 ++ [c]) := by
  have hmem : '\n' ∉ (cut front).2 ++ [c] := by
    rw [List.mem_append, List.mem_singleton, not_or]
    exact ⟨not_mem_cut_snd front, Ne.symm hc⟩
  rw [cut_append, cut_of_not_mem hmem, List.append_nil]

theorem length_cut_fst (text : List Char) : (cut text).1.length = text.count '\n' := by
  induction text with
  | nil => rfl
  | cons c text ih =>
    by_cases hc : c = '\n'
    · subst hc
      rw [cut_newline, List.length_cons, ih, List.count_cons_self]
    · rw [List.count_cons_of_ne hc, ← ih]
      cases h : (cut text).1 with
      | nil => rw [cut_cons_nil hc h]
      | cons first others => rw [cut_cons_cons hc h, List.length_cons, List.length_cons]

theorem splitLines_singleton {line : List Char} (h : '\n' ∉ line) :
    splitLines (line ++ ['\n']) = [dropReturn line] := by
  simp [splitLines, cut_append_newline h]

theorem dropReturn_append {last : List Char} (front : List Char) (hne : last ≠ [])
    (h : '\r' ∉ last) : dropReturn (front ++ last) = front ++ last := by
  unfold dropReturn
  rw [List.getLast?_append_of_ne_nil front hne, if_neg]
  intro hlast
  exact h (List.mem_of_getLast? hlast)

theorem mem_or_exists_of_mem_intercalate {separator : List Char} {pieces : List (List Char)}
    {c : Char} (h : c ∈ separator.intercalate pieces) :
    c ∈ separator ∨ ∃ piece ∈ pieces, c ∈ piece := by
  induction pieces with
  | nil => cases h
  | cons first others ih =>
    cases others with
    | nil =>
      rw [List.intercalate_singleton] at h
      exact Or.inr ⟨first, List.mem_cons_self, h⟩
    | cons second others =>
      rw [List.intercalate_cons_cons, List.mem_append, List.mem_append] at h
      rcases h with (hfirst | hseparator) | hothers
      · exact Or.inr ⟨first, List.mem_cons_self, hfirst⟩
      · exact Or.inl hseparator
      · obtain hseparator | ⟨piece, hmem, hc⟩ := ih hothers
        · exact Or.inl hseparator
        · exact Or.inr ⟨piece, List.mem_cons_of_mem first hmem, hc⟩

-- Cutting is splitting at the newlines, with the last part set apart.
theorem splitOn_newline (text : List Char) :
    text.splitOn '\n' = (cut text).1 ++ [(cut text).2] := by
  induction text with
  | nil => rfl
  | cons c text ih =>
    rw [List.splitOn_cons_eq_if_modifyHead, ih]
    by_cases hc : c = '\n'
    · subst hc
      rw [cut_newline]
      rfl
    · rw [if_neg (by simpa using hc)]
      cases h : (cut text).1 with
      | nil => rw [cut_cons_nil hc h]; rfl
      | cons first others => rw [cut_cons_cons hc h]; rfl

theorem splitOn_eq {α : Type} [DecidableEq α] (separator : α) (text : List α) :
    splitOn separator text = text.splitOn separator := by
  induction text with
  | nil => rfl
  | cons c text ih =>
    rw [List.splitOn_cons_eq_if_modifyHead, splitOn, ih]
    by_cases hc : c = separator
    · rw [if_pos hc, if_pos (beq_iff_eq.mpr hc)]
    · rw [if_neg hc, if_neg (mt beq_iff_eq.mp hc)]
      cases hrest : text.splitOn separator with
      | nil => exact absurd hrest (List.splitOn_ne_nil separator text)
      | cons first others => rfl

theorem splitOnce?_eq_append {separator : Char} {text before after : List Char}
    (h : splitOnce? separator text = some (before, after)) :
    text = before ++ separator :: after := by
  induction text generalizing before with
  | nil => cases h
  | cons c text ih =>
    rw [splitOnce?] at h
    split at h
    · next hc =>
      cases h
      rw [hc, List.nil_append]
    · obtain ⟨⟨front, back⟩, hsplit, hpair⟩ := Option.map_eq_some_iff.mp h
      cases hpair
      rw [ih hsplit, List.cons_append]

theorem separator_notMem_of_splitOnce? {separator : Char} {text before after : List Char}
    (h : splitOnce? separator text = some (before, after)) : separator ∉ before := by
  induction text generalizing before with
  | nil => cases h
  | cons c text ih =>
    rw [splitOnce?] at h
    split at h
    · cases h
      exact List.not_mem_nil
    · next hc =>
      obtain ⟨⟨front, back⟩, hsplit, hpair⟩ := Option.map_eq_some_iff.mp h
      cases hpair
      rw [List.mem_cons, not_or]
      exact ⟨Ne.symm hc, ih hsplit⟩

theorem splitOnce?_append {separator : Char} {before : List Char} (h : separator ∉ before)
    (after : List Char) : splitOnce? separator (before ++ separator :: after) =
      some (before, after) := by
  induction before with
  | nil => exact if_pos rfl
  | cons c before ih =>
    obtain ⟨hc, hbefore⟩ := not_or.mp (mt List.mem_cons.mpr h)
    rw [List.cons_append, splitOnce?, if_neg (Ne.symm hc), ih hbefore, Option.map_some]

-- What stands behind the last separator is told from what stands before it.
theorem append_separator_inj {separator : Char} {before before' after after' : List Char}
    (h : separator ∉ after) (h' : separator ∉ after') :
    before ++ separator :: after = before' ++ separator :: after' ↔
      before = before' ∧ after = after' := by
  -- read from its end, the text has its last separator first
  have hread (before : List Char) {after : List Char} (hafter : separator ∉ after) :
      splitOnce? separator (before ++ separator :: after).reverse =
        some (after.reverse, before.reverse) := by
    rw [List.reverse_append, List.reverse_cons, List.append_assoc, List.singleton_append]
    exact splitOnce?_append (mt List.mem_reverse.mp hafter) before.reverse
  refine ⟨fun heq => ?_, fun ⟨hbefore, hafter⟩ => by rw [hbefore, hafter]⟩
  have hsame := hread before h
  rw [heq, hread before' h', Option.some.injEq, Prod.mk.injEq, List.reverse_inj, List.reverse_inj] at hsame
  exact ⟨hsame.2.symm, hsame.1.symm⟩

theorem separator_notMem_of_mem_splitOn {α : Type} [DecidableEq α] {separator : α}
    {text piece : List α} (h : piece ∈ splitOn separator text) : separator ∉ piece := by
  induction text generalizing piece with
  | nil =>
    rw [List.mem_singleton.mp h]
    exact List.not_mem_nil
  | cons c text ih =>
    rw [splitOn] at h
    by_cases hc : c = separator
    · rw [if_pos hc] at h
      rcases List.mem_cons.mp h with rfl | hrest
      · exact List.not_mem_nil
      · exact ih hrest
    · rw [if_neg hc] at h
      cases hrest : splitOn separator text with
      | nil =>
        rw [hrest] at h
        rw [List.mem_singleton.mp h, List.mem_singleton]
        exact Ne.symm hc
      | cons first others =>
        rw [hrest] at h ih
        rcases List.mem_cons.mp h with rfl | hothers
        · rw [List.mem_cons, not_or]
          exact ⟨Ne.symm hc, ih List.mem_cons_self⟩
        · exact ih (List.mem_cons_of_mem first hothers)

theorem mem_of_mem_splitOn {α : Type} [DecidableEq α] {separator a : α} {text piece : List α}
    (h : piece ∈ splitOn separator text) (ha : a ∈ piece) : a ∈ text := by
  induction text generalizing piece with
  | nil =>
    rw [List.mem_singleton.mp h] at ha
    exact ha
  | cons c text ih =>
    rw [splitOn] at h
    by_cases hc : c = separator
    · rw [if_pos hc] at h
      rcases List.mem_cons.mp h with rfl | hrest
      · exact absurd ha List.not_mem_nil
      · exact List.mem_cons_of_mem c (ih hrest ha)
    · rw [if_neg hc] at h
      cases hrest : splitOn separator text with
      | nil =>
        rw [hrest] at h
        rw [List.mem_singleton.mp h] at ha
        exact List.mem_cons.mpr (Or.inl (List.mem_singleton.mp ha))
      | cons first others =>
        rw [hrest] at h ih
        rcases List.mem_cons.mp h with rfl | hothers
        · rcases List.mem_cons.mp ha with rfl | hfirst
          · exact List.mem_cons_self
          · exact List.mem_cons_of_mem c (ih List.mem_cons_self hfirst)
        · exact List.mem_cons_of_mem c (ih (List.mem_cons_of_mem first hothers) ha)

theorem not_mem_of_mem_cut_fst {text piece : List Char} (h : piece ∈ (cut text).1) :
    '\n' ∉ piece := by
  have hmem : piece ∈ splitOn '\n' text := by
    rw [splitOn_eq, splitOn_newline]
    exact List.mem_append_left _ h
  exact separator_notMem_of_mem_splitOn hmem

theorem mem_of_mem_dropReturn {line : List Char} {c : Char} (h : c ∈ dropReturn line) :
    c ∈ line := by
  unfold dropReturn at h
  split at h
  · exact (List.dropLast_sublist line).subset h
  · exact h

-- A segment without the carriage return at its end, if one is there.
def withoutReturn (segment : List Char) : List Char :=
  (segment.dropSuffix? ['\r']).getD segment

theorem dropReturn_eq_withoutReturn (segment : List Char) :
    dropReturn segment = withoutReturn segment := by
  cases segment using List.reverseRecOn with
  | nil => rfl
  | append_singleton segment c =>
    unfold dropReturn withoutReturn
    rw [List.getLast?_concat, List.dropLast_concat]
    by_cases hc : c = '\r'
    · subst hc
      have hs : (segment ++ ['\r']).dropSuffix? ['\r'] = some segment :=
        List.dropSuffix?_eq_some_iff.mpr ⟨['\r'], rfl, by simp⟩
      rw [hs, if_pos rfl]
      rfl
    · have hs : (segment ++ [c]).dropSuffix? ['\r'] = none := by
        by_contra hne
        obtain ⟨p, hp⟩ := Option.ne_none_iff_exists'.mp hne
        obtain ⟨s, he, hb⟩ := List.dropSuffix?_eq_some_iff.mp hp
        rw [eq_of_beq hb] at he
        exact hc (List.append_singleton_inj.mp he).2
      rw [hs, if_neg (by simpa using hc)]
      rfl

end Concordance.Text
