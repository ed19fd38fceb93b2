import Mathlib.Data.List.Basic
import Concordance.Declaration.Line
import Concordance.Proofs.Text.Words

namespace Concordance.Declaration

open Concordance.Text

-- What ends an excerpt, but for the dollar that may stand before it.
def endMark : List Char := ['/', ';', '"', '\t']

theorem afterMark?_eq_some_iff {cs rest : List Char} :
    afterMark? cs = some rest ↔
      BeginsWord rest ∧ (cs = endMark ++ rest ∨ cs = '$' :: (endMark ++ rest)) := by
  constructor
  · intro h
    unfold afterMark? at h
    dsimp only at h
    split at h
    · next hmark =>
      split at h
      · cases h
      · next hblank =>
        cases h
        refine ⟨⟨_, _, rfl, by simpa using hblank⟩, ?_⟩
        split at hmark
        · exact Or.inr (congrArg ('$' :: ·) hmark)
        · exact Or.inl hmark
    · cases h
  · rintro ⟨⟨c, tail, rfl, hc⟩, rfl | rfl⟩
    · simp [afterMark?, endMark, hc]
    · simp [afterMark?, endMark, hc]

theorem exists_mark_of_excerpt? {cs excerpt rest : List Char}
    (h : excerpt? cs = some (excerpt, rest)) :
    ∃ fromMark, cs = excerpt ++ fromMark ∧ afterMark? fromMark = some rest := by
  induction cs generalizing excerpt with
  | nil =>
    unfold excerpt? at h
    split at h
    · next hmark =>
      cases h
      exact ⟨[], rfl, hmark⟩
    · cases h
  | cons c cs ih =>
    unfold excerpt? at h
    split at h
    · next hmark =>
      cases h
      exact ⟨c :: cs, rfl, hmark⟩
    · obtain ⟨⟨inner, after⟩, hinner, hpair⟩ := Option.map_eq_some_iff.mp h
      cases hpair
      obtain ⟨fromMark, rfl, hmark⟩ := ih hinner
      exact ⟨fromMark, rfl, hmark⟩

-- The mark holds no dollar, so it ends before one or lies behind it.
theorem endMark_prefix_of_append {cs rest tail : List Char}
    (h : cs ++ '$' :: tail = endMark ++ rest) : endMark <+: cs := by
  rcases List.append_eq_append_iff.mp h with ⟨behind, hmark, hdollar⟩ | ⟨behind, hcs, -⟩
  · cases behind with
    | nil =>
      rw [List.append_nil] at hmark
      exact ⟨[], by rw [List.append_nil, hmark]⟩
    | cons c behind =>
      obtain ⟨rfl, -⟩ := List.cons.inj hdollar
      have hmem : '$' ∈ endMark := by
        rw [hmark]
        exact List.mem_append_right cs List.mem_cons_self
      exact absurd hmem (by decide)
  · exact ⟨behind, hcs.symm⟩

theorem afterMark?_of_unmarked {c : Char} {cs tail : List Char}
    (h : ¬ endMark <:+: c :: cs) : afterMark? (c :: cs ++ '$' :: tail) = none := by
  rw [Option.eq_none_iff_forall_ne_some]
  intro rest hmark
  obtain ⟨-, hhere | hdollar⟩ := afterMark?_eq_some_iff.mp hmark
  · exact h (endMark_prefix_of_append hhere).isInfix
  · obtain ⟨-, htail⟩ := List.cons.inj hdollar
    have hinner := (endMark_prefix_of_append htail).isInfix
    exact h (hinner.trans (List.suffix_cons c cs).isInfix)

-- No mark begins inside another one, so it ends before a mark or lies behind it.
theorem endMark_prefix_of_append_endMark {cs rest tail : List Char} (hne : cs ≠ [])
    (h : cs ++ (endMark ++ tail) = endMark ++ rest) : endMark <+: cs := by
  match cs with
  | [] => exact absurd rfl hne
  | [_] => simp [endMark] at h
  | [_, _] => simp [endMark] at h
  | [_, _, _] => simp [endMark] at h
  | a :: b :: c :: d :: cs =>
    simp only [endMark, List.cons_append, List.cons.injEq] at h
    obtain ⟨rfl, rfl, rfl, rfl, -⟩ := h
    exact ⟨cs, rfl⟩

theorem afterMark?_of_unanchored {cs tail : List Char} (hne : cs ≠ [])
    (h : ¬ endMark <:+: cs) (hlast : cs.getLast? ≠ some '$') :
    afterMark? (cs ++ (endMark ++ tail)) = none := by
  rw [Option.eq_none_iff_forall_ne_some]
  intro rest hmark
  obtain ⟨-, hhere | hdollar⟩ := afterMark?_eq_some_iff.mp hmark
  · exact h (endMark_prefix_of_append_endMark hne hhere).isInfix
  · obtain ⟨c, cs, rfl⟩ := List.exists_cons_of_ne_nil hne
    obtain ⟨rfl, htail⟩ := List.cons.inj hdollar
    cases cs with
    | nil => exact hlast rfl
    | cons d cs =>
      have hinner := (endMark_prefix_of_append_endMark (List.cons_ne_nil d cs) htail).isInfix
      exact h (hinner.trans (List.suffix_cons '$' (d :: cs)).isInfix)

-- An excerpt is read to the first place at which a mark stands.
theorem excerpt?_of_first {excerpt fromMark rest : List Char}
    (hmark : afterMark? fromMark = some rest)
    (hfirst : ∀ back, back <:+ excerpt → back ≠ [] → afterMark? (back ++ fromMark) = none) :
    excerpt? (excerpt ++ fromMark) = some (excerpt, rest) := by
  induction excerpt with
  | nil =>
    unfold excerpt?
    rw [List.nil_append, hmark]
  | cons c cs ih =>
    have hnone := hfirst (c :: cs) List.suffix_rfl (List.cons_ne_nil c cs)
    have hrest := ih fun back hback => hfirst back (hback.trans (List.suffix_cons c cs))
    rw [List.cons_append] at hnone ⊢
    unfold excerpt?
    rw [hnone]
    dsimp only
    rw [hrest]
    rfl

-- An excerpt that holds no mark is read to its end.
theorem excerpt?_of_unmarked {excerpt rest : List Char} (h : ¬ endMark <:+: excerpt)
    (hrest : BeginsWord rest) :
    excerpt? (excerpt ++ '$' :: (endMark ++ rest)) = some (excerpt, rest) := by
  apply excerpt?_of_first
  · exact afterMark?_eq_some_iff.mpr ⟨hrest, Or.inr rfl⟩
  · intro back hback hne
    obtain ⟨c, back, rfl⟩ := List.exists_cons_of_ne_nil hne
    exact afterMark?_of_unmarked fun hmark => h (hmark.trans hback.isInfix)

-- Without the dollar this is so unless the excerpt ends in one itself.
theorem excerpt?_of_unanchored {excerpt rest : List Char} (h : ¬ endMark <:+: excerpt)
    (hlast : excerpt.getLast? ≠ some '$') (hrest : BeginsWord rest) :
    excerpt? (excerpt ++ (endMark ++ rest)) = some (excerpt, rest) := by
  apply excerpt?_of_first
  · exact afterMark?_eq_some_iff.mpr ⟨hrest, Or.inl rfl⟩
  · intro back hback hne
    apply afterMark?_of_unanchored hne fun hmark => h (hmark.trans hback.isInfix)
    obtain ⟨front, rfl⟩ := hback
    rwa [List.getLast?_append_of_ne_nil front hne] at hlast

-- The columns after the name and the path.
def columnsFrom (name path excerpt fromKind : List Char) : Columns :=
  let (kind, afterKind) := word fromKind
  let tail := match afterKind with
    | '\t' :: rest => rest
    | _ => afterKind
  ⟨name, path, excerpt, kind, tail⟩

theorem columnsFrom_kind {kind : List Char} (h : IsWord kind)
    (name path excerpt tail : List Char) :
    columnsFrom name path excerpt (kind ++ '\t' :: tail) = ⟨name, path, excerpt, kind, tail⟩ := by
  have hword : word (kind ++ '\t' :: tail) = (kind, '\t' :: tail) :=
    word_append h.not_blank (by simp [isBlank])
  rw [columnsFrom, hword]
  rfl

theorem columns?_of_name_path {name path body : List Char} (hname : IsWord name)
    (hpath : path ≠ []) (htab : '\t' ∉ path) (hline : '\n' ∉ body) :
    columns? (name ++ '\t' :: (path ++ '\t' :: '/' :: '^' :: body)) =
      (excerpt? body).map fun (excerpt, fromKind) => columnsFrom name path excerpt fromKind := by
  have hword : word (name ++ '\t' :: (path ++ '\t' :: '/' :: '^' :: body)) =
      (name, '\t' :: (path ++ '\t' :: '/' :: '^' :: body)) :=
    word_append hname.not_blank (by simp [isBlank])
  have hspan : (path ++ '\t' :: '/' :: '^' :: body).span (· ≠ '\t') =
      (path, '\t' :: '/' :: '^' :: body) := by
    apply span_append
    · intro c hc
      have hne : c ≠ '\t' := fun he => htab (he ▸ hc)
      simpa using hne
    · simp
  have hfits : (name.isEmpty || path.isEmpty || body.contains '\n') = false := by
    simp [hname.ne_nil, hpath, hline]
  simp only [columns?, hword, hspan, hfits, Bool.false_eq_true, if_false]
  rfl

theorem columns?_sound {line : List Char} {columns : Columns} (h : columns? line = some columns) :
    IsWord columns.name ∧ IsWord columns.kind := by
  unfold columns? at h
  dsimp only at h
  split at h
  · split at h
    · split at h
      · cases h
      · next hfits =>
        obtain ⟨⟨excerpt, fromKind⟩, hexcerpt, rfl⟩ := Option.map_eq_some_iff.mp h
        simp only [Bool.or_eq_true, List.isEmpty_iff, not_or] at hfits
        obtain ⟨fromMark, -, hmark⟩ := exists_mark_of_excerpt? hexcerpt
        have hkind : BeginsWord fromKind := (afterMark?_eq_some_iff.mp hmark).1
        exact ⟨isWord_word hfits.1.1, hkind.isWord⟩
    · cases h
  · cases h

end Concordance.Declaration
