import Mathlib.Data.List.TakeDrop
import Mathlib.Data.List.TakeWhile
import Concordance.Text.Blank

namespace Concordance.Text

-- A word is not empty and holds no blank.
structure IsWord (cs : List Char) : Prop where
  ne_nil : cs ≠ []
  not_blank : ∀ c ∈ cs, isBlank c = false

theorem isWord_iff {cs : List Char} :
    IsWord cs ↔ cs.isEmpty = false ∧ (cs.all fun c => !isBlank c) = true := by
  rw [List.isEmpty_eq_false_iff, List.all_eq_true]
  simp only [Bool.not_eq_true']
  exact ⟨fun h => ⟨h.ne_nil, h.not_blank⟩, fun h => ⟨h.1, h.2⟩⟩

instance (cs : List Char) : Decidable (IsWord cs) := decidable_of_iff' _ isWord_iff

theorem isBlank_of_isDigit {c : Char} (h : c.isDigit = true) : isBlank c = false := by
  obtain ⟨hlow, hhigh⟩ := Char.isDigit_iff_toNat.mp h
  have hlow : 48 ≤ c.toNat := hlow
  have hhigh : c.toNat ≤ 57 := hhigh
  simp [isBlank]
  omega

theorem word_eq (cs : List Char) :
    word cs = (cs.takeWhile fun c => !isBlank c, cs.dropWhile fun c => !isBlank c) :=
  List.span_eq_takeWhile_dropWhile _ cs

theorem not_blank_of_mem_word {cs : List Char} {c : Char} (h : c ∈ (word cs).1) :
    isBlank c = false := by
  rw [word_eq] at h
  have hc := List.mem_takeWhile_imp h
  simpa using hc

theorem isWord_word {cs : List Char} (h : (word cs).1 ≠ []) : IsWord (word cs).1 :=
  ⟨h, fun _ hc => not_blank_of_mem_word hc⟩

-- A word stands at the start of a text.
def BeginsWord (cs : List Char) : Prop := ∃ c rest, cs = c :: rest ∧ isBlank c = false

theorem BeginsWord.isWord {cs : List Char} (h : BeginsWord cs) : IsWord (word cs).1 := by
  obtain ⟨c, rest, rfl, hc⟩ := h
  apply isWord_word
  simp [word_eq, hc]

theorem IsWord.beginsWord {w : List Char} (h : IsWord w) (rest : List Char) :
    BeginsWord (w ++ rest) := by
  obtain ⟨c, w, rfl⟩ := List.exists_cons_of_ne_nil h.ne_nil
  exact ⟨c, w ++ rest, rfl, h.not_blank c List.mem_cons_self⟩

-- A run of characters is cut off where the first one of another sort follows it.
theorem span_append {p : Char → Bool} {run rest : List Char} (hrun : ∀ c ∈ run, p c = true)
    (hrest : ∀ c ∈ rest.head?, p c = false) : (run ++ rest).span p = (run, rest) := by
  rw [List.span_eq_takeWhile_dropWhile, List.takeWhile_append_of_pos hrun,
    List.dropWhile_append_of_pos hrun]
  cases rest with
  | nil => simp
  | cons c rest =>
    have hc : p c = false := hrest c rfl
    simp [hc]

theorem word_append {w rest : List Char} (hw : ∀ c ∈ w, isBlank c = false)
    (hrest : ∀ c ∈ rest.head?, isBlank c = true) : word (w ++ rest) = (w, rest) := by
  apply span_append
  · simpa using hw
  · simpa using hrest

-- A gap is not empty and holds nothing but blanks.
structure IsGap (cs : List Char) : Prop where
  ne_nil : cs ≠ []
  blank : ∀ c ∈ cs, isBlank c = true

theorem isGap_iff {cs : List Char} : IsGap cs ↔ cs.isEmpty = false ∧ cs.all isBlank = true := by
  rw [List.isEmpty_eq_false_iff, List.all_eq_true]
  exact ⟨fun h => ⟨h.ne_nil, h.blank⟩, fun h => ⟨h.1, h.2⟩⟩

instance (cs : List Char) : Decidable (IsGap cs) := decidable_of_iff' _ isGap_iff

theorem IsGap.head?_append {g : List Char} (h : IsGap g) (rest : List Char) :
    ∀ c ∈ (g ++ rest).head?, isBlank c = true := by
  obtain ⟨c, g, rfl⟩ := List.exists_cons_of_ne_nil h.ne_nil
  rintro _ ⟨⟩
  exact h.blank c List.mem_cons_self

theorem IsWord.head?_append {w : List Char} (h : IsWord w) (rest : List Char) :
    ∀ c ∈ (w ++ rest).head?, isBlank c = false := by
  obtain ⟨c, w, rfl⟩ := List.exists_cons_of_ne_nil h.ne_nil
  rintro _ ⟨⟩
  exact h.not_blank c List.mem_cons_self

theorem gap_append {g rest : List Char} (hg : ∀ c ∈ g, isBlank c = true)
    (hrest : ∀ c ∈ rest.head?, isBlank c = false) : gap (g ++ rest) = (g, rest) :=
  span_append hg hrest

theorem gap_eq (cs : List Char) : gap cs = (cs.takeWhile isBlank, cs.dropWhile isBlank) :=
  List.span_eq_takeWhile_dropWhile _ cs

theorem word_fst_append_snd (cs : List Char) : (word cs).1 ++ (word cs).2 = cs := by
  rw [word_eq]
  exact List.takeWhile_append_dropWhile

theorem gap_fst_append_snd (cs : List Char) : (gap cs).1 ++ (gap cs).2 = cs := by
  rw [gap_eq]
  exact List.takeWhile_append_dropWhile

-- A text that goes on behind a word and a run of blanks has a blank right behind the word.
theorem isGap_after_word {cs : List Char} (h : (gap (word cs).2).2 ≠ []) :
    IsGap (gap (word cs).2).1 := by
  have hstop : (word cs).2 = cs.dropWhile fun c => !isBlank c := by rw [word_eq]
  cases hafter : (word cs).2 with
  | nil =>
    rw [hafter] at h
    exact absurd rfl h
  | cons c rest =>
    have hblank : isBlank c = true := by
      have hhead := List.head?_dropWhile_not (fun c => !isBlank c) cs
      rw [← hstop, hafter] at hhead
      simpa using hhead
    rw [gap_eq]
    constructor
    · simp [hblank]
    · exact fun d hd => List.mem_takeWhile_imp hd

theorem mem_trimmed {cs : List Char} {c : Char} (hc : c ∈ cs) (hblank : isBlank c = false) :
    c ∈ trimmed cs := by
  have hkept {ds : List Char} (hd : c ∈ ds) : c ∈ ds.dropWhile isBlank := by
    rw [← List.takeWhile_append_dropWhile (p := isBlank) (l := ds), List.mem_append] at hd
    rcases hd with htaken | hleft
    · have htrue := List.mem_takeWhile_imp htaken
      rw [hblank] at htrue
      cases htrue
    · exact hleft
  rw [trimmed, dropEndWhile, List.mem_reverse]
  exact hkept (List.mem_reverse.mpr (hkept hc))

theorem mem_of_mem_trimmed {cs : List Char} {c : Char} (h : c ∈ trimmed cs) : c ∈ cs := by
  rw [trimmed, dropEndWhile, List.mem_reverse] at h
  have hfront := (List.dropWhile_sublist isBlank).mem h
  exact (List.dropWhile_sublist isBlank).mem (List.mem_reverse.mp hfront)

end Concordance.Text
