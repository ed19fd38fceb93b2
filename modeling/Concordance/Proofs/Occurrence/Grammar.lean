import Concordance.Proofs.Attribution.Fresh
import Concordance.Proofs.Occurrence.Columns
import Concordance.Proofs.Text.Number

namespace Concordance.Occurrence

open Concordance.Text

-- What a line can be read as, before any declaration is looked up.
structure Read (o : Occurrence) : Prop where
  tag : IsWord o.tag.toList
  filename : IsWord o.filename.toList
  content : '\n' ∉ o.content.toList
  fresh : o.Fresh

-- A cross-reference line taken apart, with the blanks between its columns.
structure Spelling where
  tag : List Char
  before : List Char
  digits : List Char
  after : List Char
  filename : List Char
  content : List Char
deriving DecidableEq, Repr

namespace Spelling

variable (w : Spelling)

def fromName : List Char := w.filename ++ ' ' :: w.content

def fromDigits : List Char := w.digits ++ (w.after ++ w.fromName)

def text : List Char := w.tag ++ (w.before ++ w.fromDigits)

def number : Nat := Nat.ofDigitChars 10 w.digits 0

-- What the grammar asks of the parts of a line.
structure Fits : Prop where
  tag : IsWord w.tag
  before : IsGap w.before
  digits_ne_nil : w.digits ≠ []
  isDigit : ∀ c ∈ w.digits, c.isDigit = true
  number_le : w.number ≤ 4294967295
  after : IsGap w.after
  filename : IsWord w.filename
  content : '\n' ∉ w.content

structure Spells (line : String) : Prop where
  fits : w.Fits
  text : line.toList = w.text

-- The occurrence that has the parts of a line, and of which nothing else is known.
structure Gives (relation : Relation) (o : Occurrence) : Prop where
  tag : o.tag.toList = w.tag
  line : o.line.toNat = w.number
  filename : o.filename.toList = w.filename
  content : o.content.toList = w.content
  relation : o.relation = relation
  fresh : o.Fresh

variable {w}

theorem Fits.isWord_digits (h : w.Fits) : IsWord w.digits :=
  ⟨h.digits_ne_nil, fun c hc => isBlank_of_isDigit (h.isDigit c hc)⟩

-- Each column ends where the next one begins, so a line is cut at the same places however it
-- is taken apart.
theorem Fits.word_text (h : w.Fits) : word w.text = (w.tag, w.before ++ w.fromDigits) :=
  word_append h.tag.not_blank (h.before.head?_append _)

theorem Fits.gap_before (h : w.Fits) : gap (w.before ++ w.fromDigits) = (w.before, w.fromDigits) :=
  gap_append h.before.blank (h.isWord_digits.head?_append _)

theorem Fits.word_fromDigits (h : w.Fits) :
    word w.fromDigits = (w.digits, w.after ++ w.fromName) :=
  word_append h.isWord_digits.not_blank (h.after.head?_append _)

theorem Fits.gap_after (h : w.Fits) : gap (w.after ++ w.fromName) = (w.after, w.fromName) :=
  gap_append h.after.blank (h.filename.head?_append _)

theorem Fits.word_fromName (h : w.Fits) : word w.fromName = (w.filename, ' ' :: w.content) :=
  word_append h.filename.not_blank (by simp [isBlank])

theorem Fits.unique {w' : Spelling} (h : w.Fits) (h' : w'.Fits) (htext : w.text = w'.text) :
    w = w' := by
  obtain ⟨htag, hbefore⟩ :=
    Prod.mk.inj (h.word_text.symm.trans ((congrArg word htext).trans h'.word_text))
  obtain ⟨hgap, hdigits⟩ :=
    Prod.mk.inj (h.gap_before.symm.trans ((congrArg gap hbefore).trans h'.gap_before))
  obtain ⟨hnumber, hafter⟩ :=
    Prod.mk.inj (h.word_fromDigits.symm.trans ((congrArg word hdigits).trans h'.word_fromDigits))
  obtain ⟨hgap', hname⟩ :=
    Prod.mk.inj (h.gap_after.symm.trans ((congrArg gap hafter).trans h'.gap_after))
  obtain ⟨hfilename, hcontent⟩ :=
    Prod.mk.inj (h.word_fromName.symm.trans ((congrArg word hname).trans h'.word_fromName))
  calc
    w = ⟨w.tag, w.before, w.digits, w.after, w.filename, w.content⟩ := rfl
    _ = w' := by rw [htag, hgap, hnumber, hgap', hfilename, (List.cons.inj hcontent).2]

theorem Fits.columns?_text (h : w.Fits) :
    columns? w.text = some ⟨w.tag, w.digits, w.filename, w.content⟩ := by
  have hfits : (w.tag.isEmpty || w.filename.isEmpty || w.content.contains '\n') = false := by
    simp [h.tag.ne_nil, h.filename.ne_nil, h.content]
  simp only [columns?, h.word_text, h.gap_before, h.word_fromDigits, h.gap_after, h.word_fromName,
    hfits, Bool.false_eq_true, if_false]

theorem Gives.read {relation : Relation} {o : Occurrence} (h : w.Gives relation o)
    (hfits : w.Fits) : o.Read :=
  ⟨h.tag ▸ hfits.tag, h.filename ▸ hfits.filename, h.content ▸ hfits.content, h.fresh⟩

theorem Gives.unique {relation : Relation} {o o' : Occurrence} (h : w.Gives relation o)
    (h' : w.Gives relation o') : o = o' := by
  obtain ⟨henclosing, hkind⟩ := h.fresh
  obtain ⟨henclosing', hkind'⟩ := h'.fresh
  have htag : o.tag = o'.tag := String.toList_inj.mp (h.tag.trans h'.tag.symm)
  have hline : o.line = o'.line := UInt32.toNat_inj.mp (h.line.trans h'.line.symm)
  have hfilename : o.filename = o'.filename :=
    String.toList_inj.mp (h.filename.trans h'.filename.symm)
  have hcontent : o.content = o'.content := String.toList_inj.mp (h.content.trans h'.content.symm)
  calc
    o = ⟨o.tag, o.line, o.filename, o.content, o.relation, o.enclosing, o.kind⟩ := rfl
    _ = o' := by
      rw [htag, hline, hfilename, hcontent, h.relation, henclosing, hkind, ← h'.relation,
        ← henclosing', ← hkind']

end Spelling

theorem lineNumber?_eq_some_iff {digits : List Char} {line : UInt32} :
    lineNumber? digits = some line ↔
      digits ≠ [] ∧ (∀ c ∈ digits, c.isDigit = true) ∧
        Nat.ofDigitChars 10 digits 0 = line.toNat := by
  unfold lineNumber?
  constructor
  · intro h
    split at h
    · next n hn =>
      obtain ⟨hne, hdigits, rfl⟩ := decimal?_eq_some_iff.mp hn
      split at h
      · next hle =>
        cases h
        refine ⟨hne, hdigits, (UInt32.toNat_ofNat_of_lt' ?_).symm⟩
        exact Nat.lt_of_le_of_lt hle (by decide)
      · cases h
    · cases h
  · rintro ⟨hne, hdigits, hvalue⟩
    have hle : line.toNat ≤ maxWord32 := by
      have hlt := line.toNat_lt_size
      unfold maxWord32
      omega
    rw [decimal?_eq_some_iff.mpr ⟨hne, hdigits, hvalue.symm⟩]
    simp [hle]

-- A line with columns is put together from them and from the blanks that were passed over.
theorem exists_text_of_columns? {line : List Char} {columns : Columns}
    (h : columns? line = some columns) (hdigits : columns.digits ≠ []) :
    ∃ before after, IsGap before ∧ IsGap after ∧
      line = Spelling.text ⟨columns.tag, before, columns.digits, after, columns.filename,
        columns.content⟩ := by
  obtain ⟨-, hfilename, -⟩ := columns?_sound h
  unfold columns? at h
  dsimp only at h
  split at h
  · next content hname =>
    split at h
    · cases h
    · cases h
      refine ⟨(gap (word line).2).1, (gap (word (gap (word line).2).2).2).1, ?_, ?_, ?_⟩
      · apply isGap_after_word
        intro hnil
        exact hdigits (congrArg (fun cs => (word cs).1) hnil)
      · apply isGap_after_word
        intro hnil
        exact hfilename.ne_nil (congrArg (fun cs => (word cs).1) hnil)
      · simp only [Spelling.text, Spelling.fromDigits, Spelling.fromName, ← hname,
          word_fst_append_snd, gap_fst_append_snd]
  · cases h

theorem Spelling.Spells.exists_ofLine? {w : Spelling} {line : String} (h : w.Spells line)
    (relation : Relation) : ∃ o, ofLine? relation line = some o ∧ w.Gives relation o := by
  have hvalue : w.number = (UInt32.ofNat w.number).toNat := by
    refine (UInt32.toNat_ofNat_of_lt' ?_).symm
    exact Nat.lt_of_le_of_lt h.fits.number_le (by decide)
  have hline : lineNumber? w.digits = some (UInt32.ofNat w.number) :=
    lineNumber?_eq_some_iff.mpr ⟨h.fits.digits_ne_nil, h.fits.isDigit, hvalue⟩
  refine ⟨⟨String.ofList w.tag, UInt32.ofNat w.number, String.ofList w.filename,
    String.ofList w.content, relation, none, ""⟩, ?_, ?_⟩
  · rw [ofLine?, h.text, h.fits.columns?_text]
    dsimp only
    rw [hline, Option.map_some]
  · exact ⟨String.toList_ofList, hvalue.symm, String.toList_ofList, String.toList_ofList, rfl,
      rfl, rfl⟩

theorem exists_spells_of_ofLine? {relation : Relation} {line : String} {o : Occurrence}
    (h : ofLine? relation line = some o) : ∃ w : Spelling, w.Spells line := by
  unfold ofLine? at h
  split at h
  · cases h
  · next columns hcolumns =>
    obtain ⟨n, hn, rfl⟩ := Option.map_eq_some_iff.mp h
    obtain ⟨hne, hdigits, hvalue⟩ := lineNumber?_eq_some_iff.mp hn
    obtain ⟨htag, hfilename, hcontent⟩ := columns?_sound hcolumns
    obtain ⟨before, after, hbefore, hafter, htext⟩ := exists_text_of_columns? hcolumns hne
    have hle : Nat.ofDigitChars 10 columns.digits 0 ≤ 4294967295 := by
      rw [hvalue]
      exact Nat.le_of_lt_succ n.toNat_lt_size
    refine ⟨⟨columns.tag, before, columns.digits, after, columns.filename, columns.content⟩, ?_,
      htext⟩
    exact ⟨htag, hbefore, hne, hdigits, hle, hafter, hfilename, hcontent⟩

-- A record as the indexer prints it, with the blanks between the columns and any zeros before
-- the number.
def spelling (o : Occurrence) (before : List Char) (zeros : Nat) (after : List Char) :
    Spelling where
  tag := o.tag.toList
  before
  digits := List.replicate zeros '0' ++ Nat.toDigits 10 o.line.toNat
  after
  filename := o.filename.toList
  content := o.content.toList

def printed (o : Occurrence) (before : List Char) (zeros : Nat) (after : List Char) : String :=
  String.ofList (o.spelling before zeros after).text

variable {o : Occurrence} {before after : List Char}

theorem number_spelling (zeros : Nat) : (o.spelling before zeros after).number = o.line.toNat := by
  rw [Spelling.number, spelling, Nat.ofDigitChars_append, Nat.ofDigitChars_replicate_zero,
    Nat.mul_zero, Nat.ofDigitChars_ten_toDigits]

theorem Read.spells (h : o.Read) (zeros : Nat) (hbefore : IsGap before) (hafter : IsGap after) :
    (o.spelling before zeros after).Spells (o.printed before zeros after) where
  text := String.toList_ofList
  fits :=
    { tag := h.tag
      before := hbefore
      digits_ne_nil := List.append_ne_nil_of_right_ne_nil _ Nat.toDigits_ne_nil
      isDigit := by
        intro c hc
        rcases List.mem_append.mp hc with hzero | hdigit
        · rw [List.eq_of_mem_replicate hzero]
          rfl
        · exact isDigit_of_mem_toDigits hdigit
      number_le := by
        rw [number_spelling]
        exact Nat.le_of_lt_succ o.line.toNat_lt_size
      after := hafter
      filename := h.filename
      content := h.content }

theorem Read.gives (h : o.Read) (zeros : Nat) :
    (o.spelling before zeros after).Gives o.relation o :=
  ⟨rfl, (number_spelling zeros).symm, rfl, rfl, rfl, h.fresh⟩

-- A line is read exactly when it has the form of the grammar. It has it in one way only, and the
-- record is made of its parts. A record that is printed is read back, however far the columns are
-- moved apart and with any number of zeros before the line number.
theorem ofLine?_grammar (relation : Relation) :
    (∀ line, (ofLine? relation line).isSome = true ↔ ∃ w : Spelling, w.Spells line) ∧
    (∀ line (w : Spelling), w.Spells line →
      (∀ w' : Spelling, w'.Spells line → w' = w) ∧
        ∃ o, ofLine? relation line = some o ∧ w.Gives relation o) ∧
    ∀ (o : Occurrence) (before after : List Char) (zeros : Nat), o.Read → o.relation = relation →
      IsGap before → IsGap after → ofLine? relation (o.printed before zeros after) = some o := by
  refine ⟨fun line => ⟨fun h => ?_, ?_⟩, fun line w h => ⟨fun w' h' => ?_, ?_⟩, ?_⟩
  · obtain ⟨o, ho⟩ := Option.isSome_iff_exists.mp h
    exact exists_spells_of_ofLine? ho
  · rintro ⟨w, h⟩
    obtain ⟨o, ho, -⟩ := h.exists_ofLine? relation
    rw [ho, Option.isSome_some]
  · exact h'.fits.unique h.fits (h'.text.symm.trans h.text)
  · exact h.exists_ofLine? relation
  · rintro o before after zeros hread rfl hbefore hafter
    obtain ⟨o', ho', hgives⟩ := (hread.spells zeros hbefore hafter).exists_ofLine? o.relation
    rw [ho', hgives.unique (hread.gives zeros)]

-- Columns that are set apart by other blanks than spaces, a number with zeros before it, and a
-- text that has columns of its own.
def wideSpelling : Spelling where
  tag := ['f', 'a', 'c', 't']
  before := ['\t', Char.ofNat 0x3000]
  digits := ['0', '0', '4', '2']
  after := [Char.ofNat 0xA0, '\n']
  filename := ['a', '.', 'c']
  content := [' ', '9', ' ', 'b', '.', 'c', ' ', 'x']

def wideOccurrence : Occurrence := ⟨"fact", 42, "a.c", " 9 b.c x", .referencedBy, none, ""⟩

theorem ofLine?_grammar_wide :
    let line := "fact\t\u30000042\u00A0\na.c  9 b.c x"
    wideSpelling.Spells line ∧ (∀ w' : Spelling, w'.Spells line → w' = wideSpelling) ∧
      ofLine? .referencedBy line = some wideOccurrence ∧ wideOccurrence.Read ∧
      ofLine? .referencedBy (wideOccurrence.printed ['\t'] 3 [' ', ' ']) = some wideOccurrence := by
  intro line
  have hfits : wideSpelling.Fits :=
    ⟨by decide, by decide, by decide, List.all_eq_true.mp rfl, by decide, by decide, by decide,
      by decide⟩
  have hspells : wideSpelling.Spells line := ⟨hfits, by decide⟩
  have hread : wideOccurrence.Read := ⟨by decide, by decide, by decide, rfl, rfl⟩
  have hgives : wideSpelling.Gives .referencedBy wideOccurrence :=
    ⟨by decide, by decide, by decide, by decide, rfl, rfl, rfl⟩
  obtain ⟨-, hspelled, hprinted⟩ := ofLine?_grammar .referencedBy
  obtain ⟨hunique, o, ho, hgives'⟩ := hspelled line wideSpelling hspells
  rw [hgives'.unique hgives] at ho
  have hback := hprinted wideOccurrence ['\t'] [' ', ' '] 3 hread rfl (by decide) (by decide)
  exact ⟨hspells, hunique, ho, hread, hback⟩

end Concordance.Occurrence
