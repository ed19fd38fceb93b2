import Concordance.Proofs.Declaration.Columns
import Concordance.Proofs.Fields.Insertion
import Concordance.Proofs.Text.Lines
import Concordance.Proofs.Text.Number

namespace Concordance.Declaration

open Concordance.Text

-- Text that ends neither the field nor the line in which it stands.
def Unbroken (text : List Char) : Prop := '\t' ∉ text ∧ '\n' ∉ text

instance : DecidablePred Unbroken := fun _ => inferInstanceAs (Decidable (_ ∧ _))

-- A key with its value that stands for itself behind a tag.
structure IsField (entry : String × String) : Prop where
  key_ne_nil : entry.1.toList ≠ []
  colon_notMem_key : ':' ∉ entry.1.toList
  key_unbroken : Unbroken entry.1.toList
  ne_line : entry.1 ≠ "line"
  ne_end : entry.1 ≠ "end"
  value_ne_nil : entry.2.toList ≠ []
  value_unbroken : Unbroken entry.2.toList

-- Text among the fields that says nothing.
structure IsNoise (text : List Char) : Prop where
  unbroken : Unbroken text
  mute : ∀ key value, text = key ++ ':' :: value → ':' ∉ key → key = [] ∨ value = []

theorem isNoise_iff {text : List Char} :
    IsNoise text ↔ Unbroken text ∧ ∀ pair ∈ splitOnce? ':' text, pair.1 = [] ∨ pair.2 = [] := by
  constructor
  · rintro ⟨hunbroken, hmute⟩
    refine ⟨hunbroken, fun pair hpair => ?_⟩
    exact hmute pair.1 pair.2 (splitOnce?_eq_append hpair) (separator_notMem_of_splitOnce? hpair)
  · rintro ⟨hunbroken, hpair⟩
    refine ⟨hunbroken, fun key value htext hcolon => hpair (key, value) ?_⟩
    rw [htext]
    exact splitOnce?_append hcolon value

instance : DecidablePred IsNoise := fun _ => decidable_of_iff' _ isNoise_iff

-- A declaration that a line can give.
structure Printable (d : Declaration) : Prop where
  name : IsWord d.name.toList
  path_ne_nil : d.path.toList ≠ []
  path_unbroken : Unbroken d.path.toList
  newline_notMem_text : '\n' ∉ d.text.toList
  unmarked : ¬ endMark <:+: d.text.toList
  kind : IsWord d.kind.toList
  fields : ∀ entry ∈ d.fields.entries, IsField entry

-- What stands between two tabs behind the kind.
inductive Part where
  | start (line : UInt32)
  | stop (line : UInt32)
  | field (entry : String × String)
  | noise (text : List Char)
deriving DecidableEq, Repr

namespace Part

def text : Part → List Char
  | start line => ['l', 'i', 'n', 'e'] ++ ':' :: Nat.toDigits 10 line.toNat
  | stop line => ['e', 'n', 'd'] ++ ':' :: Nat.toDigits 10 line.toNat
  | field entry => entry.1.toList ++ ':' :: entry.2.toList
  | noise text => text

def start? : Part → Option UInt32
  | start line => some line
  | _ => none

def stop? : Part → Option UInt32
  | stop line => some line
  | _ => none

def field? : Part → Option (String × String)
  | field entry => some entry
  | _ => none

def Sound : Part → Prop
  | start _ => True
  | stop _ => True
  | field entry => IsField entry
  | noise text => IsNoise text

-- What a part adds to what is known.
def apply (e : Extension) : Part → Extension
  | start line => { e with startLine := some line }
  | stop line => { e with endLine := some line }
  | field entry => { e with fields := e.fields.insert entry.1 entry.2 }
  | noise _ => e

theorem unbroken_number {key : List Char} (h : Unbroken key) (line : UInt32) :
    Unbroken (key ++ ':' :: Nat.toDigits 10 line.toNat) := by
  have hdigits {c : Char} (hc : c.isDigit = false) : c ∉ Nat.toDigits 10 line.toNat :=
    fun hmem => ne_of_mem_toDigits hmem hc rfl
  constructor
  · simp [h.1, hdigits]
  · simp [h.2, hdigits]

theorem Sound.unbroken {part : Part} (h : part.Sound) : Unbroken part.text := by
  cases part with
  | start line => exact unbroken_number (by decide) line
  | stop line => exact unbroken_number (by decide) line
  | field entry =>
    obtain ⟨hkeyTab, hkeyLine⟩ := IsField.key_unbroken h
    obtain ⟨hvalueTab, hvalueLine⟩ := IsField.value_unbroken h
    constructor
    · simp [text, hkeyTab, hvalueTab]
    · simp [text, hkeyLine, hvalueLine]
  | noise text => exact IsNoise.unbroken h

theorem add_pair {key value : List Char} (hcolon : ':' ∉ key) (hkey : key ≠ [])
    (hvalue : value ≠ []) (e : Extension) :
    e.add (key ++ ':' :: value) =
      if key = ['l', 'i', 'n', 'e'] then { e with startLine := line? value }
      else if key = ['e', 'n', 'd'] then { e with endLine := line? value }
      else { e with fields := e.fields.insert (String.ofList key) (String.ofList value) } := by
  rw [Extension.add, splitOnce?_append hcolon]
  simp [hkey, hvalue]

theorem Sound.add_text {part : Part} (h : part.Sound) (e : Extension) :
    e.add part.text = part.apply e := by
  cases part with
  | start line =>
    rw [text, add_pair (by decide) (by decide) Nat.toDigits_ne_nil, if_pos rfl, line?_toDigits]
    rfl
  | stop line =>
    rw [text, add_pair (by decide) (by decide) Nat.toDigits_ne_nil, if_neg (by decide), if_pos rfl,
      line?_toDigits]
    rfl
  | field entry =>
    have hfield : IsField entry := h
    have hline : entry.1.toList ≠ ['l', 'i', 'n', 'e'] :=
      fun he => hfield.ne_line (String.toList_inj.mp he)
    have hend : entry.1.toList ≠ ['e', 'n', 'd'] :=
      fun he => hfield.ne_end (String.toList_inj.mp he)
    rw [text, add_pair hfield.colon_notMem_key hfield.key_ne_nil hfield.value_ne_nil,
      if_neg hline, if_neg hend, String.ofList_toList, String.ofList_toList]
    rfl
  | noise text =>
    obtain ⟨-, hempty⟩ := isNoise_iff.mp h
    unfold Extension.add Part.text
    split
    · rfl
    · next key value hsplit =>
      rw [if_pos (by simpa using hempty (key, value) hsplit)]
      rfl

-- The parts say what they say apart from each other: the last line number of each sort counts,
-- and the fields are put together in their order.
theorem foldl_apply (parts : List Part) (e : Extension) :
    parts.foldl (fun e part => part.apply e) e =
      { startLine := (parts.filterMap start?).foldl (fun _ line => some line) e.startLine
        endLine := (parts.filterMap stop?).foldl (fun _ line => some line) e.endLine
        fields := (parts.filterMap field?).foldl (fun fields entry =>
          fields.insert entry.1 entry.2) e.fields } := by
  induction parts generalizing e with
  | nil => rfl
  | cons part parts ih =>
    rw [List.foldl_cons, ih]
    cases part <;> rfl

end Part

-- The parts with a tab between them.
def tail (parts : List Part) : List Char := ['\t'].intercalate (parts.map Part.text)

theorem read_tail {parts : List Part} (hne : parts ≠ []) (h : ∀ part ∈ parts, part.Sound) :
    Extension.read (tail parts) = parts.foldl (fun e part => part.apply e) Extension.empty := by
  have hsplit : splitOn '\t' (tail parts) = parts.map Part.text := by
    rw [splitOn_eq]
    apply List.splitOn_intercalate
    · rw [List.forall_mem_map]
      exact fun part hpart => (h part hpart).unbroken.1
    · simpa using hne
  rw [Extension.read, hsplit, List.foldl_map]
  exact List.foldl_ext _ _ _ fun e part hpart => (h part hpart).add_text e

-- What is read does not depend on the order of the parts.
theorem read_tail_of_sorts {parts : List Part} (h : ∀ part ∈ parts, part.Sound) {start : UInt32}
    {stop : Option UInt32} {fields : Fields} (hstart : (parts.filterMap Part.start?).Perm [start])
    (hstop : (parts.filterMap Part.stop?).Perm stop.toList)
    (hfields : (parts.filterMap Part.field?).Perm fields.entries) :
    Extension.read (tail parts) = ⟨some start, stop, fields⟩ := by
  have hne : parts ≠ [] := by
    rintro rfl
    exact List.cons_ne_nil start [] (List.nil_perm.mp hstart)
  have hstops : (parts.filterMap Part.stop?).foldl (fun _ line => some line) none = stop := by
    cases stop with
    | none => rw [List.perm_nil.mp hstop, List.foldl_nil]
    | some line => rw [List.perm_singleton.mp hstop, List.foldl_cons, List.foldl_nil]
  rw [read_tail hne h, Part.foldl_apply, List.perm_singleton.mp hstart, Extension.empty, hstops,
    ← Fields.ofList, Fields.ofList_of_perm hfields]
  rfl

variable (d : Declaration)

-- What is printed behind the kind. The last line of a declaration is not always known.
def parts (stop : Option UInt32) : List Part :=
  .start d.startLine :: (stop.toList.map .stop ++ d.fields.entries.map .field)

-- The line of a declaration. A dollar may stand at the end of the excerpt.
def printed (anchored : Bool) (parts : List Part) : String :=
  String.ofList (d.name.toList ++ '\t' :: (d.path.toList ++ '\t' :: '/' :: '^' ::
    (d.text.toList ++ ((if anchored then ['$'] else []) ++
      (endMark ++ (d.kind.toList ++ '\t' :: tail parts))))))

-- Whether the line of a declaration is read as another one, with the dollar and, unless the
-- excerpt ends in one itself, without it.
structure IsReadAs (parts : List Part) (d' : Declaration) : Prop where
  anchored : ofLine? (d.printed true parts) = some d'
  unanchored : d.text.toList.getLast? ≠ some '$' → ofLine? (d.printed false parts) = some d'

variable {d}

theorem Printable.excerpt?_printed (h : d.Printable) {anchored : Bool}
    (hlast : anchored = false → d.text.toList.getLast? ≠ some '$') (tail : List Char) :
    Declaration.excerpt? (d.text.toList ++ ((if anchored then ['$'] else []) ++
      (endMark ++ (d.kind.toList ++ '\t' :: tail)))) =
        some (d.text.toList, d.kind.toList ++ '\t' :: tail) := by
  have hkind : BeginsWord (d.kind.toList ++ '\t' :: tail) := h.kind.beginsWord _
  cases anchored with
  | true => exact excerpt?_of_unmarked h.unmarked hkind
  | false => exact excerpt?_of_unanchored h.unmarked (hlast rfl) hkind

theorem newline_notMem_tail {parts : List Part} (h : ∀ part ∈ parts, part.Sound) :
    '\n' ∉ tail parts := by
  intro hmem
  rcases mem_or_exists_of_mem_intercalate hmem with htab | ⟨text, htext, hc⟩
  · exact absurd htab (by decide)
  · obtain ⟨part, hpart, rfl⟩ := List.mem_map.mp htext
    exact (h part hpart).unbroken.2 hc

theorem Printable.isReadAs (h : d.Printable) {parts : List Part}
    (hparts : ∀ part ∈ parts, part.Sound) {stop : Option UInt32}
    (hread : Extension.read (tail parts) = ⟨some d.startLine, stop, d.fields⟩) :
    d.IsReadAs parts { d with endLine := stop.getD d.startLine } := by
  suffices hline : ∀ anchored : Bool,
      (anchored = false → d.text.toList.getLast? ≠ some '$') →
        ofLine? (d.printed anchored parts) = some { d with endLine := stop.getD d.startLine } by
    exact ⟨hline true nofun, fun hlast => hline false fun _ => hlast⟩
  intro anchored hlast
  have hbody : '\n' ∉ d.text.toList ++ ((if anchored then ['$'] else []) ++
      (endMark ++ (d.kind.toList ++ '\t' :: tail parts))) := by
    have hkind : '\n' ∉ d.kind.toList := fun hmem => absurd (h.kind.not_blank _ hmem) (by decide)
    cases anchored <;> simp [h.newline_notMem_text, hkind, newline_notMem_tail hparts, endMark]
  have hcolumns := columns?_of_name_path h.name h.path_ne_nil h.path_unbroken.1 hbody
  rw [h.excerpt?_printed hlast, Option.map_some] at hcolumns
  dsimp only at hcolumns
  rw [columnsFrom_kind h.kind] at hcolumns
  unfold ofLine? printed
  rw [String.toList_ofList, hcolumns]
  dsimp only
  rw [hread]
  simp

theorem Printable.sound (h : d.Printable) {noise : List (List Char)}
    (hnoise : ∀ text ∈ noise, IsNoise text) (stop : Option UInt32) :
    ∀ part ∈ d.parts stop ++ noise.map .noise, part.Sound := by
  intro part hpart
  simp only [parts, List.mem_append, List.mem_cons, List.mem_map] at hpart
  rcases hpart with (rfl | ⟨line, -, rfl⟩ | ⟨entry, hentry, rfl⟩) | ⟨text, htext, rfl⟩
  · trivial
  · trivial
  · exact h.fields entry hentry
  · exact hnoise text htext

theorem Printable.isReadAs_of_perm (h : d.Printable) {noise : List (List Char)}
    (hnoise : ∀ text ∈ noise, IsNoise text) {stop : Option UInt32} {parts : List Part}
    (hperm : parts.Perm (d.parts stop ++ noise.map .noise)) :
    d.IsReadAs parts { d with endLine := stop.getD d.startLine } := by
  have hsound : ∀ part ∈ parts, part.Sound :=
    fun part hpart => h.sound hnoise stop part (hperm.mem_iff.mp hpart)
  have hstart : (d.parts stop ++ noise.map Part.noise).filterMap Part.start? = [d.startLine] := by
    simp [Declaration.parts, Part.start?, Function.comp_def]
  have hstop : (d.parts stop ++ noise.map Part.noise).filterMap Part.stop? = stop.toList := by
    simp [Declaration.parts, Part.stop?, List.filterMap_cons, Function.comp_def]
  have hfield :
      (d.parts stop ++ noise.map Part.noise).filterMap Part.field? = d.fields.entries := by
    simp [Declaration.parts, Part.field?, List.filterMap_cons, Function.comp_def]
  apply h.isReadAs hsound
  apply read_tail_of_sorts hsound
  · rw [← hstart]
    exact hperm.filterMap Part.start?
  · rw [← hstop]
    exact hperm.filterMap Part.stop?
  · rw [← hfield]
    exact hperm.filterMap Part.field?

-- A declaration that is printed is read back, wherever its line numbers and its fields stand and
-- whatever says nothing stands between them. Where no end is printed it is taken to be the start.
theorem ofLine?_printed (h : d.Printable) {noise : List (List Char)}
    (hnoise : ∀ text ∈ noise, IsNoise text) (parts : List Part) :
    (parts.Perm (d.parts (some d.endLine) ++ noise.map .noise) → d.IsReadAs parts d) ∧
    (parts.Perm (d.parts none ++ noise.map .noise) →
      d.IsReadAs parts { d with endLine := d.startLine }) :=
  ⟨h.isReadAs_of_perm hnoise, h.isReadAs_of_perm hnoise⟩

-- A text with tabs, slashes, quotes and dollars of its own, and fields between parts that say
-- nothing.
def mixed : Declaration where
  name := "half"
  path := "src/a b.c"
  kind := "function"
  startLine := 10
  endLine := 20
  text := "\tint half(int x) \x7b /;\"$\t\" */ return x / 2; \x7d"
  fields := Fields.ofList [("scope", "struct:point"), ("typeref", "typename:int")]

def mixedNoise : List (List Char) :=
  [[], ['x'], [':', 'x'], ['l', 'i', 'n', 'e', ':'], [':']]

def mixedParts (stops : List Part) : List Part :=
  [.noise [], .field ("typeref", "typename:int"), .noise ['x']] ++ stops ++
    [.noise ['l', 'i', 'n', 'e', ':'], .start 10, .noise [':', 'x'],
      .field ("scope", "struct:point"), .noise [':']]

theorem ofLine?_printed_mixed :
    mixed.Printable ∧ (∀ text ∈ mixedNoise, IsNoise text) ∧
      (mixedParts [.stop 20]).Perm (mixed.parts (some mixed.endLine) ++ mixedNoise.map .noise) ∧
      mixed.IsReadAs (mixedParts [.stop 20]) mixed ∧
      (mixedParts []).Perm (mixed.parts none ++ mixedNoise.map .noise) ∧
      mixed.IsReadAs (mixedParts []) { mixed with endLine := 10 } := by
  have hentries : mixed.fields.entries =
      [("scope", "struct:point"), ("typeref", "typename:int")] := by decide +kernel
  have hfields : ∀ entry ∈ mixed.fields.entries, IsField entry := by
    rw [hentries, List.forall_mem_cons, List.forall_mem_singleton]
    constructor
    · exact ⟨by decide, by decide, by decide, by decide, by decide, by decide, by decide⟩
    · exact ⟨by decide, by decide, by decide, by decide, by decide, by decide, by decide⟩
  have hprintable : mixed.Printable :=
    ⟨by decide, by decide, by decide, by decide, by decide +kernel, by decide, hfields⟩
  have hnoise : ∀ text ∈ mixedNoise, IsNoise text := by decide +kernel
  have hperm : (mixedParts [.stop 20]).Perm
      (mixed.parts (some mixed.endLine) ++ mixedNoise.map .noise) := by decide +kernel
  have hperm' : (mixedParts []).Perm (mixed.parts none ++ mixedNoise.map .noise) := by
    decide +kernel
  obtain ⟨hread, -⟩ := ofLine?_printed hprintable hnoise (mixedParts [.stop 20])
  obtain ⟨-, hread'⟩ := ofLine?_printed hprintable hnoise (mixedParts [])
  exact ⟨hprintable, hnoise, hperm, hread hperm, hperm', hread' hperm'⟩

end Concordance.Declaration
