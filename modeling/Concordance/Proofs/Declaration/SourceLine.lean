import Concordance.Proofs.Declaration.Written

namespace Concordance.Declaration

open Concordance.Text

-- A field that says neither where a declaration starts nor of which structure it is a member.
structure FurtherField (item : List Char) : Prop where
  unbroken : ∀ c ∈ item, c ≠ '\t' ∧ c ≠ '\n' ∧ c ≠ '\r'
  line : ¬ ['l', 'i', 'n', 'e', ':'] <+: item
  struct : ¬ ['s', 't', 'r', 'u', 'c', 't', ':'] <+: item

-- A declaring line of a file, and what else the tagging tool knows of the declaration.
structure SourceLine where
  name : String
  path : String
  text : String
  kind : String
  line : UInt32
  further : List (List Char)
  isWord_name : IsWord name.toList
  name_in_text : name.toList <:+: text.toList
  path_ne_nil : path.toList ≠ []
  tab_not_mem_path : '\t' ∉ path.toList
  newline_not_mem_path : '\n' ∉ path.toList
  newline_not_mem_text : '\n' ∉ text.toList
  isWord_kind : IsWord kind.toList
  furtherField : ∀ item ∈ further, FurtherField item

namespace Extension

-- None of the fields read so far names a structure.
def Unscoped (e : Extension) : Prop := ∀ entry ∈ e.fields.entries, entry.1 ≠ "struct"

theorem add_lineField (e : Extension) (line : UInt32) :
    e.add ('l' :: 'i' :: 'n' :: 'e' :: ':' :: Nat.toDigits 10 line.toNat) =
      { e with startLine := some line } := by
  simp [add, splitOnce?, line?_toDigits, Nat.toDigits_ne_nil]

theorem add_further {e : Extension} {item : List Char} (h : FurtherField item)
    (he : e.Unscoped) : (e.add item).startLine = e.startLine ∧ (e.add item).Unscoped := by
  unfold add
  split
  · exact ⟨rfl, he⟩
  · next key value hsplit =>
    have hitem := splitOnce?_eq_append hsplit
    split
    · exact ⟨rfl, he⟩
    · split
      · next hkey =>
        subst hkey
        exact absurd ⟨value, hitem.symm⟩ h.line
      · split
        · exact ⟨rfl, he⟩
        · refine ⟨rfl, fun entry hentry => ?_⟩
          rcases mem_putEntry hentry with rfl | hold
          · intro hkey
            have hstruct : key = ['s', 't', 'r', 'u', 'c', 't'] := String.ofList_injective hkey
            subst hstruct
            exact h.struct ⟨value, hitem.symm⟩
          · exact he entry hold

theorem foldl_add_further {items : List (List Char)} (h : ∀ item ∈ items, FurtherField item)
    {e : Extension} (he : e.Unscoped) :
    (items.foldl add e).startLine = e.startLine ∧ (items.foldl add e).Unscoped := by
  induction items generalizing e with
  | nil => exact ⟨rfl, he⟩
  | cons item items ih =>
    obtain ⟨hitem, hitems⟩ := List.forall_mem_cons.mp h
    obtain ⟨hline, hscope⟩ := add_further hitem he
    obtain ⟨hlines, hscopes⟩ := ih hitems hscope
    exact ⟨hlines.trans hline, hscopes⟩

end Extension

theorem isMember_eq_false {d : Declaration} (h : ∀ entry ∈ d.fields.entries, entry.1 ≠ "struct") :
    d.isMember = false := by
  have hnone : d.fields.get? "struct" = none := by
    rw [Fields.get?, List.lookup_eq_none_iff]
    intro entry hentry
    simpa using (h entry hentry).symm
  rw [isMember, hnone]
  rfl

namespace SourceLine

variable (d : SourceLine)

def lineField : List Char := 'l' :: 'i' :: 'n' :: 'e' :: ':' :: Nat.toDigits 10 d.line.toNat

def tail : List Char := ['\t'].intercalate (d.lineField :: d.further)

def kindOn : List Char := d.kind.toList ++ '\t' :: d.tail

def fromExcerpt : List Char := escape d.text.toList ++ '$' :: (endMark ++ d.kindOn)

-- What the tagging tool prints of the line: the name and the path, the text between its
-- marks, and the fields.
def written : List Char :=
  d.name.toList ++ '\t' :: (d.path.toList ++ '\t' :: '/' :: '^' :: d.fromExcerpt)

def output : String := String.ofList (d.written ++ ['\n'])

variable {d}

theorem field_unbroken {item : List Char} (h : item ∈ d.lineField :: d.further) :
    ∀ c ∈ item, c ≠ '\t' ∧ c ≠ '\n' ∧ c ≠ '\r' := by
  rcases List.mem_cons.mp h with rfl | hfurther
  · intro c hc
    simp only [lineField, List.mem_cons] at hc
    rcases hc with rfl | rfl | rfl | rfl | rfl | hdigit
    iterate 5 decide
    exact ⟨ne_of_mem_toDigits hdigit rfl, ne_of_mem_toDigits hdigit rfl,
      ne_of_mem_toDigits hdigit rfl⟩
  · exact (d.furtherField item hfurther).unbroken

theorem tail_unbroken : ∀ c ∈ d.tail, c ≠ '\n' ∧ c ≠ '\r' := by
  intro c hc
  rcases mem_or_exists_of_mem_intercalate hc with htab | ⟨item, hitem, hc⟩
  · rw [List.mem_singleton.mp htab]
    decide
  · exact (field_unbroken hitem c hc).2

theorem tail_ne_nil : d.tail ≠ [] := by
  unfold tail lineField
  cases d.further with
  | nil => simp
  | cons item items => simp [List.intercalate_cons_cons]

theorem kindOn_beginsWord : BeginsWord d.kindOn := d.isWord_kind.beginsWord _

theorem newline_not_mem_fromExcerpt : '\n' ∉ d.fromExcerpt := by
  intro h
  simp only [fromExcerpt, kindOn, List.mem_append, List.mem_cons] at h
  rcases h with htext | hdollar | hmark | hkind | htab | htail
  · rcases mem_escape htext with hback | hmem
    · exact absurd hback (by decide)
    · exact d.newline_not_mem_text hmem
  · exact absurd hdollar (by decide)
  · exact absurd hmark (by decide)
  · exact absurd (d.isWord_kind.not_blank '\n' hkind) (by decide)
  · exact absurd htab (by decide)
  · exact (tail_unbroken '\n' htail).1 rfl

theorem newline_not_mem_written : '\n' ∉ d.written := by
  intro h
  simp only [written, List.mem_append, List.mem_cons] at h
  rcases h with hname | htab | hpath | htab | hslash | hcaret | hbody
  · exact absurd (d.isWord_name.not_blank '\n' hname) (by decide)
  · exact absurd htab (by decide)
  · exact d.newline_not_mem_path hpath
  · exact absurd htab (by decide)
  · exact absurd hslash (by decide)
  · exact absurd hcaret (by decide)
  · exact newline_not_mem_fromExcerpt hbody

theorem splitLines_written : splitLines (d.written ++ ['\n']) = [d.written] := by
  rw [splitLines_singleton newline_not_mem_written]
  have hlast : d.written = (d.name.toList ++ '\t' :: (d.path.toList ++ '\t' :: '/' :: '^' ::
      (escape d.text.toList ++ '$' :: (endMark ++ (d.kind.toList ++ ['\t']))))) ++ d.tail := by
    simp [written, fromExcerpt, kindOn]
  have hreturn : '\r' ∉ d.tail := fun h => (tail_unbroken '\r' h).2 rfl
  rw [hlast, dropReturn_append _ tail_ne_nil hreturn]

theorem read_tail :
    (Extension.read d.tail).startLine = some d.line ∧ (Extension.read d.tail).Unscoped := by
  have hsplit : splitOn '\t' d.tail = d.lineField :: d.further := by
    rw [splitOn_eq]
    apply List.splitOn_intercalate
    · exact fun item hitem htab => (field_unbroken hitem '\t' htab).1 rfl
    · simp
  have hempty : ({ Extension.empty with startLine := some d.line }).Unscoped :=
    fun entry hentry => absurd hentry List.not_mem_nil
  rw [Extension.read, hsplit, List.foldl_cons, lineField, Extension.add_lineField]
  exact Extension.foldl_add_further d.furtherField hempty

theorem columns?_written :
    columns? d.written = (excerpt? d.fromExcerpt).map fun (excerpt, fromKind) =>
      columnsFrom d.name.toList d.path.toList excerpt fromKind :=
  columns?_of_name_path d.isWord_name d.path_ne_nil d.tab_not_mem_path newline_not_mem_fromExcerpt

-- A line is read as the text that its excerpt begins with only when nothing in it is escaped.
theorem plain_of_excerpt? {rest : List Char}
    (h : excerpt? d.fromExcerpt = some (d.text.toList, rest)) : Plain d.text.toList := by
  obtain ⟨fromMark, hbody, hmark⟩ := exists_mark_of_excerpt? h
  obtain ⟨c, behind, hne, rfl⟩ : ∃ c behind, c ≠ '\\' ∧ fromMark = c :: behind := by
    obtain ⟨-, rfl | rfl⟩ := afterMark?_eq_some_iff.mp hmark
    · exact ⟨'/', _, by decide, rfl⟩
    · exact ⟨'$', _, by decide, rfl⟩
  exact (plain_of_append_eq 0 hne hbody.symm).2

theorem columns?_of_unmarked (h : ¬ endMark <:+: d.text.toList) :
    columns? d.written =
      some ⟨d.name.toList, d.path.toList, escape d.text.toList, d.kind.toList, d.tail⟩ := by
  have hescape : ¬ endMark <:+: escape d.text.toList := mt endMark_infix_of_escape h
  rw [columns?_written, fromExcerpt, excerpt?_of_unmarked hescape kindOn_beginsWord,
    Option.map_some]
  exact congrArg some (columnsFrom_kind d.isWord_kind _ _ _ d.tail)

theorem ofOutput_output : ofOutput d.output = (ofLine? (String.ofList d.written)).toList := by
  rw [ofOutput, output, lines, String.toList_ofList, splitLines_written]
  cases h : ofLine? (String.ofList d.written) with
  | none => simp [h]
  | some declaration => simp [h]

theorem plain_of_ofLine? {declaration : Declaration}
    (h : ofLine? (String.ofList d.written) = some declaration) (htext : declaration.text = d.text) :
    Plain d.text.toList := by
  unfold ofLine? at h
  rw [String.toList_ofList, columns?_written] at h
  cases hexcerpt : excerpt? d.fromExcerpt with
  | none =>
    rw [hexcerpt] at h
    cases h
  | some found =>
    obtain ⟨excerpt, fromKind⟩ := found
    rw [hexcerpt] at h
    obtain ⟨line, -, rfl⟩ := Option.map_eq_some_iff.mp h
    have heq : excerpt = d.text.toList := by
      rw [← htext]
      exact String.toList_ofList.symm
    rw [heq] at hexcerpt
    exact plain_of_excerpt? hexcerpt

-- A line without a mark of its own is read with its text as the excerpt gives it.
theorem exists_ofLine?_of_unmarked (h : ¬ endMark <:+: d.text.toList) :
    ∃ declaration, ofLine? (String.ofList d.written) = some declaration ∧
      declaration.isMember = false ∧ declaration.name = d.name ∧ declaration.kind = d.kind ∧
      declaration.startLine = d.line ∧ declaration.text = String.ofList (escape d.text.toList) := by
  obtain ⟨hline, hscope⟩ := read_tail (d := d)
  unfold ofLine?
  rw [String.toList_ofList, columns?_of_unmarked h]
  dsimp only
  rw [hline]
  exact ⟨_, rfl, isMember_eq_false hscope, String.ofList_toList, String.ofList_toList, rfl, rfl⟩

end SourceLine

end Concordance.Declaration
