import Concordance.Proofs.Project.Records
import Concordance.Proofs.Text.LineEnds
import Concordance.Report

namespace Concordance

open Concordance.Text

-- The lists of records that a query can answer with, whatever the tools print.
inductive Project.Answered : List Occurrence → Prop
  | definitionLines {σ : Type} {p : Project} {tools : Toolbox σ} {s : σ} {os : List Occurrence}
      (symbol : String) (h : ((p.definitionLines symbol).play tools s).outcome = .ok os) :
      Answered os
  | references {σ : Type} {p : Project} {tools : Toolbox σ} {s : σ} {os : List Occurrence}
      (symbol : String) (h : ((p.references symbol).play tools s).outcome = .ok os) : Answered os
  | fileSymbols {σ : Type} {p : Project} {tools : Toolbox σ} {s : σ} {os : List Occurrence}
      (filename : String) (h : ((p.fileSymbols filename).play tools s).outcome = .ok os) :
      Answered os
  | search {σ : Type} {p : Project} {tools : Toolbox σ} {s : σ} {os : List Occurrence}
      (query : String) (h : ((p.search query).play tools s).outcome = .ok os) : Answered os

theorem Project.Answered.proper {os : List Occurrence} (h : Answered os) : ∀ o ∈ os, o.Proper := by
  cases h with
  | definitionLines symbol h => exact fun o ho => (definition_of_definitionLines _ h o ho).1
  | references symbol h => exact proper_of_references _ h
  | fileSymbols filename h => exact fun o ho => (definition_of_fileSymbols _ h o ho).1
  | search query h => exact fun o ho => (definition_of_search _ h o ho).1

theorem Relation.text_inj {r r' : Relation} : r.text = r'.text ↔ r = r' := by
  refine ⟨fun h => ?_, congrArg text⟩
  have hread := ofText?_text r
  rw [h, ofText?_text r', Option.some.injEq] at hread
  exact hread.symm

theorem Relation.isWord_text (r : Relation) : IsWord r.text.toList := by
  cases r <;> decide

namespace Report

-- The first word of a header: where the record is.
def placeWord (o : Occurrence) : List Char :=
  o.filename.toList ++ ':' :: Nat.toDigits 10 o.line.toNat

-- The words that say what a record is a part of.
def enclosingWords (o : Occurrence) : List (List Char) :=
  match o.enclosing with
  | some name => [['i', 'n'], name.toList, '(' :: (o.kind.toList ++ [')'])]
  | none => []

def headerWords (o : Occurrence) : List (List Char) :=
  placeWord o :: ('[' :: (o.relation.text.toList ++ [']'])) :: enclosingWords o

-- The second line of a record.
def previewLine (o : Occurrence) : String := "   " ++ preview o.content

def recordLines (o : Occurrence) : List String := [header o, previewLine o]

theorem length_recordLines (o : Occurrence) : (recordLines o).length = 2 := rfl

-- What stands above the records.
def heading (title : String) (count : Nat) : String :=
  "Found " ++ toString count ++ " matches for '" ++ title ++ "'\n\n"

-- Two records that a report does not tell apart.
structure ShownAlike (o o' : Occurrence) : Prop where
  filename : o.filename = o'.filename
  line : o.line = o'.line
  relation : o.relation = o'.relation
  enclosing : o.enclosing = o'.enclosing
  kind : o.kind = o'.kind
  preview : preview o.content = preview o'.content

variable {o o' : Occurrence} {os os' : List Occurrence}

theorem toList_header (o : Occurrence) : (header o).toList = [' '].intercalate (headerWords o) := by
  cases henclosing : o.enclosing <;>
    simp [header, headerWords, enclosingWords, placeWord, henclosing, List.intercalate]

theorem not_blank_of_mem_placeWord (h : o.Proper) : ∀ c ∈ placeWord o, isBlank c = false := by
  intro c hc
  rcases List.mem_append.mp hc with hname | hcolon
  · exact h.filename.not_blank c hname
  · rcases List.mem_cons.mp hcolon with rfl | hdigit
    · decide
    · exact isBlank_of_isDigit (isDigit_of_mem_toDigits hdigit)

theorem not_blank_of_mem_between {opening closing : Char} {inner : List Char}
    (hopening : isBlank opening = false) (hinner : ∀ c ∈ inner, isBlank c = false)
    (hclosing : isBlank closing = false) :
    ∀ c ∈ opening :: (inner ++ [closing]), isBlank c = false := by
  intro c hc
  rw [List.mem_cons, List.mem_append, List.mem_singleton] at hc
  rcases hc with rfl | hc | rfl
  · exact hopening
  · exact hinner c hc
  · exact hclosing

theorem not_blank_of_mem_enclosingWords (h : o.Proper) :
    ∀ w ∈ enclosingWords o, ∀ c ∈ w, isBlank c = false := by
  have hin : IsWord ['i', 'n'] := by decide
  unfold enclosingWords
  split
  · next name henclosing =>
    intro w hw
    rcases List.mem_cons.mp hw with rfl | hw
    · exact hin.not_blank
    · rcases List.mem_pair.mp hw with rfl | rfl
      · exact (h.enclosing name henclosing).not_blank
      · exact not_blank_of_mem_between rfl h.kind rfl
  · exact nofun

theorem not_blank_of_mem_headerWords (h : o.Proper) :
    ∀ w ∈ headerWords o, ∀ c ∈ w, isBlank c = false := by
  rw [headerWords, List.forall_mem_cons, List.forall_mem_cons]
  refine ⟨not_blank_of_mem_placeWord h, ?_, not_blank_of_mem_enclosingWords h⟩
  exact not_blank_of_mem_between rfl o.relation.isWord_text.not_blank rfl

-- No word of a header holds a blank, so that a header is cut into its words at the spaces.
theorem splitOn_header (h : o.Proper) : (header o).toList.splitOn ' ' = headerWords o := by
  rw [toList_header]
  apply List.splitOn_intercalate
  · intro w hw hspace
    have hblank := not_blank_of_mem_headerWords h w hw ' ' hspace
    exact absurd hblank (by decide)
  · exact List.cons_ne_nil _ _

theorem newline_notMem_header (h : o.Proper) : '\n' ∉ (header o).toList := by
  rw [toList_header]
  intro hmem
  rcases mem_or_exists_of_mem_intercalate hmem with hspace | ⟨w, hw, hc⟩
  · exact absurd hspace (by decide)
  · exact absurd (not_blank_of_mem_headerWords h w hw '\n' hc) (by decide)

-- What is shown of a line is a part of it, with three dots where something is left out.
theorem newline_notMem_preview {content : String} (h : '\n' ∉ content.toList) :
    '\n' ∉ (preview content).toList := by
  have htrimmed : '\n' ∉ trimmed content.toList := mt mem_of_mem_trimmed h
  unfold preview
  dsimp only
  rw [toList_trim]
  split
  · rw [String.toList_append, String.toList_ofList, List.mem_append, not_or]
    exact ⟨mt List.mem_of_mem_take htrimmed, by decide⟩
  · rwa [String.toList_ofList]

theorem length_preview (content : String) : (preview content).toList.length ≤ previewWidth := by
  unfold preview
  dsimp only
  split
  · rw [String.toList_append, String.toList_ofList, List.length_append, List.length_take]
    exact Nat.add_le_of_le_sub (by decide) (Nat.min_le_left _ _)
  · next hshort =>
    rw [String.toList_ofList]
    exact Nat.not_lt.mp hshort

theorem newline_notMem_previewLine (h : o.Proper) : '\n' ∉ (previewLine o).toList := by
  rw [previewLine, String.toList_append, List.mem_append, not_or]
  exact ⟨by decide, newline_notMem_preview h.content⟩

theorem length_previewLine (o : Occurrence) : (previewLine o).toList.length ≤ previewWidth + 3 := by
  rw [previewLine, String.toList_append, List.length_append, Nat.add_comm]
  exact Nat.add_le_add_right (length_preview o.content) 3

-- The digits of the line number end the word, so the last colon parts them from the filename,
-- which may hold colons of its own.
theorem placeWord_inj :
    placeWord o = placeWord o' ↔ o.filename = o'.filename ∧ o.line = o'.line := by
  have hcolon (line : UInt32) : ':' ∉ Nat.toDigits 10 line.toNat :=
    fun hmem => ne_of_mem_toDigits hmem rfl rfl
  rw [placeWord, placeWord, append_separator_inj (hcolon _) (hcolon _), String.toList_inj,
    toDigits_line_inj]

-- A record outside of every declaration has no kind, which is why none is shown there.
theorem enclosingWords_inj (h : o.Proper) (h' : o'.Proper) :
    enclosingWords o = enclosingWords o' ↔ o.enclosing = o'.enclosing ∧ o.kind = o'.kind := by
  have hkind {o : Occurrence} (h : o.Proper) (hnone : o.enclosing = none) : o.kind = "" := by
    simpa [hnone] using h.enclosing_iff
  cases henclosing : o.enclosing with
  | none =>
    cases henclosing' : o'.enclosing with
    | none =>
      simp [enclosingWords, henclosing, henclosing', hkind h henclosing, hkind h' henclosing']
    | some name' => simp [enclosingWords, henclosing, henclosing']
  | some name =>
    cases henclosing' : o'.enclosing with
    | none => simp [enclosingWords, henclosing, henclosing']
    | some name' => simp [enclosingWords, henclosing, henclosing', String.toList_inj]

theorem header_inj (h : o.Proper) (h' : o'.Proper) :
    header o = header o' ↔ headerWords o = headerWords o' := by
  refine ⟨fun heq => ?_, fun heq => ?_⟩
  · rw [← splitOn_header h, heq, splitOn_header h']
  · rw [← String.toList_inj, toList_header, heq, toList_header]

theorem recordLines_inj (h : o.Proper) (h' : o'.Proper) :
    recordLines o = recordLines o' ↔ ShownAlike o o' := by
  have hrelation : ('[' :: (o.relation.text.toList ++ [']']) =
      '[' :: (o'.relation.text.toList ++ [']'])) ↔ o.relation = o'.relation := by
    simp [String.toList_inj, Relation.text_inj]
  rw [recordLines, recordLines, List.cons_eq_cons, List.cons_eq_cons, header_inj h h', headerWords,
    headerWords, List.cons_eq_cons, List.cons_eq_cons, placeWord_inj, hrelation,
    enclosingWords_inj h h', previewLine, previewLine, String.append_right_inj]
  constructor
  · rintro ⟨⟨⟨hfilename, hline⟩, hrelation, henclosing, hkind⟩, hpreview, -⟩
    exact ⟨hfilename, hline, hrelation, henclosing, hkind, hpreview⟩
  · rintro ⟨hfilename, hline, hrelation, henclosing, hkind, hpreview⟩
    exact ⟨⟨⟨hfilename, hline⟩, hrelation, henclosing, hkind⟩, hpreview, rfl⟩

theorem flatMap_recordLines_inj (h : ∀ o ∈ os, o.Proper) (h' : ∀ o ∈ os', o.Proper) :
    os.flatMap recordLines = os'.flatMap recordLines ↔ List.Forall₂ ShownAlike os os' := by
  induction os generalizing os' with
  | nil =>
    cases os' with
    | nil => simp
    | cons o' os' => simp [recordLines]
  | cons o os ih =>
    cases os' with
    | nil => simp [recordLines]
    | cons o' os' =>
      obtain ⟨ho, hos⟩ := List.forall_mem_cons.mp h
      obtain ⟨ho', hos'⟩ := List.forall_mem_cons.mp h'
      rw [List.flatMap_cons, List.flatMap_cons, List.forall₂_cons, ← recordLines_inj ho ho',
        ← ih hos hos']
      -- every record has two lines, so those of the first one end at the same place
      have hlength : (recordLines o).length = (recordLines o').length := by
        rw [length_recordLines, length_recordLines]
      refine ⟨fun heq => List.append_inj heq hlength, fun ⟨hfirst, hothers⟩ => ?_⟩
      rw [hfirst, hothers]

theorem newline_notMem_of_mem_lines (h : ∀ o ∈ os, o.Proper) :
    ∀ line ∈ os.flatMap recordLines, '\n' ∉ line.toList := by
  intro line hline
  obtain ⟨o, ho, hmem⟩ := List.mem_flatMap.mp hline
  rcases List.mem_pair.mp hmem with rfl | rfl
  · exact newline_notMem_header (h o ho)
  · exact newline_notMem_previewLine (h o ho)

theorem entry_eq (o : Occurrence) : entry o = newlined (recordLines o) := by
  simp [← String.toList_inj, entry, newlined, recordLines, previewLine]

theorem occurrences_eq (title : String) (h : os ≠ []) :
    occurrences title os = heading title os.length ++ newlined (os.flatMap recordLines) := by
  have hentries : String.join (os.map entry) = newlined (os.flatMap recordLines) := by
    simp [← String.toList_inj, newlined, entry_eq, List.flatMap_map, List.map_flatMap,
      List.flatMap_assoc]
  rw [occurrences, if_neg (by simpa using h), hentries, heading]

theorem count_newline_heading (title : String) (count : Nat) :
    (heading title count).toList.count '\n' = title.toList.count '\n' + 2 := by
  have hdigits : '\n' ∉ Nat.toDigits 10 count := fun hmem => ne_of_mem_toDigits hmem rfl rfl
  simp [heading, List.count_eq_zero_of_not_mem hdigits]

theorem count_newline_occurrences (title : String) (h : ∀ o ∈ os, o.Proper) :
    (occurrences title os).toList.count '\n' =
      title.toList.count '\n' + if os = [] then 1 else 2 * os.length + 2 := by
  by_cases hempty : os = []
  · simp [occurrences, hempty]
  · have hlines : (os.flatMap recordLines).length = 2 * os.length := by
      simp [length_recordLines, List.length_flatMap, Nat.mul_comm]
    rw [occurrences_eq title hempty, String.toList_append, List.count_append,
      count_newline_heading, count_newline_newlined (newline_notMem_of_mem_lines h), hlines,
      if_neg hempty]
    omega

-- The newlines of two reports tell how many records each of them shows.
theorem length_eq_of_occurrences_eq {title : String} (h : ∀ o ∈ os, o.Proper)
    (h' : ∀ o ∈ os', o.Proper) (heq : occurrences title os = occurrences title os') :
    os.length = os'.length := by
  have hcount := count_newline_occurrences title h
  rw [heq, count_newline_occurrences title h', Nat.add_left_cancel_iff] at hcount
  simp only [← List.length_eq_zero_iff] at hcount
  split at hcount <;> split at hcount <;> omega

theorem occurrences_eq_iff {title : String} (h : ∀ o ∈ os, o.Proper) (h' : ∀ o ∈ os', o.Proper) :
    occurrences title os = occurrences title os' ↔ List.Forall₂ ShownAlike os os' := by
  suffices hsame : os.length = os'.length → (occurrences title os = occurrences title os' ↔
      List.Forall₂ ShownAlike os os') by
    refine ⟨fun heq => (hsame (length_eq_of_occurrences_eq h h' heq)).mp heq, fun halike => ?_⟩
    exact (hsame halike.length_eq).mpr halike
  intro hlength
  by_cases hempty : os = []
  · subst hempty
    rw [List.length_eq_zero_iff.mp hlength.symm]
    exact iff_of_true rfl .nil
  · have hempty' : os' ≠ [] := by
      rintro rfl
      exact hempty (List.length_eq_zero_iff.mp hlength)
    rw [occurrences_eq title hempty, occurrences_eq title hempty', hlength,
      String.append_right_inj, newlined_inj (newline_notMem_of_mem_lines h)
        (newline_notMem_of_mem_lines h'), flatMap_recordLines_inj h h']

-- Whatever stands in the source and in the names of files, the report of what a query found tells
-- the records apart. Two reports under one title are the same text exactly when they show as many
-- records, and at each position the same place, relation, enclosing declaration, kind and preview.
-- A report with records is its heading and, for each record, the line of its header and that of its
-- preview.
theorem occurrences_unforgeable (title : String) :
    (∀ os os', Project.Answered os → Project.Answered os' →
      (occurrences title os = occurrences title os' ↔ List.Forall₂ ShownAlike os os')) ∧
    ∀ os, Project.Answered os → os ≠ [] →
      (occurrences title os).toList.count '\n' =
        title.toList.count '\n' + (2 * os.length + 2) ∧
      occurrences title os = heading title os.length ++
        newlined (os.flatMap fun o => [header o, previewLine o]) ∧
      (heading title os.length).toList.count '\n' = title.toList.count '\n' + 2 ∧
      ∀ o ∈ os, '\n' ∉ (header o).toList ∧ '\n' ∉ (previewLine o).toList ∧
        (previewLine o).toList.length ≤ 83 := by
  refine ⟨fun os os' h h' => ?_, fun os h hempty => ⟨?_, ?_, ?_, fun o ho => ⟨?_, ?_, ?_⟩⟩⟩
  · exact occurrences_eq_iff h.proper h'.proper
  · rw [count_newline_occurrences title h.proper, if_neg hempty]
  · exact occurrences_eq title hempty
  · exact count_newline_heading title os.length
  · exact newline_notMem_header (h.proper o ho)
  · exact newline_notMem_previewLine (h.proper o ho)
  · exact length_previewLine o

-- The name of the file goes on like a header, the line reads like one, and the kind of the
-- declaration around it comes in parentheses of its own.
def deceptiveScript : Script :=
  [⟨⟨"global", ["-x", "run"]⟩, .ok "run 3 a.c:3[other]:b.c /* a.c:4 [other] in run (macro) */\n",
      none⟩,
    ⟨⟨"ctags", taggingArgs "a.c:3[other]:b.c"⟩,
      .ok "run\ta.c\t/^x$/;\"\t(function)\tline:3\n", none⟩]

def bareRecord : Occurrence :=
  ⟨"run", 3, "a.c:3[other]:b.c", "/* a.c:4 [other] in run (macro) */", .definition, none, ""⟩

def assignedRecord : Occurrence :=
  { bareRecord with enclosing := some "run", kind := "(function)" }

theorem occurrences_unforgeable_deceptive :
    (Project.Answered [bareRecord] ∧ Project.Answered [assignedRecord] ∧
      occurrences "run\n" [bareRecord] ≠ occurrences "run\n" [assignedRecord]) ∧
    [assignedRecord] ≠ [] ∧
    (occurrences "run\n" [assignedRecord]).toList.count '\n' = 1 + (2 * 1 + 2) := by
  let p : Project := ⟨{}, "/ws"⟩
  have hdefinitions : ((p.definitionLines "run").play Script.toolbox deceptiveScript).outcome =
      .ok [bareRecord] := by decide +kernel
  have hreferences : ((p.references "run").play Script.toolbox deceptiveScript).outcome =
      .ok [assignedRecord] := by decide +kernel
  have hbare : Project.Answered [bareRecord] := .definitionLines "run" hdefinitions
  have hassigned : Project.Answered [assignedRecord] := .references "run" hreferences
  obtain ⟨hdetermines, hlayout⟩ := occurrences_unforgeable "run\n"
  have hne : [assignedRecord] ≠ [] := List.cons_ne_nil _ _
  refine ⟨⟨hbare, hassigned, fun heq => ?_⟩, hne, (hlayout _ hassigned hne).1⟩
  obtain ⟨halike, -⟩ := List.forall₂_cons.mp ((hdetermines _ _ hbare hassigned).mp heq)
  cases halike.enclosing

end Report

end Concordance
