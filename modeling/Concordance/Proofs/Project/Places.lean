import Concordance.Proofs.Path.Names
import Concordance.Proofs.Path.Text
import Concordance.Proofs.Project.Search
import Concordance.Proofs.Session.Printing
import Concordance.Proofs.TextRange
import Concordance.Tool.Script

namespace Concordance

open Concordance.Text

-- Counting from zero leaves room for the one that is added again.
theorem lineNumber_zeroBased {line : UInt32} (h : line ≠ 0) :
    (zeroBased line).toNat + 1 < UInt32.size ∧
      Report.lineNumber (zeroBased line) = toString line.toNat := by
  have hne : line.toNat ≠ 0 := fun he => h (UInt32.toNat_inj.mp he)
  have hlt : line.toNat < UInt32.size := line.toNat_lt_size
  have hone : (zeroBased line).toNat + 1 = line.toNat := by
    rw [toNat_zeroBased]
    omega
  have hsum : (zeroBased line + 1).toNat = line.toNat := by
    rw [UInt32.toNat_add, UInt32.toNat_one, hone]
    exact Nat.mod_eq_of_lt hlt
  exact ⟨hone ▸ hlt, by rw [Report.lineNumber, hsum]⟩

-- Where an occurrence is, seen from the root of the project. Lines and columns count from zero,
-- columns in characters, and a tag that is not on its line is taken to stand at the start.
structure Occurrence.PlacedAt (root : Path) (o : Occurrence) (l : Location) : Prop where
  absolute : o.filename.toList.head? = some '/' → l.path = o.filename
  relative : o.filename.toList.head? ≠ some '/' → l.path.bytes =
    root.bytes ++
      (if root.bytes = [] ∨ root.bytes.getLast? = some Path.slash then [] else [Path.slash]) ++
      (o.filename : Path).bytes
  start_line : l.range.start.line.toNat = o.line.toNat - 1
  stop_line : l.range.stop.line = l.range.start.line
  column : ∀ i, FirstAt o.tag.toList o.content.toList i →
    l.range.start.character = UInt32.ofNat i
  stale : ¬ o.tag.toList <:+: o.content.toList → l.range.start.character = 0
  stop_column : l.range.stop.character =
    l.range.start.character + UInt32.ofNat o.tag.toList.length

namespace Occurrence

variable {root : Path} {o : Occurrence} {l l' : Location}

theorem PlacedAt.unique (h : o.PlacedAt root l) (h' : o.PlacedAt root l') : l = l' := by
  have hpath : l.path = l'.path := by
    by_cases hslash : o.filename.toList.head? = some '/'
    · rw [h.absolute hslash, h'.absolute hslash]
    · exact congrArg Path.mk ((h.relative hslash).trans (h'.relative hslash).symm)
  have hline : l.range.start.line = l'.range.start.line :=
    UInt32.toNat_inj.mp (h.start_line.trans h'.start_line.symm)
  have hcolumn : l.range.start.character = l'.range.start.character := by
    by_cases hfound : o.tag.toList <:+: o.content.toList
    · obtain ⟨i, hi⟩ := exists_firstAt hfound
      rw [h.column i hi, h'.column i hi]
    · rw [h.stale hfound, h'.stale hfound]
  have hstopLine : l.range.stop.line = l'.range.stop.line := by
    rw [h.stop_line, h'.stop_line, hline]
  have hstopColumn : l.range.stop.character = l'.range.stop.character := by
    rw [h.stop_column, h'.stop_column, hcolumn]
  obtain ⟨path, ⟨line, column⟩, stop⟩ := l
  obtain ⟨path', ⟨line', column'⟩, stop'⟩ := l'
  dsimp only at hpath hline hcolumn hstopLine hstopColumn
  subst hpath hline hcolumn
  obtain ⟨stopLine, stopColumn⟩ := stop
  obtain ⟨stopLine', stopColumn'⟩ := stop'
  dsimp only at hstopLine hstopColumn
  rw [hstopLine, hstopColumn]

theorem placedAt_range (root : Path) (o : Occurrence) :
    o.PlacedAt root ⟨Path.join root o.filename, o.range.1⟩ where
  absolute h := Path.join_of_isAbsolute ((Path.isAbsolute_ofText o.filename).mpr h) root
  relative h := by
    have hrelative := Bool.eq_false_iff.mpr (mt (Path.isAbsolute_ofText o.filename).mp h)
    exact Path.join_of_not_isAbsolute hrelative root
  start_line := toNat_zeroBased o.line
  stop_line := rfl
  column i hi := by simp only [range, TextRange.locate, column?_of_firstAt hi, Option.getD_some]
  stale h := by simp only [range, TextRange.locate, column?_of_absent h, Option.getD_none]
  stop_column := rfl

end Occurrence

namespace Project

variable (p : Project)

theorem placedAt_location (o : Occurrence) : o.PlacedAt p.root (p.location o) := by
  have hpath : p.resolve o.filename = Path.join p.root o.filename := Path.resolve_eq_join _ _
  rw [location, hpath]
  exact Occurrence.placedAt_range p.root o

-- What all front-ends make of an occurrence: the one place where it is.
structure PointsTo (o : Occurrence) (l : Location) : Prop where
  placed : o.PlacedAt p.root l
  unique : ∀ l', o.PlacedAt p.root l' → l' = l
  definition : p.location o = l
  hit_path : (p.symbolHit o).path = l.path
  hit_position : (p.symbolHit o).position = l.range.start
  command : ∀ label isRoot expanded,
    ((Node.ofOccurrence o label isRoot expanded).item p.root).command =
      if o.line ≠ 0 ∧ o.content ≠ "" then some l else none

theorem pointsTo_location (o : Occurrence) : p.PointsTo o (p.location o) where
  placed := p.placedAt_location o
  unique _ h := h.unique (p.placedAt_location o)
  definition := rfl
  hit_path := rfl
  hit_position := rfl
  command label isRoot expanded := by
    have hpath : p.resolve o.filename = Path.join p.root o.filename := Path.resolve_eq_join _ _
    have hlocated : (Node.ofOccurrence o label isRoot expanded).hasLocation =
        (decide (o.line ≠ 0) && decide (o.content ≠ "")) := rfl
    simp only [Node.item, hlocated, Bool.and_eq_true, decide_eq_true_eq, location, hpath]
    rfl

variable {σ : Type} (tools : Toolbox σ)

theorem definitions_outcome (symbol : String) (s : σ) :
    ((p.definitions symbol).play tools s).outcome =
      ((p.definitionLines symbol).play tools s).outcome.map (List.map p.location) := by
  unfold definitions
  rw [Dialogue.bind_eq_bind, Dialogue.play_bind]
  cases ((p.definitionLines symbol).play tools s).outcome with
  | error failure => rfl
  | ok os =>
    dsimp only
    rw [Dialogue.bind_eq_bind, Dialogue.play_bind_ok (Dialogue.play_notifyAll tools _ _)]
    rfl

theorem matched_definitions (symbol : String) (s : σ) :
    Matched p.PointsTo ((p.definitionLines symbol).play tools s).outcome
      ((p.definitions symbol).play tools s).outcome := by
  rw [definitions_outcome]
  exact .map p.pointsTo_location _

-- A hit of a search over all files, at the place of an occurrence.
def HitsAt (o : Occurrence) (hit : SymbolHit) : Prop :=
  hit.name = o.tag ∧ ∃ l, p.PointsTo o l ∧ hit.path = l.path ∧ hit.position = l.range.start

theorem matched_symbolHits_search (query : String) (s : σ) :
    Matched p.HitsAt ((p.search query).play tools s).outcome
      ((p.symbolHits query).play tools s).outcome := by
  rw [symbolHits_outcome]
  exact .map (fun o => ⟨rfl, _, p.pointsTo_location o, rfl, rfl⟩) _

-- A printed line that gives the place of an occurrence by its path and the number of its line.
-- The number is got back without leaving 32 bits.
def Printed (before after : Occurrence → String) (o : Occurrence) (text : String) : Prop :=
  o.line ≠ 0 → ∃ l, p.PointsTo o l ∧ l.range.start.line.toNat + 1 < UInt32.size ∧
    text = before o ++ l.path.display ++ ":" ++ toString o.line.toNat ++ after o

def columnText (o : Occurrence) : String :=
  ":" ++ Report.lineNumber (p.location o).range.start.character ++ "\n"

theorem printed_location (o : Occurrence) :
    p.Printed (fun _ => "") p.columnText o (Report.location (p.location o)) := by
  intro hline
  obtain ⟨hroom, hnumber⟩ := lineNumber_zeroBased hline
  refine ⟨_, p.pointsTo_location o, hroom, ?_⟩
  have hstart : Report.lineNumber (p.location o).range.start.line = toString o.line.toNat := hnumber
  rw [Report.location, hstart, columnText, String.empty_append]
  simp only [String.append_assoc]

theorem printed_symbolHit (o : Occurrence) :
    p.Printed (fun o => o.tag ++ "  ") (fun _ => "\n") o (Report.symbolHit (p.symbolHit o)) := by
  intro hline
  obtain ⟨hroom, hnumber⟩ := lineNumber_zeroBased hline
  refine ⟨_, p.pointsTo_location o, hroom, ?_⟩
  have hstart : Report.lineNumber (p.symbolHit o).position.line = toString o.line.toNat := hnumber
  rw [Report.symbolHit, hstart]
  rfl

end Project

namespace Session

variable {σ : Type} (s : Session) (tools : Toolbox σ)

-- What comes of a command that asks and then prints, when the user did not ask for JSON.
def told {α : Type} (human : α → String) : Except ToolFailure α → Outcome Unit
  | .ok value => ⟨human value, .ok ()⟩
  | .error failure => ⟨"", .error (.tool failure)⟩

theorem play_printing_human {α : Type} (hjson : s.json = false) (d : Dialogue α) (json : α → Json)
    (human : α → String) (t : σ) :
    ((s.printing d json human).dialogue.play tools t).outcome =
      .ok (told human (d.play tools t).outcome) := by
  have hemitted : ∀ value, s.emitted (json value) (human value) = human value := by
    intro value
    rw [emitted, hjson]
    exact if_neg Bool.false_ne_true
  rw [play_printing]
  simp only [hemitted]
  cases (d.play tools t).outcome <;> rfl

variable (index : Except SystemFault Unit)

theorem run_def_outcome (hjson : s.json = false) (symbol : String) (t : σ) :
    ((s.run index (.«def» symbol)).dialogue.play tools t).outcome =
      .ok (told (Report.locations symbol) ((s.project.definitions symbol).play tools t).outcome) :=
  (s.play_run index _ t).trans (s.play_printing_human tools hjson _ _ _ t)

theorem run_search_outcome (hjson : s.json = false) (query : String) (t : σ) :
    ((s.run index (.search query)).dialogue.play tools t).outcome =
      .ok (told (Report.symbolHits query) ((s.project.symbolHits query).play tools t).outcome) :=
  (s.play_run index _ t).trans (s.play_printing_human tools hjson _ _ _ t)

-- All front-ends show an occurrence at one place, whether its tag is on its line or the index is
-- old: the definitions, the hits of a search and the rows of a tree. What is printed of it gives
-- the path of that place and the number that the line had from the start.
theorem places_coincide (t : σ) :
    (∀ o, ∃ l, s.project.PointsTo o l) ∧
    (∀ symbol, Matched s.project.PointsTo
      ((s.project.definitionLines symbol).play tools t).outcome
      ((s.project.definitions symbol).play tools t).outcome) ∧
    (∀ query, Matched s.project.HitsAt ((s.project.search query).play tools t).outcome
      ((s.project.symbolHits query).play tools t).outcome) ∧
    (s.json = false →
      (∀ symbol os, ((s.project.definitionLines symbol).play tools t).outcome = .ok os →
        os ≠ [] → ∃ texts,
          ((s.run index (.«def» symbol)).dialogue.play tools t).outcome =
              .ok ⟨String.join texts, .ok ()⟩ ∧
            List.Forall₂ (s.project.Printed (fun _ => "") s.project.columnText) os texts) ∧
      ∀ query os, ((s.project.search query).play tools t).outcome = .ok os →
        os ≠ [] → ∃ texts,
          ((s.run index (.search query)).dialogue.play tools t).outcome =
              .ok ⟨String.join texts, .ok ()⟩ ∧
            List.Forall₂ (s.project.Printed (fun o => o.tag ++ "  ") fun _ => "\n") os texts) := by
  refine ⟨fun o => ⟨_, s.project.pointsTo_location o⟩,
    fun symbol => s.project.matched_definitions tools symbol t,
    fun query => s.project.matched_symbolHits_search tools query t, fun hjson => ⟨?_, ?_⟩⟩
  · intro symbol os hos hne
    refine ⟨os.map fun o => Report.location (s.project.location o), ?_, ?_⟩
    · rw [s.run_def_outcome tools index hjson, Project.definitions_outcome, hos]
      simp only [Except.map, told, Report.locations, List.isEmpty_map, List.isEmpty_iff, hne,
        if_false, List.map_map, Function.comp_def]
    · rw [List.forall₂_map_right_iff, List.forall₂_same]
      exact fun o _ => s.project.printed_location o
  · intro query os hos hne
    refine ⟨os.map fun o => Report.symbolHit (s.project.symbolHit o), ?_, ?_⟩
    · rw [s.run_search_outcome tools index hjson, Project.symbolHits_outcome, hos]
      simp only [Except.map, told, Report.symbolHits, List.isEmpty_map, List.isEmpty_iff, hne,
        if_false, List.map_map, Function.comp_def]
    · rw [List.forall₂_map_right_iff, List.forall₂_same]
      exact fun o _ => s.project.printed_symbolHit o

-- A project with a definition on the last line that can be counted, and one in a file outside of
-- it that no longer holds its tag.
def lastLine : Session := ⟨⟨"/ws", true⟩, {}, false⟩

def lastLineTools : Script :=
  [⟨⟨"global", ["-x", "main"]⟩,
    .ok "main 4294967295 src/main.c int main(void)\nmain 7 /usr/main.h int start(void);\n",
    none⟩]

theorem places_coincide_lastLine :
    let last : Occurrence :=
      ⟨"main", 4294967295, "src/main.c", "int main(void)", .definition, none, ""⟩
    let stale : Occurrence := ⟨"main", 7, "/usr/main.h", "int start(void);", .definition, none, ""⟩
    let lines := (lastLine.project.definitionLines "main").play Script.toolbox lastLineTools
    let printed :=
      (lastLine.run (.ok ()) (.«def» "main")).dialogue.play Script.toolbox lastLineTools
    lines.outcome = .ok [last, stale] ∧
      printed.outcome = .ok ⟨"/ws/src/main.c:4294967295:5\n/usr/main.h:7:1\n", .ok ()⟩ ∧
      ∃ texts, "/ws/src/main.c:4294967295:5\n/usr/main.h:7:1\n" = String.join texts ∧
        List.Forall₂ (lastLine.project.Printed (fun _ => "") lastLine.project.columnText)
          [last, stale] texts := by
  intro last stale lines printed
  have hlines : lines.outcome = .ok [last, stale] := by decide +kernel
  have hprinted : printed.outcome =
      .ok ⟨"/ws/src/main.c:4294967295:5\n/usr/main.h:7:1\n", .ok ()⟩ := rfl
  obtain ⟨-, -, -, hhuman⟩ := lastLine.places_coincide Script.toolbox (.ok ()) lastLineTools
  obtain ⟨texts, htexts, hall⟩ := (hhuman rfl).1 "main" [last, stale] hlines (List.cons_ne_nil _ _)
  refine ⟨hlines, hprinted, texts, ?_, hall⟩
  exact congrArg Outcome.stdout (Except.ok.inj (hprinted.symm.trans htexts))

end Session

end Concordance
