import Concordance.Project
import Concordance.Proofs.Declaration.SourceLine
import Concordance.Proofs.Tool.Dialogue
import Concordance.Tool.Script

namespace Concordance

open Concordance.Text

namespace Declaration.SourceLine

-- The entry for the line when its name is found at a column of the excerpt.
def entryAt (d : SourceLine) (column : Nat) : OutlineEntry :=
  let start := UInt32.ofNat column
  { name := d.name
    detail := String.ofList (escape d.text.toList)
    category := Category.ofKind? d.kind
    kind := d.kind
    range := ⟨⟨zeroBased d.line, start⟩,
      ⟨zeroBased d.line, start + UInt32.ofNat d.name.toList.length⟩⟩ }

-- What an outline promises of a declaring line: the text as it stands in the file, and the
-- column at which the name first stands in it.
def Shown (d : SourceLine) (outcome : Except ToolFailure (List OutlineEntry)) : Prop :=
  ∃ entry, outcome = .ok [entry] ∧ entry.detail = d.text ∧
    FirstAt d.name.toList d.text.toList entry.range.start.character.toNat

end Declaration.SourceLine

namespace Project

open Declaration

variable {σ : Type} (p : Project) {d : SourceLine} {tools : Toolbox σ} {s s' : σ} {filename : String}

theorem outcome_outline {output : String}
    (hrun : tools.run ⟨p.config.tagger, taggingArgs filename⟩ s = (.ok output, s')) :
    ((p.outline filename).play tools s).outcome =
      .ok (((ofOutput output).filter fun d => !d.isMember).map outlineEntry) := by
  have hask := Dialogue.play_ask hrun
  unfold outline
  rw [Dialogue.bind_eq_bind, Dialogue.play_bind_ok hask]
  rfl

theorem exists_of_outline_eq {entry : OutlineEntry}
    (hrun : tools.run ⟨p.config.tagger, taggingArgs filename⟩ s = (.ok d.output, s'))
    (h : ((p.outline filename).play tools s).outcome = .ok [entry]) :
    ∃ declaration, ofLine? (String.ofList d.written) = some declaration ∧
      entry = declaration.outlineEntry := by
  rw [p.outcome_outline hrun, SourceLine.ofOutput_output] at h
  have hentry : entry ∈ [entry] := List.mem_singleton_self entry
  rw [← Except.ok.inj h] at hentry
  obtain ⟨declaration, hmem, rfl⟩ := List.mem_map.mp hentry
  exact ⟨declaration, Option.mem_toList.mp (List.mem_of_mem_filter hmem), rfl⟩

theorem outline_of_unmarked
    (hrun : tools.run ⟨p.config.tagger, taggingArgs filename⟩ s = (.ok d.output, s'))
    (hmark : ¬ endMark <:+: d.text.toList) (hname : Plain d.name.toList) {i : Nat}
    (hi : FirstAt d.name.toList d.text.toList i) :
    ((p.outline filename).play tools s).outcome =
      .ok [d.entryAt (i + escapedBefore d.text.toList i)] := by
  obtain ⟨declaration, hread, hmember, hname', hkind, hline, htext⟩ :=
    SourceLine.exists_ofLine?_of_unmarked hmark
  have hcolumn : column? (String.ofList (escape d.text.toList)) d.name =
      some (UInt32.ofNat (i + escapedBefore d.text.toList i)) := by
    rw [column?, String.toList_ofList, find?_escape hname d.isWord_name.ne_nil,
      find?_eq_some_iff.mpr hi, Option.map_some, Option.map_some]
  have hentry : declaration.outlineEntry =
      d.entryAt (i + escapedBefore d.text.toList i) := by
    simp only [outlineEntry, TextRange.locate, SourceLine.entryAt, hname', hkind, hline, htext,
      hcolumn, Option.getD_some]
  rw [p.outcome_outline hrun, SourceLine.ofOutput_output, hread, ← hentry]
  simp [hmember]

-- An outline shows a declaring line as it stands in the file exactly when the line holds
-- nothing that is escaped, up to the largest column. In any other line that holds no mark the
-- text is shown as it is escaped, and each slash or backslash before the name moves the column.
theorem outline_shown_iff (d : SourceLine) (tools : Toolbox σ) (s s' : σ) (filename : String)
    (hrun : tools.run ⟨p.config.tagger, taggingArgs filename⟩ s = (.ok d.output, s')) :
    (d.Shown ((p.outline filename).play tools s).outcome ↔
      Plain d.text.toList ∧ ∃ i < UInt32.size, FirstAt d.name.toList d.text.toList i) ∧
    (¬ endMark <:+: d.text.toList → Plain d.name.toList →
      ∃ i, FirstAt d.name.toList d.text.toList i ∧
        ((p.outline filename).play tools s).outcome =
          .ok [d.entryAt (i + escapedBefore d.text.toList i)]) := by
  obtain ⟨i, hi⟩ := exists_firstAt d.name_in_text
  refine ⟨⟨?_, ?_⟩, fun hmark hname => ⟨i, hi, p.outline_of_unmarked hrun hmark hname hi⟩⟩
  · rintro ⟨entry, houtcome, hdetail, hfirst⟩
    obtain ⟨declaration, hread, rfl⟩ := p.exists_of_outline_eq hrun houtcome
    refine ⟨SourceLine.plain_of_ofLine? hread hdetail, _, ?_, hfirst⟩
    exact UInt32.toNat_lt_size _
  · rintro ⟨hplain, i, hsize, hi⟩
    have hname : Plain d.name.toList := hplain.of_part d.name_in_text
    have houtcome := p.outline_of_unmarked hrun hplain.unmarked hname hi
    rw [hplain.escapedBefore_eq_zero i, Nat.add_zero] at houtcome
    refine ⟨_, houtcome, ?_, ?_⟩
    · rw [SourceLine.entryAt, escape_of_plain hplain, String.ofList_toList]
    · have hcolumn : (UInt32.ofNat i).toNat = i := UInt32.toNat_ofNat_of_lt' hsize
      simpa only [SourceLine.entryAt, hcolumn] using hi

-- A comment with its two slashes stands before the name.
def commentedWidth : SourceLine where
  name := "width"
  path := "a.c"
  text := "/* cells */ int width;"
  kind := "variable"
  line := 1
  further := []
  isWord_name := by decide
  name_in_text := ⟨"/* cells */ int ".toList, ";".toList, by decide⟩
  path_ne_nil := by decide
  tab_not_mem_path := by decide
  newline_not_mem_path := by decide
  newline_not_mem_text := by decide
  isWord_kind := by decide
  furtherField := by simp

def commentedScript : Script :=
  [⟨⟨"ctags", taggingArgs "a.c"⟩, .ok commentedWidth.output, none⟩]

theorem outline_shown_iff_commentedWidth :
    let p : Project := ⟨{}, "/ws"⟩
    ¬ commentedWidth.Shown ((p.outline "a.c").play Script.toolbox commentedScript).outcome ∧
      ((p.outline "a.c").play Script.toolbox commentedScript).outcome =
        .ok [commentedWidth.entryAt 18] := by
  intro p
  have hrun : Script.toolbox.run ⟨p.config.tagger, taggingArgs "a.c"⟩ commentedScript =
      (.ok commentedWidth.output, commentedScript) := rfl
  obtain ⟨hshown, hentry⟩ :=
    outline_shown_iff p commentedWidth Script.toolbox commentedScript commentedScript "a.c" hrun
  have hfirst : FirstAt commentedWidth.name.toList commentedWidth.text.toList 16 :=
    find?_eq_some_iff.mp (by decide)
  obtain ⟨i, hi, houtcome⟩ := hentry (by decide) (by decide)
  rw [hi.unique hfirst] at houtcome
  refine ⟨fun h => ?_, houtcome⟩
  exact absurd (hshown.mp h).1 (by decide)

theorem commentedWidth_not_shown :
    ¬ ∀ (p : Project) (d : SourceLine) (s s' : Script) (filename : String),
      Script.toolbox.run ⟨p.config.tagger, taggingArgs filename⟩ s = (.ok d.output, s') →
        d.Shown ((p.outline filename).play Script.toolbox s).outcome := by
  intro h
  obtain ⟨entry, houtcome, hdetail, -⟩ :=
    h ⟨{}, "/ws"⟩ commentedWidth commentedScript commentedScript "a.c" rfl
  have hshown : (((⟨{}, "/ws"⟩ : Project).outline "a.c").play Script.toolbox
      commentedScript).outcome = .ok [commentedWidth.entryAt 18] := by
    decide +kernel
  rw [hshown] at houtcome
  cases houtcome
  revert hdetail
  decide

end Project

end Concordance
