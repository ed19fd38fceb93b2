import Concordance.Proofs.Declaration.Columns
import Concordance.Proofs.Occurrence.Grammar
import Concordance.Proofs.Project.References
import Concordance.Tool.Script

namespace Concordance

open Concordance.Text

theorem Declaration.words_of_mem_ofOutput {output : String} {d : Declaration}
    (h : d ∈ ofOutput output) : IsWord d.name.toList ∧ IsWord d.kind.toList := by
  obtain ⟨line, -, hline⟩ := List.mem_filterMap.mp h
  unfold ofLine? at hline
  split at hline
  · cases hline
  · next columns hcolumns =>
    obtain ⟨n, -, rfl⟩ := Option.map_eq_some_iff.mp hline
    have hwords := columns?_sound hcolumns
    simpa using hwords

namespace Occurrence

theorem read_of_mem_ofOutput {relation : Relation} {output : String} {o : Occurrence}
    (h : o ∈ ofOutput relation output) : o.Read := by
  obtain ⟨line, -, hline⟩ := List.mem_filterMap.mp h
  obtain ⟨w, hw⟩ := exists_spells_of_ofLine? hline
  obtain ⟨o', ho', hgives⟩ := hw.exists_ofLine? relation
  cases hline.symm.trans ho'
  exact hgives.read hw.fits

-- What holds of every occurrence in the answer to a query. The name of the declaration around
-- it and the kind of that declaration are known together or not at all.
structure Proper (o : Occurrence) : Prop where
  tag : IsWord o.tag.toList
  filename : IsWord o.filename.toList
  content : '\n' ∉ o.content.toList
  enclosing_iff : o.enclosing.isSome = true ↔ o.kind ≠ ""
  enclosing : ∀ name, o.enclosing = some name → IsWord name.toList
  kind : ∀ c ∈ o.kind.toList, isBlank c = false
  other : o.relation = .other → o.enclosing = none
  referencedBy : o.relation = .referencedBy → o.enclosing ≠ some o.tag
  relation : o.relation ≠ .symbol

variable {o : Occurrence}

theorem Read.proper (h : o.Read) (hother : o.relation ≠ .other) (hsymbol : o.relation ≠ .symbol) :
    o.Proper where
  tag := h.tag
  filename := h.filename
  content := h.content
  enclosing_iff := by simp [h.fresh.1, h.fresh.2]
  enclosing := by simp [h.fresh.1]
  kind := by simp [h.fresh.2]
  other hrelation := absurd hrelation hother
  referencedBy := by simp [h.fresh.1]
  relation := hsymbol

theorem proper_of_mem_definitions {output : String} (h : o ∈ ofOutput .definition output) :
    o.Proper ∧ o.relation = .definition := by
  obtain ⟨-, hrelation⟩ := ofOutput_fresh h
  refine ⟨?_, hrelation⟩
  apply (read_of_mem_ofOutput h).proper
  · simp [hrelation]
  · simp [hrelation]

theorem Read.proper_assign (h : o.Read) (hsymbol : o.relation ≠ .symbol)
    {ds : List Declaration} (hwords : ∀ d ∈ ds, IsWord d.name.toList ∧ IsWord d.kind.toList)
    (hother : o.relation ≠ .other) : (o.assign ds).Proper := by
  rcases Declaration.firstAround_or_outside ds o.line with ⟨d, hd⟩ | hnone
  · have hmem : d ∈ ds := by
      obtain ⟨before, after, rfl, -, -⟩ := hd
      exact List.mem_append_right before List.mem_cons_self
    obtain ⟨hname, hkind⟩ := hwords d hmem
    have hne : d.kind ≠ "" := by
      intro he
      exact hkind.ne_nil (by rw [he]; rfl)
    rw [assign_of_firstAround hd]
    constructor
    · exact h.tag
    · exact h.filename
    · exact h.content
    · simpa using hne
    · rintro name ⟨⟩
      exact hname
    · exact hkind.not_blank
    · intro hrelation
      dsimp only at hrelation
      split at hrelation
      · cases hrelation
      · exact absurd hrelation hother
    · intro hrelation htag
      have hnamed : d.name = o.tag := Option.some.inj htag
      dsimp only at hrelation
      rw [if_pos (Or.inr hnamed)] at hrelation
      cases hrelation
    · dsimp only
      split
      · exact Relation.noConfusion
      · exact hsymbol
  · rw [assign_of_outside hnone]
    constructor
    · exact h.tag
    · exact h.filename
    · exact h.content
    · simp [h.fresh.1, h.fresh.2]
    · simp [h.fresh.1]
    · simp [h.fresh.2]
    · exact fun _ => h.fresh.1
    · simp [h.fresh.1]
    · dsimp only
      split
      · exact Relation.noConfusion
      · exact Relation.noConfusion

theorem Read.proper_assignBy (h : o.Read) (hother : o.relation ≠ .other)
    (hsymbol : o.relation ≠ .symbol) (reply : Reply) : (o.assignBy reply).Proper := by
  cases reply with
  | ok output =>
    exact h.proper_assign hsymbol (fun d hd => Declaration.words_of_mem_ofOutput hd) hother
  | error failure => exact h.proper hother hsymbol

theorem relation_assignBy_of_definition (reply : Reply) (h : o.relation = .definition) :
    (o.assignBy reply).relation = .definition := by
  cases reply with
  | ok output => exact relation_assign_of_definition (Declaration.ofOutput output) h
  | error failure => exact h

end Occurrence

namespace Project

variable {σ : Type} (p : Project) {tools : Toolbox σ} {s : σ} {os : List Occurrence}

theorem exists_output_of_query {q : IndexerQuery} {relation : Relation}
    (h : ((p.query q relation).play tools s).outcome = .ok os) :
    ∃ output, os = Occurrence.ofOutput relation output := by
  obtain ⟨reply, s', hrun⟩ : ∃ reply s', tools.run (p.call q) s = (reply, s') := ⟨_, _, rfl⟩
  rw [p.play_query tools relation hrun] at h
  cases reply with
  | error failure => cases h
  | ok output =>
    cases h
    exact ⟨output, rfl⟩

-- Whatever a pass over a batch returns comes from an occurrence of the batch and an answer of
-- the tagging tool.
theorem exists_assignBy_of_enrich {done : List Occurrence} {o' : Occurrence}
    (h : ((p.enrich os).play tools s).outcome = .ok done) (ho' : o' ∈ done) :
    ∃ o ∈ os, ∃ reply, o' = o.assignBy reply := by
  obtain ⟨log, s', hfiles, hdistinct, -, hplay⟩ := p.exists_play_enrich tools os s
  rw [hplay] at h
  cases h
  obtain ⟨o, ho, rfl⟩ := List.mem_map.mp ho'
  obtain ⟨reply, hmem⟩ := TagLog.exists_reply_of_mem hfiles ho
  exact ⟨o, ho, reply, TagLog.assignIn_cache_of_mem hdistinct hmem⟩

theorem proper_of_enrich {done : List Occurrence} {o' : Occurrence}
    (hread : ∀ o ∈ os, o.Read)
    (hrelation : ∀ o ∈ os, o.relation = .definition ∨ o.relation = .referencedBy)
    (h : ((p.enrich os).play tools s).outcome = .ok done) (ho' : o' ∈ done) : o'.Proper := by
  obtain ⟨o, ho, reply, rfl⟩ := p.exists_assignBy_of_enrich h ho'
  apply (hread o ho).proper_assignBy
  · rcases hrelation o ho with hr | hr <;> simp [hr]
  · rcases hrelation o ho with hr | hr <;> simp [hr]

-- A pass over definitions returns definitions.
theorem definition_of_enrich {output : String} {done : List Occurrence} {o' : Occurrence}
    (h : ((p.enrich (Occurrence.ofOutput .definition output)).play tools s).outcome = .ok done)
    (ho' : o' ∈ done) : o'.Proper ∧ o'.relation = .definition := by
  have hrelation : ∀ o ∈ Occurrence.ofOutput .definition output, o.relation = .definition :=
    fun o ho => (Occurrence.ofOutput_fresh ho).2
  constructor
  · apply p.proper_of_enrich _ _ h ho'
    · exact fun o ho => Occurrence.read_of_mem_ofOutput ho
    · exact fun o ho => Or.inl (hrelation o ho)
  · obtain ⟨o, ho, reply, rfl⟩ := p.exists_assignBy_of_enrich h ho'
    exact Occurrence.relation_assignBy_of_definition reply (hrelation o ho)

theorem definition_of_definitionLines {symbol : String}
    (h : ((p.definitionLines symbol).play tools s).outcome = .ok os) :
    ∀ o ∈ os, o.Proper ∧ o.relation = .definition := by
  intro o ho
  obtain ⟨output, rfl⟩ := p.exists_output_of_query h
  exact Occurrence.proper_of_mem_definitions ho

theorem proper_of_references {symbol : String}
    (h : ((p.references symbol).play tools s).outcome = .ok os) : ∀ o ∈ os, o.Proper := by
  intro o ho
  obtain ⟨definitions, hdefinitions, h⟩ := Dialogue.exists_of_play_bind_ok h
  obtain ⟨uses, huses, h⟩ := Dialogue.exists_of_play_bind_ok h
  obtain ⟨output, rfl⟩ := p.exists_output_of_query hdefinitions
  obtain ⟨output', rfl⟩ := p.exists_output_of_query huses
  apply p.proper_of_enrich _ _ h ho
  · intro o ho
    rcases List.mem_append.mp ho with hd | hu
    · exact Occurrence.read_of_mem_ofOutput hd
    · exact Occurrence.read_of_mem_ofOutput hu
  · intro o ho
    rcases List.mem_append.mp ho with hd | hu
    · exact Or.inl (Occurrence.ofOutput_fresh hd).2
    · exact Or.inr (Occurrence.ofOutput_fresh hu).2

theorem definition_of_fileSymbols {filename : String}
    (h : ((p.fileSymbols filename).play tools s).outcome = .ok os) :
    ∀ o ∈ os, o.Proper ∧ o.relation = .definition := by
  intro o ho
  obtain ⟨found, hfound, h⟩ := Dialogue.exists_of_play_bind_ok h
  obtain ⟨output, rfl⟩ := p.exists_output_of_query hfound
  exact p.definition_of_enrich h ho

theorem definition_of_search {query : String}
    (h : ((p.search query).play tools s).outcome = .ok os) :
    ∀ o ∈ os, o.Proper ∧ o.relation = .definition := by
  intro o ho
  unfold search at h
  split at h
  · cases h
    cases ho
  · obtain ⟨found, hfound, h⟩ := Dialogue.exists_of_play_bind_ok h
    obtain ⟨output, rfl⟩ := p.exists_output_of_query hfound
    split at h
    · exact p.definition_of_enrich h ho
    · cases h
      exact Occurrence.proper_of_mem_definitions ho

-- Whatever the tools print, every record in the answer to a query is proper, and those that
-- are listed by their definitions stay definitions.
theorem records_proper (tools : Toolbox σ) (s : σ) (os : List Occurrence) :
    (∀ symbol, ((p.references symbol).play tools s).outcome = .ok os → ∀ o ∈ os, o.Proper) ∧
    (∀ filename, ((p.fileSymbols filename).play tools s).outcome = .ok os →
      ∀ o ∈ os, o.Proper ∧ o.relation = .definition) ∧
    ∀ query, ((p.search query).play tools s).outcome = .ok os →
      ∀ o ∈ os, o.Proper ∧ o.relation = .definition := by
  refine ⟨fun symbol h => ?_, fun filename h => ?_, fun query h => ?_⟩
  · exact p.proper_of_references h
  · exact p.definition_of_fileSymbols h
  · exact p.definition_of_search h

-- A member that is used in a function, and outside of every declaration.
def memberScript : Script :=
  [⟨⟨"global", ["-x", "x"]⟩, .ok "x 2 point.h   int x;\nno line\n", none⟩,
    ⟨⟨"global", ["-rx", "x"]⟩, .ok "x 9 main.c   p.x = 0;\nx 20 main.c #define FIRST x\n", none⟩,
    ⟨⟨"global", ["-xf", "main.c"]⟩, .ok "main 8 main.c int main(void)\n", none⟩,
    ⟨⟨"global", ["-ix", "m.*a"]⟩, .ok "main 8 main.c int main(void)\n", none⟩,
    ⟨⟨"ctags", taggingArgs "point.h"⟩, .error (.exited "ctags" (some 1) ""), none⟩,
    ⟨⟨"ctags", taggingArgs "main.c"⟩,
      .ok "main\tmain.c\t/^int main(void)$/;\"\tfunction\tline:8\tend:12\n", none⟩]

def memberRecords : List Occurrence :=
  [⟨"x", 2, "point.h", "  int x;", .definition, none, ""⟩,
    ⟨"x", 9, "main.c", "  p.x = 0;", .referencedBy, some "main", "function"⟩,
    ⟨"x", 20, "main.c", "#define FIRST x", .other, none, ""⟩]

def mainRecords : List Occurrence :=
  [⟨"main", 8, "main.c", "int main(void)", .definition, some "main", "function"⟩]

theorem records_proper_member :
    let p : Project := ⟨{}, "/ws"⟩
    (((p.references "x").play Script.toolbox memberScript).outcome = .ok memberRecords ∧
      ∀ o ∈ memberRecords, o.Proper) ∧
    (((p.fileSymbols "main.c").play Script.toolbox memberScript).outcome = .ok mainRecords ∧
      ((p.search "m-a").play Script.toolbox memberScript).outcome = .ok mainRecords ∧
      ∀ o ∈ mainRecords, o.Proper ∧ o.relation = .definition) := by
  intro p
  have hreferences :
      ((p.references "x").play Script.toolbox memberScript).outcome = .ok memberRecords := by
    decide +kernel
  have hsymbols :
      ((p.fileSymbols "main.c").play Script.toolbox memberScript).outcome = .ok mainRecords := by
    decide +kernel
  have hsearch :
      ((p.search "m-a").play Script.toolbox memberScript).outcome = .ok mainRecords := by
    decide +kernel
  obtain ⟨hproper, -, -⟩ := records_proper p Script.toolbox memberScript memberRecords
  obtain ⟨-, hlisted, -⟩ := records_proper p Script.toolbox memberScript mainRecords
  exact ⟨⟨hreferences, hproper "x" hreferences⟩, hsymbols, hsearch, hlisted "main.c" hsymbols⟩

end Project

end Concordance
