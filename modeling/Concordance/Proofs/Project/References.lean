import Concordance.Project
import Concordance.Proofs.Attribution.Fresh
import Concordance.Proofs.Tagging.Log

namespace Concordance

namespace Occurrence

theorem ofOutput_fresh {relation : Relation} {output : String} {o : Occurrence}
    (h : o ∈ ofOutput relation output) : o.Fresh ∧ o.relation = relation := by
  obtain ⟨line, -, hline⟩ := List.mem_filterMap.mp h
  unfold ofLine? at hline
  split at hline
  · cases hline
  · obtain ⟨n, -, rfl⟩ := Option.map_eq_some_iff.mp hline
    exact ⟨⟨rfl, rfl⟩, rfl⟩

-- What becomes of an occurrence that a query gave with this relation, by what the tagging
-- tool answered for its file.
inductive Tagged (log : TagLog) (relation : Relation) (o : Occurrence) : Occurrence → Prop
  | read {output : String} {o' : Occurrence} (hlog : (o.filename, .ok output) ∈ log)
      (h : o.Attributed (some (Declaration.ofOutput output)) o') : Tagged log relation o o'
  | unread {failure : ToolFailure} (hlog : (o.filename, .error failure) ∈ log)
      (hfresh : o.Fresh) (hrelation : o.relation = relation) : Tagged log relation o o

theorem assignIn_tagged {log : TagLog} {relation : Relation} {o : Occurrence}
    (hdistinct : log.Distinct) (hfile : o.filename ∈ log.map Prod.fst)
    (hfresh : o.Fresh ∧ o.relation = relation) :
    o.Tagged log relation (o.assignIn log.cache.tables) := by
  obtain ⟨⟨filename, reply⟩, hlog, hname⟩ := List.mem_map.mp hfile
  cases hname
  rw [TagLog.assignIn_cache_of_mem hdistinct hlog]
  cases reply with
  | ok output => exact .read hlog (assign_attributed (Declaration.ofOutput output) hfresh.1)
  | error failure => exact .unread hlog hfresh.1 hfresh.2

end Occurrence

theorem assignAll_tagged {log : TagLog} {relation : Relation} {output : String}
    (hdistinct : log.Distinct)
    (hfiles : ∀ o ∈ Occurrence.ofOutput relation output, o.filename ∈ log.map Prod.fst) :
    List.Forall₂ (Occurrence.Tagged log relation) (Occurrence.ofOutput relation output)
      (assignAll log.cache.tables (Occurrence.ofOutput relation output)) := by
  rw [assignAll, List.forall₂_map_right_iff, List.forall₂_same]
  intro o ho
  exact Occurrence.assignIn_tagged hdistinct (hfiles o ho) (Occurrence.ofOutput_fresh ho)

namespace Project

variable {σ : Type} (p : Project) (tools : Toolbox σ)

def call (q : IndexerQuery) : Invocation := ⟨p.config.indexer, q.args⟩

theorem play_query {q : IndexerQuery} {s s' : σ} {reply : Reply} (relation : Relation)
    (hrun : tools.run (p.call q) s = (reply, s')) :
    (p.query q relation).play tools s =
      ⟨reply.map (Occurrence.ofOutput relation), [p.call q], [], s'⟩ := by
  have hask := Dialogue.play_bind_done tools (Dialogue.ask (p.call q))
    (Occurrence.ofOutput relation) s
  rw [Dialogue.play_ask hrun] at hask
  exact hask

theorem exists_play_enrich (os : List Occurrence) (s : σ) :
    ∃ (log : TagLog) (s' : σ), log.map Prod.fst = (os.map Occurrence.filename).eraseDups ∧
      log.Distinct ∧ tools.Answers s (log.trace p.config.tagger) s' ∧
      (p.enrich os).play tools s =
        ⟨.ok (assignAll log.cache.tables os), (log.trace p.config.tagger).map Prod.fst,
          log.notices, s'⟩ := by
  obtain ⟨log, s', hfiles, hdistinct, hanswers, hplay⟩ :=
    exists_play_buildTables tools p.config.tagger (os.map Occurrence.filename) s
  refine ⟨log, s', hfiles, hdistinct, hanswers, ?_⟩
  have henrich := Dialogue.play_bind_done tools
    (buildTables p.config.tagger (os.map Occurrence.filename)) (fun tables => assignAll tables os) s
  rw [hplay] at henrich
  exact henrich

-- The second query of a symbol: its references when the first one found a definition, and
-- otherwise all lines with the symbol.
def secondQuery (symbol output : String) : IndexerQuery :=
  if Occurrence.ofOutput .definition output = [] then .symbols symbol else .references symbol

theorem followUp_ofOutput (symbol output : String) :
    followUp symbol (Occurrence.ofOutput .definition output) = secondQuery symbol output := by
  unfold followUp secondQuery
  simp only [List.isEmpty_iff]

-- How a reference query goes: what is asked, with the answers, what is warned of, and what
-- comes of it.
inductive Course (p : Project) (symbol : String) :
    List (Invocation × Reply) → List Notice → Except ToolFailure (List Occurrence) → Prop
  | definitionsFailed (failure : ToolFailure) :
      Course p symbol [(p.call (.definitions symbol), .error failure)] [] (.error failure)
  | usesFailed (output : String) (failure : ToolFailure) :
      Course p symbol
        [(p.call (.definitions symbol), .ok output),
          (p.call (secondQuery symbol output), .error failure)]
        [] (.error failure)
  | found {output uses : String} {log : TagLog} {definitions references : List Occurrence}
      (hfiles : log.map Prod.fst =
        ((Occurrence.ofOutput .definition output ++ Occurrence.ofOutput .referencedBy uses).map
          Occurrence.filename).eraseDups)
      (hdefinitions : List.Forall₂ (Occurrence.Tagged log .definition)
        (Occurrence.ofOutput .definition output) definitions)
      (hreferences : List.Forall₂ (Occurrence.Tagged log .referencedBy)
        (Occurrence.ofOutput .referencedBy uses) references) :
      Course p symbol
        ((p.call (.definitions symbol), .ok output) ::
          (p.call (secondQuery symbol output), .ok uses) :: log.trace p.config.tagger)
        log.notices (.ok (definitions ++ references))

variable {symbol : String}

theorem play_references_of_definitions_error {s s' : σ} {failure : ToolFailure}
    (hdefinitions : tools.run (p.call (.definitions symbol)) s = (.error failure, s')) :
    (p.references symbol).play tools s =
      ⟨.error failure, [p.call (.definitions symbol)], [], s'⟩ :=
  Dialogue.play_bind_error (p.play_query tools .definition hdefinitions) _

theorem play_references_of_uses_error {s middle s' : σ} {output : String} {failure : ToolFailure}
    (hdefinitions : tools.run (p.call (.definitions symbol)) s = (.ok output, middle))
    (huses : tools.run (p.call (secondQuery symbol output)) middle = (.error failure, s')) :
    (p.references symbol).play tools s =
      ⟨.error failure, [p.call (.definitions symbol), p.call (secondQuery symbol output)], [],
        s'⟩ := by
  have hfirst := p.play_query tools .definition hdefinitions
  have hsecond := p.play_query tools .referencedBy huses
  rw [← followUp_ofOutput] at hsecond ⊢
  have hrest := Dialogue.play_bind_error hsecond fun uses =>
    p.enrich (Occurrence.ofOutput .definition output ++ uses)
  refine (Dialogue.play_bind_ok hfirst _).trans ?_
  rw [Dialogue.bind_eq_bind, hrest]
  rfl

-- Once both queries succeed the whole one does, whatever becomes of the tagging.
theorem exists_play_references_found {s first second : σ} {output uses : String}
    (hdefinitions : tools.run (p.call (.definitions symbol)) s = (.ok output, first))
    (huses : tools.run (p.call (secondQuery symbol output)) first = (.ok uses, second)) :
    ∃ (log : TagLog) (s' : σ),
      let os := Occurrence.ofOutput .definition output ++ Occurrence.ofOutput .referencedBy uses
      log.map Prod.fst = (os.map Occurrence.filename).eraseDups ∧ log.Distinct ∧
        tools.Answers second (log.trace p.config.tagger) s' ∧
        (p.references symbol).play tools s =
          ⟨.ok (assignAll log.cache.tables os),
            p.call (.definitions symbol) :: p.call (secondQuery symbol output) ::
              (log.trace p.config.tagger).map Prod.fst,
            log.notices, s'⟩ := by
  have hfirst := p.play_query tools .definition hdefinitions
  have hsecond := p.play_query tools .referencedBy huses
  obtain ⟨log, s', hfiles, hdistinct, hanswers, hplay⟩ := p.exists_play_enrich tools
    (Occurrence.ofOutput .definition output ++ Occurrence.ofOutput .referencedBy uses) second
  refine ⟨log, s', hfiles, hdistinct, hanswers, ?_⟩
  rw [← followUp_ofOutput] at hsecond ⊢
  have hrest := Dialogue.play_bind_ok hsecond fun uses =>
    p.enrich (Occurrence.ofOutput .definition output ++ uses)
  rw [hplay] at hrest
  refine (Dialogue.play_bind_ok hfirst _).trans ?_
  rw [Dialogue.bind_eq_bind, hrest]
  rfl

-- A reference query runs the indexer for the definitions and then for the uses, stops at the
-- first failure of either, and then runs the tagging tool once for each file. No failure of
-- the tagging tool is one of the query; it only leaves the occurrences in that file as they are.
theorem references_course (symbol : String) (s : σ) :
    ∃ (asked : List (Invocation × Reply)) (notices : List Notice)
      (outcome : Except ToolFailure (List Occurrence)) (s' : σ),
      (p.references symbol).play tools s = ⟨outcome, asked.map Prod.fst, notices, s'⟩ ∧
        tools.Answers s asked s' ∧ Course p symbol asked notices outcome := by
  obtain ⟨reply, first, hdefinitions⟩ : ∃ reply first,
      tools.run (p.call (.definitions symbol)) s = (reply, first) := ⟨_, _, rfl⟩
  cases reply with
  | error failure =>
    exact ⟨_, _, _, _, p.play_references_of_definitions_error tools hdefinitions,
      .cons hdefinitions (.nil first), .definitionsFailed failure⟩
  | ok output =>
    obtain ⟨reply, second, huses⟩ : ∃ reply second,
        tools.run (p.call (secondQuery symbol output)) first = (reply, second) := ⟨_, _, rfl⟩
    cases reply with
    | error failure =>
      exact ⟨_, _, _, _, p.play_references_of_uses_error tools hdefinitions huses,
        .cons hdefinitions (.cons huses (.nil second)), .usesFailed output failure⟩
    | ok uses =>
      obtain ⟨log, s', hfiles, hdistinct, hanswers, hplay⟩ :=
        p.exists_play_references_found tools hdefinitions huses
      have hlogged {o : Occurrence} (ho : o ∈ Occurrence.ofOutput .definition output ++
          Occurrence.ofOutput .referencedBy uses) : o.filename ∈ log.map Prod.fst := by
        rw [hfiles, List.mem_eraseDups]
        exact List.mem_map_of_mem ho
      have hfirst := assignAll_tagged hdistinct fun o ho => hlogged (List.mem_append_left _ ho)
      have hsecond := assignAll_tagged hdistinct fun o ho => hlogged (List.mem_append_right _ ho)
      rw [assignAll, List.map_append] at hplay
      exact ⟨_, _, _, s', hplay, .cons hdefinitions (.cons huses hanswers),
        .found hfiles hfirst hsecond⟩

end Project

end Concordance
