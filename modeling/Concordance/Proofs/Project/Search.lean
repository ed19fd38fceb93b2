import Concordance.Proofs.Project.Batches
import Concordance.Proofs.Project.Records

namespace Concordance

-- The same hit, whatever is said of the declaration around it.
structure Occurrence.SameHit (o o' : Occurrence) : Prop where
  tag : o.tag = o'.tag
  line : o.line = o'.line
  filename : o.filename = o'.filename
  content : o.content = o'.content
  relation : o.relation = o'.relation

structure SymbolHit.SameHit (hit hit' : SymbolHit) : Prop where
  name : hit.name = hit'.name
  container : hit.container = hit'.container
  path : hit.path = hit'.path
  position : hit.position = hit'.position

namespace Occurrence

variable {o o' o'' : Occurrence}

theorem SameHit.refl (o : Occurrence) : o.SameHit o := ⟨rfl, rfl, rfl, rfl, rfl⟩

theorem SameHit.euclid (h : o.SameHit o') (h' : o.SameHit o'') : o'.SameHit o'' :=
  ⟨h.tag.symm.trans h'.tag, h.line.symm.trans h'.line, h.filename.symm.trans h'.filename,
    h.content.symm.trans h'.content, h.relation.symm.trans h'.relation⟩

-- A definition stays one, and only what is said of the declaration around it changes.
theorem Attributed.sameHit {table : Option (List Declaration)} (h : o.Attributed table o')
    (hdefinition : o.relation = .definition) : o.SameHit o' := by
  cases h with
  | untabled => exact .refl o
  | inside hd =>
    refine ⟨rfl, rfl, rfl, rfl, ?_⟩
    rw [if_pos (Or.inl hdefinition), hdefinition]
  | outside hnone =>
    refine ⟨rfl, rfl, rfl, rfl, ?_⟩
    rw [if_pos hdefinition, hdefinition]

theorem Tagged.sameHit {log : TagLog} {relation : Relation} (h : o.Tagged log relation o')
    (hdefinition : o.relation = .definition) : o.SameHit o' := by
  cases h with
  | read hlog hattributed => exact hattributed.sameHit hdefinition
  | unread hlog hfresh hrelation => exact .refl o

theorem forall₂_sameHit_euclid {os first second : List Occurrence}
    (hfirst : List.Forall₂ SameHit os first) (hsecond : List.Forall₂ SameHit os second) :
    List.Forall₂ SameHit first second := by
  induction hfirst generalizing second with
  | nil =>
    cases hsecond
    exact .nil
  | cons ho _ ih =>
    cases hsecond with
    | cons ho' hrest => exact .cons (ho.euclid ho') (ih hrest)

end Occurrence

-- Two answers with the same failure or with results that belong together one by one.
inductive Matched {α β : Type} (R : α → β → Prop) :
    Except ToolFailure (List α) → Except ToolFailure (List β) → Prop
  | failed (failure : ToolFailure) : Matched R (.error failure) (.error failure)
  | found {xs : List α} {ys : List β} (h : List.Forall₂ R xs ys) : Matched R (.ok xs) (.ok ys)

-- What is made of each part of an answer belongs to that part.
theorem Matched.map {α β : Type} {R : α → β → Prop} {f : α → β} (h : ∀ x, R x (f x))
    (answer : Except ToolFailure (List α)) : Matched R answer (answer.map (List.map f)) := by
  cases answer with
  | error failure => exact .failed failure
  | ok xs =>
    refine .found ?_
    rw [List.forall₂_map_right_iff, List.forall₂_same]
    exact fun x _ => h x

-- Two answers that both match a third one match each other.
theorem Matched.euclid {first second third : Except ToolFailure (List Occurrence)}
    (h : Matched Occurrence.SameHit third first) (h' : Matched Occurrence.SameHit third second) :
    Matched Occurrence.SameHit first second := by
  cases h with
  | failed failure =>
    cases h'
    exact .failed failure
  | found hos =>
    cases h' with
    | found hos' => exact .found (Occurrence.forall₂_sameHit_euclid hos hos')

namespace Project

variable {σ : Type} (p : Project)

-- The project with another limit of hits up to which a search looks up declarations.
def withLimit (limit : Nat) : Project :=
  { p with config := { p.config with fuzzyEnrichLimit := limit } }

-- How a search goes: what is asked, with the answers, what is warned of, and what comes of it.
inductive SearchCourse (p : Project) (query : String) :
    List (Invocation × Reply) → List Notice → Except ToolFailure (List Occurrence) → Prop
  | refused (hpattern : Pattern.ofQuery? query p.config.fuzzyMinQuery = none) :
      SearchCourse p query [] [] (.ok [])
  | failed {pattern : String} (failure : ToolFailure)
      (hpattern : Pattern.ofQuery? query p.config.fuzzyMinQuery = some pattern) :
      SearchCourse p query [(p.call (.fuzzy pattern), .error failure)] [] (.error failure)
  | plain {pattern output : String} {os : List Occurrence}
      (hpattern : Pattern.ofQuery? query p.config.fuzzyMinQuery = some pattern)
      (hos : os = Occurrence.ofOutput .definition output)
      (hlimit : p.config.fuzzyEnrichLimit ≤ os.length)
      (hfresh : ∀ o ∈ os, o.enclosing = none ∧ o.kind = "") :
      SearchCourse p query [(p.call (.fuzzy pattern), .ok output)] [] (.ok os)
  | enriched {pattern output : String} {log : TagLog} {os done : List Occurrence}
      (hpattern : Pattern.ofQuery? query p.config.fuzzyMinQuery = some pattern)
      (hos : os = Occurrence.ofOutput .definition output)
      (hlimit : os.length < p.config.fuzzyEnrichLimit)
      (hfiles : log.map Prod.fst = (os.map Occurrence.filename).eraseDups)
      (hdone : List.Forall₂ (Occurrence.Tagged log .definition) os done) :
      SearchCourse p query
        ((p.call (.fuzzy pattern), .ok output) :: log.trace p.config.tagger) log.notices (.ok done)

variable {query pattern output : String}

theorem search_refused (hpattern : Pattern.ofQuery? query p.config.fuzzyMinQuery = none) :
    p.search query = .done [] := by
  unfold search
  rw [hpattern]
  rfl

theorem search_eq (hpattern : Pattern.ofQuery? query p.config.fuzzyMinQuery = some pattern) :
    p.search query = (p.query (.fuzzy pattern) .definition).bind fun os =>
      if os.length < p.config.fuzzyEnrichLimit then p.enrich os else .done os := by
  unfold search
  rw [hpattern]
  rfl

variable (tools : Toolbox σ)

theorem search_course (query : String) (s : σ) :
    ∃ (asked : List (Invocation × Reply)) (notices : List Notice)
      (outcome : Except ToolFailure (List Occurrence)) (s' : σ),
      (p.search query).play tools s = ⟨outcome, asked.map Prod.fst, notices, s'⟩ ∧
        tools.Answers s asked s' ∧ SearchCourse p query asked notices outcome := by
  cases hpattern : Pattern.ofQuery? query p.config.fuzzyMinQuery with
  | none =>
    rw [p.search_refused hpattern]
    exact ⟨[], [], .ok [], s, rfl, .nil s, .refused hpattern⟩
  | some pattern =>
    rw [p.search_eq hpattern]
    obtain ⟨reply, middle, hrun⟩ : ∃ reply middle,
        tools.run (p.call (.fuzzy pattern)) s = (reply, middle) := ⟨_, _, rfl⟩
    have hquery := p.play_query tools .definition hrun
    cases reply with
    | error failure =>
      exact ⟨_, _, _, _, Dialogue.play_bind_error hquery _, .cons hrun (.nil middle),
        .failed failure hpattern⟩
    | ok output =>
      rw [Dialogue.play_bind_ok hquery]
      by_cases hlimit :
          (Occurrence.ofOutput .definition output).length < p.config.fuzzyEnrichLimit
      · obtain ⟨log, s', hfiles, hdistinct, hanswers, hplay⟩ :=
          p.exists_play_enrich tools (Occurrence.ofOutput .definition output) middle
        have hlogged : ∀ o ∈ Occurrence.ofOutput .definition output,
            o.filename ∈ log.map Prod.fst := by
          intro o ho
          rw [hfiles, List.mem_eraseDups]
          exact List.mem_map_of_mem ho
        have hdone := assignAll_tagged hdistinct hlogged
        rw [if_pos hlimit, hplay]
        exact ⟨_, _, _, s', rfl, .cons hrun hanswers,
          .enriched hpattern rfl hlimit hfiles hdone⟩
      · rw [if_neg hlimit]
        exact ⟨_, _, _, middle, rfl, .cons hrun (.nil middle),
          .plain hpattern rfl (Nat.le_of_not_lt hlimit)
            fun o ho => (Occurrence.ofOutput_fresh ho).1⟩

-- What a search gives is what its query gave, hit by hit.
theorem SearchCourse.matched {p : Project} {asked : List (Invocation × Reply)}
    {notices : List Notice} {outcome : Except ToolFailure (List Occurrence)}
    (h : SearchCourse p query asked notices outcome)
    (hpattern : Pattern.ofQuery? query p.config.fuzzyMinQuery = some pattern) :
    ∃ reply, (p.call (.fuzzy pattern), reply) ∈ asked ∧
      Matched Occurrence.SameHit (reply.map (Occurrence.ofOutput .definition)) outcome := by
  cases h with
  | refused hnone => cases hnone.symm.trans hpattern
  | failed failure hsome =>
    cases hsome.symm.trans hpattern
    exact ⟨.error failure, List.mem_cons_self, .failed failure⟩
  | @plain _ output os hsome hos hlimit hfresh =>
    cases hsome.symm.trans hpattern
    refine ⟨.ok output, List.mem_cons_self, .found ?_⟩
    rw [← hos, List.forall₂_same]
    exact fun o _ => .refl o
  | @enriched _ output log os done hsome hos hlimit hfiles hdone =>
    cases hsome.symm.trans hpattern
    refine ⟨.ok output, List.mem_cons_self, .found ?_⟩
    rw [← hos]
    have hdefinition : ∀ o ∈ os, o.relation = .definition := by
      rw [hos]
      exact fun o ho => (Occurrence.ofOutput_fresh ho).2
    have hboth := (List.forall₂_and_left os done).mpr ⟨hdefinition, hdone⟩
    exact hboth.imp fun o o' h => h.2.sameHit h.1

-- Tools that answer by the invocation alone give all courses of a search the same hits.
theorem search_matched (p p' : Project) (h : tools.Stateless) (query : String)
    (hindexer : p.config.indexer = p'.config.indexer)
    (hleast : p.config.fuzzyMinQuery = p'.config.fuzzyMinQuery) (s t : σ) :
    Matched Occurrence.SameHit ((p.search query).play tools s).outcome
      ((p'.search query).play tools t).outcome := by
  cases hpattern : Pattern.ofQuery? query p.config.fuzzyMinQuery with
  | none =>
    rw [p.search_refused hpattern, p'.search_refused (hleast ▸ hpattern)]
    exact .found .nil
  | some pattern =>
    obtain ⟨asked, notices, outcome, s', hplay, hanswers, hcourse⟩ := p.search_course tools query s
    obtain ⟨asked', notices', outcome', t', hplay', hanswers', hcourse'⟩ :=
      p'.search_course tools query t
    obtain ⟨reply, hasked, hmatched⟩ := hcourse.matched hpattern
    obtain ⟨reply', hasked', hmatched'⟩ := hcourse'.matched (hleast ▸ hpattern)
    have hcall : p'.call (.fuzzy pattern) = p.call (.fuzzy pattern) := by
      rw [call, call, hindexer]
    have hreply : reply' = reply := by
      rw [← hanswers.run_eq h hasked s, ← hanswers'.run_eq h hasked' s, hcall]
    rw [hreply] at hmatched'
    rw [hplay, hplay']
    exact hmatched.euclid hmatched'

theorem symbolHits_outcome (query : String) (s : σ) :
    ((p.symbolHits query).play tools s).outcome =
      ((p.search query).play tools s).outcome.map (List.map p.symbolHit) :=
  congrArg Transcript.outcome
    (Dialogue.play_bind_done tools (p.search query) (List.map p.symbolHit) s)

theorem sameHit_symbolHit {p p' : Project} (hroot : p.root = p'.root) {o o' : Occurrence}
    (h : o.SameHit o') : (p.symbolHit o).SameHit (p'.symbolHit o') where
  name := h.tag
  container := by simp only [symbolHit, h.line]
  path := by simp only [symbolHit, resolve, hroot, h.filename]
  position := by simp only [symbolHit, h.line, h.content, h.tag]

theorem matched_symbolHits {p p' : Project} (hroot : p.root = p'.root)
    {outcome outcome' : Except ToolFailure (List Occurrence)}
    (h : Matched Occurrence.SameHit outcome outcome') :
    Matched SymbolHit.SameHit (outcome.map (List.map p.symbolHit))
      (outcome'.map (List.map p'.symbolHit)) := by
  cases h with
  | failed failure => exact .failed failure
  | found hos =>
    refine .found ?_
    rw [List.forall₂_map_left_iff, List.forall₂_map_right_iff]
    exact hos.imp fun o o' h => sameHit_symbolHit hroot h

-- The limit decides only what is known of the declarations around the hits. Whatever it is, a
-- search gives the same hits in the same order; with so many of them the tagging tool is left
-- alone and nothing is known, and with fewer each file is asked for once and each hit gets
-- its due.
theorem search_limited (p : Project) {tools : Toolbox σ} (h : tools.Stateless) (query : String) :
    (∀ (limit limit' : Nat) (s t : σ),
      Matched Occurrence.SameHit (((p.withLimit limit).search query).play tools s).outcome
          (((p.withLimit limit').search query).play tools t).outcome ∧
        Matched SymbolHit.SameHit (((p.withLimit limit).symbolHits query).play tools s).outcome
          (((p.withLimit limit').symbolHits query).play tools t).outcome) ∧
    ∀ (limit : Nat) (s : σ), ∃ asked notices outcome s',
      ((p.withLimit limit).search query).play tools s =
          ⟨outcome, asked.map Prod.fst, notices, s'⟩ ∧
        tools.Answers s asked s' ∧ SearchCourse (p.withLimit limit) query asked notices outcome := by
  refine ⟨fun limit limit' s t => ?_, fun limit s => (p.withLimit limit).search_course tools query s⟩
  have hsearch : Matched Occurrence.SameHit
      (((p.withLimit limit).search query).play tools s).outcome
      (((p.withLimit limit').search query).play tools t).outcome :=
    search_matched tools (p.withLimit limit) (p.withLimit limit') h query rfl rfl s t
  refine ⟨hsearch, ?_⟩
  rw [symbolHits_outcome, symbolHits_outcome]
  exact matched_symbolHits rfl hsearch

-- Two hits, one of them in a file on which the tagging tool fails.
def twoHits : Toolbox Unit where
  run call s :=
    if call.program = "global" then
      (.ok "main 1 main.c int main(void) \x7b\nmin 8 lost.c #define min\n", s)
    else oneFile.run call s
  list := oneFile.list

def bareHits : List Occurrence :=
  [⟨"main", 1, "main.c", "int main(void) \x7b", .definition, none, ""⟩,
    ⟨"min", 8, "lost.c", "#define min", .definition, none, ""⟩]

def taggedHits : List Occurrence :=
  [⟨"main", 1, "main.c", "int main(void) \x7b", .definition, some "main", "function"⟩,
    ⟨"min", 8, "lost.c", "#define min", .definition, none, ""⟩]

theorem search_limited_twoHits :
    let p : Project := ⟨{}, "/ws"⟩
    let atLimit := ((p.withLimit 2).search "m-n").play twoHits ()
    let below := ((p.withLimit 3).search "m-n").play twoHits ()
    twoHits.Stateless ∧ atLimit.outcome = .ok bareHits ∧ below.outcome = .ok taggedHits ∧
      atLimit.calls = [⟨"global", ["-ix", "m.*n"]⟩] ∧
      below.calls = [⟨"global", ["-ix", "m.*n"]⟩, ⟨"ctags", taggingArgs "main.c"⟩,
        ⟨"ctags", taggingArgs "lost.c"⟩] ∧
      List.Forall₂ Occurrence.SameHit bareHits taggedHits := by
  intro p atLimit below
  have hstateless : twoHits.Stateless := fun _ _ _ => rfl
  have hbare : atLimit.outcome = .ok bareHits := by decide +kernel
  have htagged : below.outcome = .ok taggedHits := by decide +kernel
  obtain ⟨hmatched, -⟩ := p.search_limited hstateless "m-n"
  have hboth : Matched Occurrence.SameHit atLimit.outcome below.outcome := (hmatched 2 3 () ()).1
  rw [hbare, htagged] at hboth
  cases hboth with
  | found hhits =>
    exact ⟨hstateless, hbare, htagged, by decide +kernel, by decide +kernel, hhits⟩

end Project

end Concordance
