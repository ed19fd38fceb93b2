import Concordance.Branch
import Concordance.Proofs.Tool.Faults

namespace Concordance

namespace Project

variable (p : Project)

def IsQuery (call : Invocation) : Prop := ∃ q : IndexerQuery, call = ⟨p.config.indexer, q.args⟩

def IsTagging (call : Invocation) : Prop :=
  ∃ filename, call = ⟨p.config.tagger, taggingArgs filename⟩

-- Even where both tools are one program, it is not queried when it is asked for declarations.
theorem not_isQuery_tagging (filename : String) :
    ¬ p.IsQuery ⟨p.config.tagger, taggingArgs filename⟩ := by
  rintro ⟨q, hq⟩
  exact q.args_ne_taggingArgs filename (congrArg Invocation.args hq).symm

variable {p} {σ : Type} {tools : Toolbox σ}

theorem failsOn_query (q : IndexerQuery) (relation : Relation) :
    (p.query q relation).FailsOn tools p.IsQuery :=
  (Dialogue.failsOn_ask ⟨q, rfl⟩).bind fun _ => Dialogue.failsOn_done _

theorem failsOn_get (cache : TagCache) (filename : String) :
    (cache.get p.config.tagger filename).FailsOn tools p.IsQuery := by
  unfold TagCache.get
  split
  · exact Dialogue.failsOn_done _
  · split
    · exact Dialogue.failsOn_done _
    · refine (Dialogue.failsOn_tryAsk (p.not_isQuery_tagging filename)).bind fun reply => ?_
      cases reply with
      | ok output => exact Dialogue.failsOn_done _
      | error failure => exact (Dialogue.failsOn_done _).warn .taggingFailed

theorem failsOn_getAll (cache : TagCache) (filenames : List String) :
    (cache.getAll p.config.tagger filenames).FailsOn tools p.IsQuery := by
  induction filenames generalizing cache with
  | nil => exact Dialogue.failsOn_done _
  | cons filename filenames ih => exact (failsOn_get cache filename).bind fun found => ih found.2

theorem failsOn_enrich (os : List Occurrence) : (p.enrich os).FailsOn tools p.IsQuery :=
  ((failsOn_getAll _ _).bind fun _ => Dialogue.failsOn_done _).bind fun _ =>
    Dialogue.failsOn_done _

theorem failsOn_references (symbol : String) : (p.references symbol).FailsOn tools p.IsQuery :=
  (failsOn_query _ _).bind fun _ => (failsOn_query _ _).bind fun _ => failsOn_enrich _

theorem failsOn_definitions (symbol : String) : (p.definitions symbol).FailsOn tools p.IsQuery :=
  (failsOn_query _ _).bind fun _ => (Dialogue.failsOn_notifyAll _).bind fun _ =>
    Dialogue.failsOn_done _

theorem failsOn_fileSymbols (filename : String) :
    (p.fileSymbols filename).FailsOn tools p.IsQuery :=
  (failsOn_query _ _).bind fun _ => failsOn_enrich _

theorem failsOn_outline (filename : String) : (p.outline filename).FailsOn tools p.IsTagging :=
  (Dialogue.failsOn_ask ⟨filename, rfl⟩).bind fun _ => Dialogue.failsOn_done _

theorem failsOn_search (query : String) : (p.search query).FailsOn tools p.IsQuery := by
  unfold search
  split
  · exact Dialogue.failsOn_done _
  · refine (failsOn_query _ _).bind fun os => ?_
    split
    · exact failsOn_enrich os
    · exact Dialogue.failsOn_done os

theorem failsOn_symbolHits (query : String) : (p.symbolHits query).FailsOn tools p.IsQuery :=
  (failsOn_search query).bind fun _ => Dialogue.failsOn_done _

theorem failsOn_expand (t : Target) (isRoot : Bool) :
    (p.expand t isRoot).FailsOn tools p.IsQuery :=
  (failsOn_references _).bind fun _ => Dialogue.failsOn_done _

-- The walk goes by the depth: an expansion fails like the node that it starts from, and each
-- branch like those below it.
theorem failsOn_render (root : Path) (depth : Nat) (n : Node) :
    (p.render root depth n).FailsOn tools p.IsQuery := by
  induction depth generalizing n with
  | zero => exact (Dialogue.failsOn_notifyAll _).bind fun _ => Dialogue.failsOn_done _
  | succ depth ih =>
    refine (Dialogue.failsOn_notifyAll _).bind fun _ => ?_
    by_cases hnone : n.collapsible = .none
    · rw [if_pos hnone]
      exact Dialogue.failsOn_done _
    · rw [if_neg hnone]
      exact (failsOn_expand _ _).bind fun nodes => (Dialogue.FailsOn.forEach ih nodes).bind
        fun _ => Dialogue.failsOn_done _

end Project

end Concordance
