import Mathlib.Data.List.Induction
import Mathlib.Data.List.Nodup
import Concordance.Proofs.Expansion.Nodes
import Concordance.Proofs.Roots.Run
import Concordance.Tool.Script

namespace Concordance

namespace Roots

-- No two roots go by the same key.
def Distinct (roots : Roots) : Prop := (roots.map Node.key).Nodup

instance (roots : Roots) : Decidable roots.Distinct := List.nodupDecidable _

theorem tracks_iff (roots : Roots) (key : Node.Key) :
    roots.tracks key = true ↔ key ∈ roots.map Node.key := by
  simp only [tracks, List.any_eq_true, decide_eq_true_eq, List.mem_map]

theorem commit_roots (roots : Roots) (nodes : List Node) :
    (roots.commit nodes).roots = nodes.filter (fun n => !roots.tracks n.key) ++ roots := by
  unfold commit
  by_cases hn : nodes.isEmpty
  · rw [if_pos hn, List.isEmpty_iff.mp hn]
    rfl
  · rw [if_neg hn]
    dsimp only
    by_cases hf : (nodes.filter fun n => !roots.tracks n.key).isEmpty
    · rw [if_pos hf, List.isEmpty_iff.mp hf]
      rfl
    · rw [if_neg hf]

-- What is committed never clashes with what is there, only with itself.
theorem distinct_commit_iff (roots : Roots) (nodes : List Node) (h : roots.Distinct) :
    Distinct (roots.commit nodes).roots ↔
      Distinct (nodes.filter fun n => !roots.tracks n.key) := by
  unfold Distinct at *
  rw [commit_roots, List.map_append, List.nodup_append]
  refine ⟨fun hall => hall.1, fun hfresh => ⟨hfresh, h, ?_⟩⟩
  rintro key hkey _ htracked rfl
  obtain ⟨n, hn, rfl⟩ := List.mem_map.mp hkey
  have hnot := (List.mem_filter.mp hn).2
  rw [(tracks_iff roots n.key).mpr htracked] at hnot
  exact Bool.false_ne_true hnot

theorem distinct_untrack (roots : Roots) (key : Node.Key) (h : roots.Distinct) :
    Distinct (roots.untrack key).roots :=
  h.sublist (List.filter_sublist.map Node.key)

end Roots

-- Where an occurrence is: the key of its node, unless that is a placeholder.
def Occurrence.place (o : Occurrence) : Node.Key := ⟨o.filename, o.line, none⟩

-- The definitions at places that no root has.
def Roots.newDefinitions (roots : Roots) (os : List Occurrence) : List Occurrence :=
  os.filter fun o => o.relation = .definition && !roots.tracks o.place

theorem Node.key_ofOccurrence {o : Occurrence} (label : String) (isRoot expanded : Bool)
    (h : o.relation = .definition) : (Node.ofOccurrence o label isRoot expanded).key = o.place := by
  simp [Node.key, Node.isPlaceholder, Node.ofOccurrence, Occurrence.place, h]

theorem Roots.keys_filter_ofOccurrence (roots : Roots) (os : List Occurrence) (expanded : Bool) :
    (((os.filter fun o => o.relation = .definition).map fun o =>
        Node.ofOccurrence o o.label true expanded).filter fun n => !roots.tracks n.key).map Node.key =
      (os.filter fun o => o.relation = .definition && !roots.tracks o.place).map
        Occurrence.place := by
  induction os with
  | nil => rfl
  | cons o os ih =>
    by_cases hd : o.relation = .definition
    · have hkey := Node.key_ofOccurrence o.label true expanded hd
      rw [List.filter_cons_of_pos (by simpa using hd), List.map_cons, List.filter_cons,
        List.filter_cons, hkey]
      cases ht : roots.tracks o.place with
      | true => simpa [hd] using ih
      | false => simpa [hd, hkey] using ih
    · simpa [hd] using ih

theorem Roots.distinct_fresh_iff (roots : Roots) (symbol : String) (os : List Occurrence) :
    Roots.Distinct (((Target.symbol symbol).nodes symbol os true).filter
        fun n => !roots.tracks n.key) ↔
      ((roots.newDefinitions os).map Occurrence.place).Nodup := by
  by_cases h : ∀ o ∈ os, o.relation ≠ .definition
  · have hnew : roots.newDefinitions os = [] := by
      simp only [newDefinitions, List.filter_eq_nil_iff, Bool.and_eq_true, decide_eq_true_eq]
      exact fun o ho hd => h o ho hd.1
    rw [Target.nodes_root_placeholder symbol h, hnew]
    refine ⟨fun _ => List.nodup_nil, fun _ => ?_⟩
    exact (List.nodup_singleton _).sublist (List.filter_sublist.map Node.key)
  · obtain ⟨o, ho, hd⟩ : ∃ o ∈ os, o.relation = .definition := by simpa using h
    have hkeys : (((Target.symbol symbol).nodes symbol os true).filter
        fun n => !roots.tracks n.key).map Node.key =
          (roots.newDefinitions os).map Occurrence.place := by
      rw [Target.nodes_root_definitions symbol ho hd, newDefinitions]
      exact keys_filter_ofOccurrence roots os _
    rw [Distinct, hkeys]

namespace Tree

variable {σ : Type} (p : Project) (tools : Toolbox σ)

-- Tracking is unambiguous as long as no two of the definitions that it finds, and that are
-- not tracked yet, are at one place.
def Unambiguous (t : Tree σ) : Request → Prop
  | .track symbol => ∀ os, t.found p tools symbol = .ok os →
      ((t.roots.newDefinitions os).map Occurrence.place).Nodup
  | .untrack _ => True
  | .clear => True

theorem distinct_next_iff (t : Tree σ) (r : Request) (h : t.roots.Distinct) :
    (t.next p tools r).roots.Distinct ↔ t.Unambiguous p tools r := by
  cases r with
  | track symbol =>
    rw [next_track_roots]
    cases hf : t.found p tools symbol with
    | error failure =>
      refine ⟨fun _ os hos => ?_, fun _ => h⟩
      rw [hf] at hos
      cases hos
    | ok os =>
      dsimp only
      rw [Roots.distinct_commit_iff _ _ h, Roots.distinct_fresh_iff]
      constructor
      · intro hnew os' hos
        rw [hf] at hos
        cases hos
        exact hnew
      · intro hall
        exact hall os hf
  | untrack n =>
    rw [next_untrack_roots]
    exact ⟨fun _ => trivial, fun _ => Roots.distinct_untrack t.roots n.key h⟩
  | clear =>
    rw [next_clear_roots]
    exact ⟨fun _ => trivial, fun _ => List.nodup_nil⟩

-- The roots stay distinct throughout a run exactly when every request in it is unambiguous.
theorem distinct_run_iff (start : σ) (requests : List Request) :
    (∀ before, before <+: requests → (run p tools ⟨[], start⟩ before).roots.Distinct) ↔
      ∀ before r, before ++ [r] <+: requests →
        (run p tools ⟨[], start⟩ before).Unambiguous p tools r := by
  constructor
  · intro h before r hr
    have hafter := h (before ++ [r]) hr
    rw [run_append_singleton] at hafter
    exact (distinct_next_iff p tools _ r (h before ((List.prefix_append _ _).trans hr))).mp hafter
  · intro h before
    induction before using List.reverseRecOn with
    | nil =>
      intro _
      rw [run_nil]
      exact List.nodup_nil
    | append_singleton before r ih =>
      intro hr
      have hbefore := ih ((List.prefix_append _ _).trans hr)
      rw [run_append_singleton]
      exact (distinct_next_iff p tools _ r hbefore).mpr (h before r hr)

-- A function that calls itself on its only line.
def selfCall : Script :=
  let line := "fact 3 a.c int fact(int n) \x7b return n < 2 ? 1 : n * fact(n - 1); \x7d\n"
  [⟨⟨"global", ["-x", "fact"]⟩, .ok line, none⟩,
    ⟨⟨"global", ["-rx", "fact"]⟩, .ok line, none⟩,
    ⟨⟨"ctags", taggingArgs "a.c"⟩,
      .ok "fact\ta.c\t/^int fact(int n) \x7b return n < 2 ? 1 : n * fact(n - 1); \x7d$/;\"\tfunction\tline:3\tend:3\n", none⟩]

-- Its definition and its use become two roots of one place.
theorem selfCall_not_distinct :
    ¬ ∀ requests, (run ⟨{}, "/ws"⟩ Script.toolbox ⟨[], selfCall⟩ requests).roots.Distinct := by
  intro h
  have hfact := h [.track "fact"]
  revert hfact
  decide +kernel

end Tree

end Concordance
