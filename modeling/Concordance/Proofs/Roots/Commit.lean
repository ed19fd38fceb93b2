import Concordance.Proofs.Roots.Distinct

namespace Concordance.Roots

-- Those of some nodes that would be new roots, in their order.
def fresh (roots : Roots) (nodes : List Node) : List Node :=
  nodes.filter fun n => n.key ∉ roots.map Node.key

variable {roots : Roots} {nodes new : List Node} {n : Node}

theorem mem_fresh : n ∈ roots.fresh nodes ↔ n ∈ nodes ∧ n.key ∉ roots.map Node.key := by
  simp only [fresh, List.mem_filter, decide_eq_true_eq]

theorem filter_not_tracks (roots : Roots) (nodes : List Node) :
    (nodes.filter fun n => !roots.tracks n.key) = roots.fresh nodes := by
  refine List.filter_congr fun n _ => ?_
  rw [Bool.eq_iff_iff, Bool.not_eq_true', decide_eq_true_iff, ← tracks_iff, Bool.not_eq_true]

theorem commit_of_fresh_nil (hnodes : nodes ≠ []) (h : roots.fresh nodes = []) :
    roots.commit nodes = ⟨.alreadyTracked, roots, []⟩ := by
  unfold commit
  rw [if_neg (mt List.isEmpty_iff.mp hnodes), filter_not_tracks, h]
  rfl

theorem commit_of_fresh_ne_nil (h : roots.fresh nodes ≠ []) :
    roots.commit nodes =
      ⟨.added (roots.fresh nodes), roots.fresh nodes ++ roots,
        [.rootsAdded (roots.fresh nodes).length]⟩ := by
  have hnodes : nodes ≠ [] := by
    rintro rfl
    exact h rfl
  unfold commit
  rw [if_neg (mt List.isEmpty_iff.mp hnodes), filter_not_tracks]
  exact if_neg (mt List.isEmpty_iff.mp h)

theorem commit_value_eq_added_iff :
    (roots.commit nodes).value = .added new ↔ new = roots.fresh nodes ∧ new ≠ [] := by
  by_cases hfresh : roots.fresh nodes = []
  · have hvalue : (roots.commit nodes).value ≠ .added new := by
      cases nodes with
      | nil => exact TrackOutcome.noConfusion
      | cons head tail =>
        rw [commit_of_fresh_nil (List.cons_ne_nil head tail) hfresh]
        exact TrackOutcome.noConfusion
    rw [hfresh]
    exact ⟨fun h => absurd h hvalue, fun h => absurd h.1 h.2⟩
  · rw [commit_of_fresh_ne_nil hfresh, TrackOutcome.added.injEq]
    constructor
    · rintro rfl
      exact ⟨rfl, hfresh⟩
    · rintro ⟨rfl, -⟩
      rfl

end Concordance.Roots
