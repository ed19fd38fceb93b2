import Concordance.Expansion

namespace Concordance.Target

theorem nodes_root_placeholder (symbol : String) {os : List Occurrence}
    (h : ∀ o ∈ os, o.relation ≠ .definition) :
    (Target.symbol symbol).nodes symbol os true = [Node.placeholder symbol] := by
  have hnone : os.any (fun o => o.relation = .definition) = false := by
    simpa using h
  simp [Target.nodes, hnone]

theorem kept_symbol_root (symbol : String) (os : List Occurrence) :
    (Target.symbol symbol).kept os true = os.filter fun o => o.relation = .definition := by
  simp [Target.kept, Target.isSelf]

theorem nodes_root_definitions (symbol : String) {os : List Occurrence} {o : Occurrence}
    (hmem : o ∈ os) (h : o.relation = .definition) :
    (Target.symbol symbol).nodes symbol os true =
      (os.filter fun o => o.relation = .definition).map fun o =>
        Node.ofOccurrence o o.label true
          (!hasWildcard symbol && (os.filter fun o => o.relation = .definition).length = 1) := by
  have hsome : os.any (fun o => o.relation = .definition) = true :=
    List.any_eq_true.mpr ⟨o, hmem, by simpa using h⟩
  unfold Target.nodes
  rw [hsome, Target.kept_symbol_root]
  rfl

theorem mem_nodes_root {symbol : String} {os : List Occurrence} {n : Node}
    (h : n ∈ (Target.symbol symbol).nodes symbol os true) :
    n = Node.placeholder symbol ∨
      ∃ o ∈ os, o.relation = .definition ∧
        ∃ expanded, n = Node.ofOccurrence o o.label true expanded := by
  by_cases hnone : ∀ o ∈ os, o.relation ≠ .definition
  · rw [nodes_root_placeholder symbol hnone] at h
    exact Or.inl (List.mem_singleton.mp h)
  · obtain ⟨d, hd, hdefinition⟩ : ∃ o ∈ os, o.relation = .definition := by simpa using hnone
    rw [nodes_root_definitions symbol hd hdefinition] at h
    obtain ⟨o, ho, rfl⟩ := List.mem_map.mp h
    obtain ⟨hmem, hrelation⟩ := List.mem_filter.mp ho
    exact Or.inr ⟨o, hmem, by simpa using hrelation, _, rfl⟩

-- Each definition has its node among the roots.
theorem exists_mem_nodes_root {symbol : String} {os : List Occurrence} {o : Occurrence}
    (hmem : o ∈ os) (h : o.relation = .definition) :
    ∃ expanded, Node.ofOccurrence o o.label true expanded ∈
      (Target.symbol symbol).nodes symbol os true := by
  have hkept : o ∈ os.filter fun o => o.relation = .definition :=
    List.mem_filter.mpr ⟨hmem, by simpa using h⟩
  rw [nodes_root_definitions symbol hmem h]
  exact ⟨_, List.mem_map_of_mem hkept⟩

-- A symbol never goes without a root, be it a stand-in.
theorem nodes_root_ne_nil (symbol : String) (os : List Occurrence) :
    (Target.symbol symbol).nodes symbol os true ≠ [] := by
  by_cases h : ∀ o ∈ os, o.relation ≠ .definition
  · rw [nodes_root_placeholder symbol h]
    exact List.cons_ne_nil _ _
  · obtain ⟨o, ho, hd⟩ : ∃ o ∈ os, o.relation = .definition := by simpa using h
    have hkept : o ∈ os.filter fun o => o.relation = .definition :=
      List.mem_filter.mpr ⟨ho, by simpa using hd⟩
    rw [nodes_root_definitions symbol ho hd, ne_eq, List.map_eq_nil_iff]
    exact List.ne_nil_of_mem hkept

-- Below a node stand the occurrences of its symbol, all but the node itself.
theorem nodes_inner (n : Node) (symbol : String) (os : List Occurrence) :
    (Target.node n).nodes symbol os false =
      (os.filter fun o => !n.isAt o.filename o.line).map fun o =>
        Node.ofOccurrence o o.label false false := by
  simp [Target.nodes, Target.kept, Target.isSelf]

theorem mem_nodes_inner {n m : Node} {symbol : String} {os : List Occurrence}
    (h : m ∈ (Target.node n).nodes symbol os false) :
    ∃ o ∈ os, m = Node.ofOccurrence o o.label false false := by
  rw [nodes_inner] at h
  obtain ⟨o, ho, rfl⟩ := List.mem_map.mp h
  exact ⟨o, (List.mem_filter.mp ho).1, rfl⟩

end Concordance.Target
