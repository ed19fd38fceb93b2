import Mathlib.Data.List.Forall2
import Concordance.Proofs.Expansion.Nodes
import Concordance.Proofs.Tool.Dialogue

namespace Concordance

-- What an occurrence goes by. Outside of every declaration, and in an enumeration or a structure,
-- it is its own tag.
inductive Occurrence.GoesAs (o : Occurrence) : String → Prop
  | alone (h : o.enclosing = none) : GoesAs o o.tag
  | member {enclosing : String} (h : o.enclosing = some enclosing)
      (hkind : o.kind = "enum" ∨ o.kind = "struct") : GoesAs o o.tag
  | inside {enclosing : String} (h : o.enclosing = some enclosing)
      (hkind : o.kind ≠ "enum" ∧ o.kind ≠ "struct") : GoesAs o enclosing

theorem Occurrence.goesAs_label (o : Occurrence) : o.GoesAs o.label := by
  unfold label
  cases h : o.enclosing with
  | none => exact .alone h
  | some enclosing =>
    by_cases hkind : o.kind = "enum" ∨ o.kind = "struct"
    · have hmember : (o.kind = "enum" || o.kind = "struct") = true := by simpa using hkind
      simp only [hmember, if_true]
      exact .member h hkind
    · have hother : (o.kind = "enum" || o.kind = "struct") = false := by simpa using hkind
      simp only [hother, Bool.false_eq_true, if_false]
      exact .inside h (not_or.mp hkind)

namespace Node

-- A node that stands for an occurrence.
structure Presents (isRoot expanded : Bool) (o : Occurrence) (n : Node) : Prop where
  label : o.GoesAs n.label
  filename : n.filename = o.filename
  line : n.line = o.line
  relation : n.relation = o.relation
  tag : n.tag = o.tag
  content : n.content = o.content
  kind : n.kind = o.kind
  isRoot : n.isRoot = isRoot
  expanded : n.initiallyExpanded = expanded

theorem presents_ofOccurrence (isRoot expanded : Bool) (o : Occurrence) :
    (ofOccurrence o o.label isRoot expanded).Presents isRoot expanded o :=
  ⟨o.goesAs_label, rfl, rfl, rfl, rfl, rfl, rfl, rfl, rfl⟩

-- The level below a node: all that its symbol is found at, in order, but for the occurrences
-- where the node itself is.
def Above (n : Node) (os : List Occurrence) (nodes : List Node) : Prop :=
  List.Forall₂ (fun o m => m.Presents false false o)
    (os.filter fun o => ¬ (o.filename = n.filename ∧ o.line = n.line)) nodes

end Node

-- The level of the roots of a symbol: its definitions, in order, or the stand-in where it has
-- none. Only a single definition of an exact name is shown open.
structure RootLevel (symbol : String) (os : List Occurrence) (nodes : List Node) : Prop where
  standIn_iff : nodes = [Node.placeholder symbol] ↔ ∀ o ∈ os, o.relation ≠ .definition
  definitions : (∃ o ∈ os, o.relation = .definition) → ∃ expanded,
    (expanded = true ↔ ('*' ∉ symbol.toList ∧ '?' ∉ symbol.toList) ∧
      (os.filter fun o => o.relation = .definition).length = 1) ∧
    List.Forall₂ (fun o n => n.Presents true expanded o)
      (os.filter fun o => o.relation = .definition) nodes

theorem hasWildcard_eq_false_iff (symbol : String) :
    hasWildcard symbol = false ↔ '*' ∉ symbol.toList ∧ '?' ∉ symbol.toList := by
  rw [hasWildcard, List.any_eq_false]
  simp only [Bool.or_eq_true, decide_eq_true_eq, not_or]
  constructor
  · exact fun h => ⟨fun hmem => (h _ hmem).1 rfl, fun hmem => (h _ hmem).2 rfl⟩
  · exact fun h c hc => ⟨fun heq => h.1 (heq ▸ hc), fun heq => h.2 (heq ▸ hc)⟩

theorem Node.isAt_iff (n : Node) (filename : String) (line : UInt32) :
    n.isAt filename line = true ↔ filename = n.filename ∧ line = n.line := by
  rw [isAt, Bool.and_eq_true, decide_eq_true_eq, decide_eq_true_eq]
  exact and_congr eq_comm eq_comm

namespace Target

theorem above_nodes_inner (n : Node) (symbol : String) (os : List Occurrence) :
    n.Above os ((Target.node n).nodes symbol os false) := by
  have hself : (fun o : Occurrence => !n.isAt o.filename o.line) =
      fun o => decide (¬ (o.filename = n.filename ∧ o.line = n.line)) := by
    funext o
    rw [Bool.eq_iff_iff, Bool.not_eq_true', ← Bool.not_eq_true, Node.isAt_iff, decide_eq_true_eq]
  rw [Node.Above, nodes_inner, hself, List.forall₂_map_right_iff, List.forall₂_same]
  exact fun o _ => Node.presents_ofOccurrence false false o

theorem rootLevel_nodes_root (symbol : String) (os : List Occurrence) :
    RootLevel symbol os ((Target.symbol symbol).nodes symbol os true) where
  standIn_iff := by
    constructor
    · intro h o ho hdefinition
      obtain ⟨expanded, hmem⟩ := exists_mem_nodes_root ho hdefinition
      rw [h, List.mem_singleton] at hmem
      have hrelation := congrArg Node.relation hmem
      exact Relation.noConfusion (hdefinition.symm.trans hrelation)
    · exact nodes_root_placeholder symbol
  definitions := by
    rintro ⟨o, ho, hdefinition⟩
    refine ⟨!hasWildcard symbol &&
      decide ((os.filter fun o => o.relation = .definition).length = 1), ?_, ?_⟩
    · rw [Bool.and_eq_true, Bool.not_eq_true', hasWildcard_eq_false_iff, decide_eq_true_eq]
    · rw [nodes_root_definitions symbol ho hdefinition, List.forall₂_map_right_iff,
        List.forall₂_same]
      exact fun o _ => Node.presents_ofOccurrence true _ o

end Target

-- One query asks what another one asks, fails where it fails, and makes its own value of the
-- value of the other.
structure Transcript.Reshapes {σ α β : Type} (R : α → β → Prop) (given : Transcript σ α)
    (made : Transcript σ β) : Prop where
  calls : made.calls = given.calls
  notices : made.notices = given.notices
  state : made.state = given.state
  failed : ∀ failure, given.outcome = .error failure → made.outcome = .error failure
  value : ∀ a, given.outcome = .ok a → ∃ b, made.outcome = .ok b ∧ R a b

theorem Dialogue.reshapes_bind_done {σ α β : Type} {R : α → β → Prop} {f : α → β}
    (h : ∀ a, R a (f a)) (tools : Toolbox σ) (d : Dialogue α) (s : σ) :
    (d.play tools s).Reshapes R ((d.bind fun value => done (f value)).play tools s) := by
  rw [play_bind_done]
  refine ⟨rfl, rfl, rfl, fun failure hfailed => ?_, fun a ha => ⟨f a, ?_, h a⟩⟩
  · rw [hfailed]
    rfl
  · rw [ha]
    rfl

-- Whatever the tools answer, the level below a node is made of the references of its label
-- without the node itself, and the level of the roots of the definitions of a symbol. Nothing else
-- is asked, left out or put in.
theorem Project.expand_levels {σ : Type} (p : Project) (tools : Toolbox σ) (s : σ) :
    (∀ n : Node, ((p.references n.label).play tools s).Reshapes n.Above
      ((p.children n).play tools s)) ∧
    ∀ symbol : String, ((p.references symbol).play tools s).Reshapes (RootLevel symbol)
      ((p.expand (.symbol symbol) true).play tools s) := by
  constructor
  · intro n
    exact Dialogue.reshapes_bind_done (Target.above_nodes_inner n n.label) tools _ s
  · intro symbol
    exact Dialogue.reshapes_bind_done (Target.rootLevel_nodes_root symbol) tools _ s

end Concordance
