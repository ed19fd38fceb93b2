import Mathlib.Logic.Relation
import Concordance.Item
import Concordance.Proofs.Expansion.Nodes
import Concordance.Proofs.Project.Records
import Concordance.Proofs.Roots.Run

namespace Concordance

namespace Node

theorem item_collapsible_eq_none_iff (n : Node) (folder : Path) :
    (n.item folder).collapsible = .none ↔ n.relation = .other := by
  by_cases hother : n.relation = .other
  · simp [item, collapsible, hother]
  · cases hexpanded : n.initiallyExpanded <;> simp [item, collapsible, hother, hexpanded]

-- The stand-in of a symbol without a definition. It is nowhere in the project.
structure StandsFor (n : Node) (symbol : String) : Prop where
  label : n.label = symbol
  tag : n.tag = symbol
  filename : n.filename = ""
  line : n.line = 0
  content : n.content = ""
  relation : n.relation = .symbol
  kind : n.kind = "macro"
  expanded : n.initiallyExpanded = true

-- What holds of a root in a tree of which these symbols were asked.
structure IsRootOf (asked : String → Prop) (n : Node) : Prop where
  origin : (∃ symbol, asked symbol ∧ n.StandsFor symbol) ∨
    n.relation = .definition ∧ n.filename ≠ ""
  isRoot : n.isRoot = true
  removable : ∀ folder, (n.item folder).removable = true
  opens : ∀ folder, (n.item folder).collapsible ≠ .none

-- What holds of a node that is shown below another.
structure IsInner (n : Node) : Prop where
  not_root : n.isRoot = false
  folded : n.initiallyExpanded = false
  relation : n.relation = .definition ∨ n.relation = .referencedBy ∨ n.relation = .other
  leaf_iff : ∀ folder, (n.item folder).collapsible = .none ↔ n.relation = .other

theorem isRootOf_placeholder {asked : String → Prop} {symbol : String} (h : asked symbol) :
    (placeholder symbol).IsRootOf asked where
  origin := Or.inl ⟨symbol, h, ⟨rfl, rfl, rfl, rfl, rfl, rfl, rfl, rfl⟩⟩
  isRoot := rfl
  removable _ := rfl
  opens _ := Collapsible.noConfusion

theorem isRootOf_ofOccurrence {o : Occurrence} (h : o.Proper) (hdefinition : o.relation = .definition)
    (asked : String → Prop) (label : String) (expanded : Bool) :
    (ofOccurrence o label true expanded).IsRootOf asked where
  origin := by
    refine Or.inr ⟨hdefinition, fun hempty => ?_⟩
    have hname : o.filename.toList = [] := by
      rw [show o.filename = "" from hempty]
      rfl
    exact h.filename.ne_nil hname
  isRoot := rfl
  removable _ := rfl
  opens folder := by
    rw [ne_eq, item_collapsible_eq_none_iff]
    intro hother
    cases hdefinition.symm.trans hother

theorem isInner_ofOccurrence {o : Occurrence} (h : o.Proper) (label : String) :
    (ofOccurrence o label false false).IsInner where
  not_root := rfl
  folded := rfl
  relation := by
    have hsymbol := h.relation
    cases hrelation : o.relation with
    | definition => exact Or.inl hrelation
    | referencedBy => exact Or.inr (Or.inl hrelation)
    | other => exact Or.inr (Or.inr hrelation)
    | symbol => exact absurd hrelation hsymbol
  leaf_iff folder := item_collapsible_eq_none_iff _ folder

end Node

namespace Project

variable {σ : Type} (p : Project) {tools : Toolbox σ} {s : σ}

theorem isRootOf_of_references {symbol : String} {os : List Occurrence} {asked : String → Prop}
    (h : ((p.references symbol).play tools s).outcome = .ok os) (hasked : asked symbol) {n : Node}
    (hn : n ∈ (Target.symbol symbol).nodes symbol os true) : n.IsRootOf asked := by
  rcases Target.mem_nodes_root hn with rfl | ⟨o, ho, hdefinition, expanded, rfl⟩
  · exact Node.isRootOf_placeholder hasked
  · have hproper := p.proper_of_references h o ho
    exact Node.isRootOf_ofOccurrence hproper hdefinition asked o.label expanded

-- One node is shown below another, if some tools answer so.
def Opens (n m : Node) : Prop :=
  ∃ (σ : Type) (tools : Toolbox σ) (s : σ) (nodes : List Node),
    ((p.children n).play tools s).outcome = .ok nodes ∧ m ∈ nodes

theorem isInner_of_opens {n m : Node} (h : p.Opens n m) : m.IsInner := by
  obtain ⟨σ, tools, s, nodes, hplay, hm⟩ := h
  rw [children, play_expand_outcome] at hplay
  cases hfound : ((p.references n.label).play tools s).outcome with
  | error failure =>
    rw [Target.name, hfound] at hplay
    cases hplay
  | ok os =>
    rw [Target.name, hfound] at hplay
    cases hplay
    obtain ⟨o, ho, rfl⟩ := Target.mem_nodes_inner hm
    exact Node.isInner_ofOccurrence (p.proper_of_references hfound o ho) o.label

theorem isInner_of_transGen {n m : Node} (h : Relation.TransGen p.Opens n m) : m.IsInner := by
  cases h with
  | single hlast => exact p.isInner_of_opens hlast
  | tail _ hlast => exact p.isInner_of_opens hlast

-- A root that is asked for comes out well, whatever the tools answer on the way.
theorem yields_expand {symbol : String} {asked : String → Prop} (h : asked symbol) :
    (p.expand (.symbol symbol) true).Yields fun nodes => ∀ n ∈ nodes, n.IsRootOf asked := by
  refine Dialogue.yields_of_told fun s nodes hplay => ?_
  rw [play_expand_outcome] at hplay
  cases hfound : ((p.references symbol).play Toolbox.told s).outcome with
  | error failure =>
    rw [Target.name, hfound] at hplay
    cases hplay
  | ok os =>
    rw [Target.name, hfound] at hplay
    cases hplay
    exact fun n hn => p.isRootOf_of_references hfound h hn

end Project

end Concordance
