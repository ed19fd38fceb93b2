import Concordance.Branch
import Concordance.Proofs.Expansion.Shape
import Concordance.Proofs.Project.Batches
import Concordance.Proofs.Tool.Stateless

namespace Concordance

namespace Branch

-- A branch without all that stands more than so many levels below its top.
def cut : Nat → Branch → Branch
  | 0, b => mk b.item []
  | depth + 1, b => mk b.item (b.children.map (cut depth))

mutual

-- How many levels of children a branch has.
def levels : Branch → Nat
  | mk _ children => levelsOfAll children

def levelsOfAll : List Branch → Nat
  | [] => 0
  | b :: bs => max (b.levels + 1) (levelsOfAll bs)

end

theorem levels_eq (b : Branch) : b.levels = levelsOfAll b.children := by
  cases b
  rfl

theorem levelsOfAll_le {R : Node → Branch → Prop} {depth : Nat} {nodes : List Node}
    {bs : List Branch} (h : ∀ n b, R n b → b.levels ≤ depth) (hall : List.Forall₂ R nodes bs) :
    levelsOfAll bs ≤ depth + 1 := by
  induction hall with
  | nil => exact Nat.zero_le (depth + 1)
  | cons hfirst _ ih => exact Nat.max_le.mpr ⟨Nat.succ_le_succ (h _ _ hfirst), ih⟩

end Branch

namespace Project

variable {σ : Type} (p : Project) (tools : Toolbox σ) (root : Path)

-- What a drawing of a node shows to a depth: the item of the node and, one level deeper, a drawing
-- of each node that stands below it. Only at the end of the depth, and for a use outside of every
-- declaration, there is nothing below.
inductive Draws : Nat → Node → Branch → Prop
  | bottom (n : Node) : Draws 0 n (.mk (n.item root) [])
  | leaf (depth : Nat) {n : Node} (h : n.relation = .other) :
      Draws depth n (.mk (n.item root) [])
  | inner {depth : Nat} {n : Node} {nodes : List Node} {branches : List Branch}
      (h : n.relation ≠ .other)
      (hnodes : ∀ s, ((p.children n).play tools s).outcome = .ok nodes)
      (hlength : nodes.length = branches.length)
      (hbelow : ∀ {m b}, (m, b) ∈ nodes.zip branches → Draws depth m b) :
      Draws (depth + 1) n (.mk (n.item root) branches)

variable {p tools root} {depth k : Nat} {n : Node} {b : Branch}

theorem draws_inner_iff (h : n.relation ≠ .other) :
    p.Draws tools root (depth + 1) n b ↔ b.item = n.item root ∧
      ∃ nodes, (∀ s, ((p.children n).play tools s).outcome = .ok nodes) ∧
        List.Forall₂ (p.Draws tools root depth) nodes b.children := by
  constructor
  · intro hdraws
    cases hdraws with
    | leaf _ hother => exact absurd hother h
    | @inner _ _ nodes branches _ hnodes hlength hbelow =>
      exact ⟨rfl, nodes, hnodes, List.forall₂_iff_zip.mpr ⟨hlength, hbelow⟩⟩
  · rintro ⟨hitem, nodes, hnodes, hall⟩
    obtain ⟨item, branches⟩ := b
    cases hitem
    obtain ⟨hlength, hbelow⟩ := List.forall₂_iff_zip.mp hall
    exact .inner h hnodes hlength hbelow

theorem draws_leaf_iff (h : n.relation = .other) :
    p.Draws tools root depth n b ↔ b = .mk (n.item root) [] := by
  constructor
  · intro hdraws
    cases hdraws with
    | bottom => rfl
    | leaf => rfl
    | inner hinner => exact absurd h hinner
  · rintro rfl
    exact .leaf depth h

theorem draws_zero_iff : p.Draws tools root 0 n b ↔ b = .mk (n.item root) [] := by
  constructor
  · intro hdraws
    cases hdraws with
    | bottom => rfl
    | leaf => rfl
  · rintro rfl
    exact .bottom n

theorem Draws.item_eq (h : p.Draws tools root depth n b) : b.item = n.item root := by
  cases h <;> rfl

theorem Draws.cut (h : p.Draws tools root (depth + k) n b) :
    p.Draws tools root depth n (b.cut depth) := by
  induction depth generalizing n b with
  | zero => rw [draws_zero_iff, Branch.cut, h.item_eq]
  | succ depth ih =>
    rw [Nat.succ_add] at h
    by_cases hother : n.relation = .other
    · rw [draws_leaf_iff hother] at h ⊢
      rw [h]
      rfl
    · obtain ⟨hitem, nodes, hnodes, hall⟩ := (draws_inner_iff hother).mp h
      refine (draws_inner_iff hother).mpr ⟨hitem, nodes, hnodes, ?_⟩
      rw [Branch.cut, Branch.children, List.forall₂_map_right_iff]
      exact hall.imp fun m b' => ih

theorem Draws.levels_le (h : p.Draws tools root depth n b) : b.levels ≤ depth := by
  induction depth generalizing n b with
  | zero =>
    rw [draws_zero_iff] at h
    rw [h]
    exact Nat.le_refl 0
  | succ depth ih =>
    by_cases hother : n.relation = .other
    · rw [(draws_leaf_iff hother).mp h]
      exact Nat.zero_le (depth + 1)
    · obtain ⟨-, nodes, -, hall⟩ := (draws_inner_iff hother).mp h
      rw [Branch.levels_eq]
      exact Branch.levelsOfAll_le (fun m b' => ih) hall

theorem endsAlike_query (h : tools.Stateless) (q : IndexerQuery) (relation : Relation) :
    (p.query q relation).EndsAlike tools :=
  (Dialogue.endsAlike_ask h _).bind fun _ => Dialogue.endsAlike_done _

theorem endsAlike_enrich (h : tools.Stateless) (os : List Occurrence) :
    (p.enrich os).EndsAlike tools := by
  intro s t
  rw [p.play_enrich_outcome h s os s, p.play_enrich_outcome h s os t]

theorem endsAlike_children (h : tools.Stateless) (n : Node) : (p.children n).EndsAlike tools := by
  have hreferences : (p.references n.label).EndsAlike tools :=
    (endsAlike_query h _ _).bind fun _ => (endsAlike_query h _ _).bind fun _ => endsAlike_enrich h _
  exact hreferences.bind fun _ => Dialogue.endsAlike_done _

theorem play_render_zero (s : σ) :
    ((p.render root 0 n).play tools s).outcome = .ok (.mk (n.item root) []) :=
  Dialogue.play_notifyAll_bind n.itemNotices _ s

theorem play_render_leaf (hother : n.relation = .other) (s : σ) :
    ((p.render root depth n).play tools s).outcome = .ok (.mk (n.item root) []) := by
  cases depth with
  | zero => exact play_render_zero s
  | succ depth =>
    have hnone : n.collapsible = .none := (n.item_collapsible_eq_none_iff root).mpr hother
    refine (Dialogue.play_notifyAll_bind n.itemNotices _ s).trans ?_
    rw [if_pos hnone]
    rfl

theorem play_render_inner (hother : n.relation ≠ .other) (s : σ) :
    ((p.render root (depth + 1) n).play tools s).outcome =
      (((p.children n).bind fun nodes =>
        (Dialogue.forEach (p.render root depth) nodes).bind fun branches =>
          .done (.mk (n.item root) branches)).play tools s).outcome := by
  have hopens : n.collapsible ≠ .none := mt (n.item_collapsible_eq_none_iff root).mp hother
  refine (Dialogue.play_notifyAll_bind n.itemNotices _ s).trans ?_
  rw [if_neg hopens]
  rfl

-- The walk goes by the depth, from the drawings of the nodes below to that of the node.
theorem play_render_ok_iff (h : tools.Stateless) (s : σ) :
    ((p.render root depth n).play tools s).outcome = .ok b ↔ p.Draws tools root depth n b := by
  induction depth generalizing n b s with
  | zero => rw [play_render_zero, draws_zero_iff, Except.ok.injEq, eq_comm]
  | succ depth ih =>
    by_cases hother : n.relation = .other
    · rw [play_render_leaf hother, draws_leaf_iff hother, Except.ok.injEq, eq_comm]
    rw [play_render_inner hother, draws_inner_iff hother, Dialogue.play_bind_ok_iff]
    constructor
    · rintro ⟨nodes, hnodes, hend⟩
      obtain ⟨branches, hall, hdone⟩ := Dialogue.play_bind_ok_iff.mp hend
      cases hdone
      refine ⟨rfl, nodes, fun t => ?_, (Dialogue.play_forEach_ok_iff fun _ _ t => ih t).mp hall⟩
      rw [endsAlike_children h n t s, hnodes]
    · rintro ⟨hitem, nodes, hnodes, hall⟩
      obtain ⟨item, branches⟩ := b
      cases hitem
      refine ⟨nodes, hnodes s, Dialogue.play_bind_ok_iff.mpr ⟨branches, ?_, rfl⟩⟩
      exact (Dialogue.play_forEach_ok_iff fun _ _ t => ih t).mpr hall

-- With tools that answer by the invocation alone, a deeper drawing only adds below: where it
-- succeeds, so does the one of less depth, and that is the deeper one cut off. No drawing has more
-- levels than its depth, and each shows below a node just the nodes that stand there.
theorem render_deeper (p : Project) (h : tools.Stateless) (root : Path) (n : Node) :
    (∀ (depth k : Nat) (s t : σ) (deep : Branch),
      ((p.render root (depth + k) n).play tools s).outcome = .ok deep →
        ((p.render root depth n).play tools t).outcome = .ok (deep.cut depth)) ∧
    ∀ (depth : Nat) (s : σ) (b : Branch),
      ((p.render root depth n).play tools s).outcome = .ok b →
        b.levels ≤ depth ∧ p.Draws tools root depth n b := by
  constructor
  · intro depth k s t deep hdeep
    have hdraws := (play_render_ok_iff h s).mp hdeep
    exact (play_render_ok_iff h t).mpr hdraws.cut
  · intro depth s b hb
    have hdraws := (play_render_ok_iff h s).mp hb
    exact ⟨hdraws.levels_le, hdraws⟩

-- Two functions that call each other, so that a drawing never comes to an end by itself.
def mutualCalls : Toolbox Unit where
  run call s :=
    if call.args = ["-x", "even"] then (.ok "even 1 n.c int even(int n) \x7b\n", s)
    else if call.args = ["-rx", "even"] then (.ok "even 6 n.c   return even(n - 1);\n", s)
    else if call.args = ["-x", "odd"] then (.ok "odd 5 n.c int odd(int n) \x7b\n", s)
    else if call.args = ["-rx", "odd"] then (.ok "odd 2 n.c   return odd(n - 1);\n", s)
    else
      (.ok ("even\tn.c\t/^int even(int n) \x7b$/;\"\tfunction\tline:1\tend:3\n"
        ++ "odd\tn.c\t/^int odd(int n) \x7b$/;\"\tfunction\tline:5\tend:7\n"), s)
  list _ s := (.error (.notStarted "global" ""), s)

def evenRoot : Node :=
  ⟨"even", "n.c", 1, .definition, "even", "int even(int n) \x7b", true, true, "function"⟩

theorem render_deeper_mutualCalls :
    let p : Project := ⟨{}, "/ws"⟩
    mutualCalls.Stateless ∧ ∃ deep,
      ((p.render "/ws" (1 + 1) evenRoot).play mutualCalls ()).outcome = .ok deep ∧
      (Branch.rows 0 deep).map (fun r => (r.1, r.2.label)) =
        [(0, "even"), (1, "odd"), (2, "odd"), (2, "even")] ∧
      ((p.render "/ws" 1 evenRoot).play mutualCalls ()).outcome = .ok (deep.cut 1) ∧
      deep.levels ≤ 2 ∧ p.Draws mutualCalls "/ws" 2 evenRoot deep := by
  intro p
  have hstateless : mutualCalls.Stateless := fun _ _ _ => rfl
  have hlabels : (((p.render "/ws" (1 + 1) evenRoot).play mutualCalls ()).outcome.map
      fun b => (Branch.rows 0 b).map fun r => (r.1, r.2.label)) =
        .ok [(0, "even"), (1, "odd"), (2, "odd"), (2, "even")] := by decide +kernel
  obtain ⟨hdeeper, hdrawn⟩ := p.render_deeper hstateless "/ws" evenRoot
  cases hdeep : ((p.render "/ws" (1 + 1) evenRoot).play mutualCalls ()).outcome with
  | error failure =>
    rw [hdeep] at hlabels
    cases hlabels
  | ok deep =>
    rw [hdeep] at hlabels
    obtain ⟨hlevels, hdraws⟩ := hdrawn 2 () deep hdeep
    exact ⟨hstateless, deep, rfl, Except.ok.inj hlabels, hdeeper 1 1 () () deep hdeep, hlevels,
      hdraws⟩

end Project

end Concordance
