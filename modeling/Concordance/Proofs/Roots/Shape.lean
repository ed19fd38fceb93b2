import Concordance.Proofs.Expansion.Shape
import Concordance.Proofs.Roots.Changes
import Concordance.Proofs.Roots.Shared
import Concordance.Tool.Script

namespace Concordance

variable {asked : String → Prop}

-- What a tree promises of its roots and of all that is shown below them.
def Roots.WellShaped (p : Project) (asked : String → Prop) (roots : Roots) : Prop :=
  ∀ n ∈ roots, n.IsRootOf asked ∧ ∀ m, Relation.TransGen p.Opens n m → m.IsInner

theorem Roots.wellShaped_of_forall (p : Project) {roots : Roots}
    (h : ∀ n ∈ roots, n.IsRootOf asked) : roots.WellShaped p asked :=
  fun n hn => ⟨h n hn, fun _ hm => p.isInner_of_transGen hm⟩

theorem Roots.isRootOf_commit {roots : Roots} {nodes : List Node}
    (hroots : ∀ n ∈ roots, n.IsRootOf asked) (hnodes : ∀ n ∈ nodes, n.IsRootOf asked) :
    ∀ n ∈ (roots.commit nodes).roots, n.IsRootOf asked := by
  intro n hn
  rw [commit_roots] at hn
  rcases List.mem_append.mp hn with hnew | hold
  · exact hnodes n (List.mem_of_mem_filter hnew)
  · exact hroots n hold

namespace Tree

variable {σ : Type} {p : Project} {tools : Toolbox σ}

theorem Effect.isRootOf {t : Tree σ} {op : Operation} {answer : Except ToolFailure Answer}
    {roots : Roots} {changes : List Change} (h : t.Effect p tools op answer roots changes)
    (hroots : ∀ n ∈ t.roots, n.IsRootOf asked)
    (hasked : ∀ symbol, op = .request (.track symbol) → asked symbol) :
    ∀ n ∈ roots, n.IsRootOf asked := by
  intro n hn
  cases h with
  | failed _ => exact hroots n hn
  | nothing _ _ => exact hroots n hn
  | known _ _ _ => exact hroots n hn
  | @added symbol os new _ _ hfound hnew _ hafter _ =>
    subst hafter
    subst hnew
    rcases List.mem_append.mp hn with hfresh | hold
    · exact p.isRootOf_of_references hfound (hasked symbol rfl) (Roots.mem_fresh.mp hfresh).1
    · exact hroots n hold
  | untracked hafter _ =>
    subst hafter
    exact hroots n (List.mem_of_mem_filter hn)
  | cleared => exact absurd hn List.not_mem_nil
  | children _ => exact hroots n hn
  | render _ => exact hroots n hn

theorem History.isRootOf {t t' : Tree σ} {ops : List Operation}
    {answers : List (Except ToolFailure Answer)} {changes : List Change}
    (h : History p tools t ops answers changes t') (hroots : ∀ n ∈ t.roots, n.IsRootOf asked)
    (hasked : ∀ symbol, .request (.track symbol) ∈ ops → asked symbol) :
    ∀ n ∈ t'.roots, n.IsRootOf asked := by
  induction h with
  | nil t => exact hroots
  | cons first rest ih =>
    apply ih
    · exact first.isRootOf hroots fun symbol hop => hasked symbol (hop ▸ List.mem_cons_self)
    · exact fun symbol hmem => hasked symbol (List.mem_cons_of_mem _ hmem)

end Tree

namespace SharedTree

variable {ι σ : Type}

-- The invariant of a shared tree. A client that waits for the tools brings good roots whatever
-- they answer and whatever the others do meanwhile.
structure Sound (asked : String → Prop) (t : SharedTree ι σ) : Prop where
  roots : ∀ n ∈ t.roots, n.IsRootOf asked
  waiting : ∀ client symbol d, t.waiting client = some (symbol, d) →
    d.Yields fun nodes => ∀ n ∈ nodes, n.IsRootOf asked

variable {t : SharedTree ι σ}

theorem Sound.withRoots (h : t.Sound asked) {roots : Roots}
    (hroots : ∀ n ∈ roots, n.IsRootOf asked) : Sound asked { t with roots := roots } :=
  ⟨hroots, h.waiting⟩

theorem Sound.withTools (h : t.Sound asked) (s : σ) : Sound asked { t with tools := s } :=
  ⟨h.roots, h.waiting⟩

variable [DecidableEq ι] (p : Project) (tools : Toolbox σ)

theorem Sound.setWaiting (h : t.Sound asked) (client : ι)
    {call : Option (String × Dialogue (List Node))}
    (hcall : ∀ symbol d, call = some (symbol, d) →
      d.Yields fun nodes => ∀ n ∈ nodes, n.IsRootOf asked) :
    (t.setWaiting client call).Sound asked where
  roots := h.roots
  waiting other symbol d hwaiting := by
    have hupdate : Function.update t.waiting client call other = some (symbol, d) := hwaiting
    rw [Function.update_apply] at hupdate
    split at hupdate
    · exact hcall symbol d hupdate
    · exact h.waiting other symbol d hupdate

theorem Sound.ask (h : t.Sound asked) (client : ι) {r : Request}
    (hasked : ∀ symbol, r = .track symbol → asked symbol) :
    (t.ask p client r).1.Sound asked := by
  cases r with
  | track symbol =>
    refine h.setWaiting client fun symbol' d hcall => ?_
    cases hcall
    exact p.yields_expand (hasked symbol rfl)
  | untrack n => exact h.withRoots fun m hm => h.roots m (List.mem_of_mem_filter hm)
  | clear => exact h.withRoots fun n hn => absurd hn List.not_mem_nil

theorem Sound.proceed (h : t.Sound asked) (client : ι) (symbol : String)
    {d : Dialogue (List Node)} (hd : d.Yields fun nodes => ∀ n ∈ nodes, n.IsRootOf asked) :
    (t.proceed tools client symbol d).1.Sound asked := by
  cases d with
  | done nodes =>
    apply (h.withRoots (Roots.isRootOf_commit h.roots hd)).setWaiting client
    intro symbol' d hcall
    cases hcall
  | failed failure =>
    apply h.setWaiting client
    intro symbol' d hcall
    cases hcall
  | run call next =>
    apply (h.withTools _).setWaiting client
    intro symbol' d hcall
    cases hcall
    exact hd _
  | list call next =>
    apply (h.withTools _).setWaiting client
    intro symbol' d hcall
    cases hcall
    exact hd _
  | warn notice next =>
    apply h.setWaiting client
    intro symbol' d hcall
    cases hcall
    exact hd

theorem Sound.act (h : t.Sound asked) (client : ι) {turn : Turn}
    (hasked : ∀ symbol, turn = .ask (.track symbol) → asked symbol) :
    (t.act p tools client turn).1.Sound asked := by
  unfold SharedTree.act
  split
  · next r _ _ => exact h.ask p client fun symbol hr => hasked symbol (by rw [hr])
  · next symbol d hwaiting => exact h.proceed tools client symbol (h.waiting client symbol d hwaiting)
  · exact h
  · exact h

theorem Sound.run (h : t.Sound asked) {schedule : List (ι × Turn)}
    (hasked : ∀ client symbol, (client, .ask (.track symbol)) ∈ schedule → asked symbol) :
    (t.run p tools schedule).1.Sound asked := by
  induction schedule generalizing t with
  | nil => exact h
  | cons turn schedule ih =>
    obtain ⟨client, turn⟩ := turn
    rw [run_cons]
    apply ih
    · apply h.act p tools client
      rintro symbol rfl
      exact hasked client symbol List.mem_cons_self
    · exact fun other symbol hmem => hasked other symbol (List.mem_cons_of_mem _ hmem)

end SharedTree

namespace Project

-- Whatever was done with a tree and whatever the tools answered, by one client after another or
-- by many at a time, each root is the stand-in of a symbol that was asked for or a definition,
-- and what is shown below it, however deep, is never taken for a root and is a leaf exactly
-- when it is a use outside of every declaration.
theorem roots_wellShaped (p : Project) {ι σ : Type} [DecidableEq ι] (tools : Toolbox σ) (s : σ) :
    (∀ (channel : Channel) (ops : List Operation),
      (Watched.run p tools ⟨⟨[], s⟩, channel⟩ ops).tree.roots.WellShaped p
        fun symbol => .request (.track symbol) ∈ ops) ∧
    ∀ schedule : List (ι × Turn),
      (SharedTree.run p tools ⟨[], s, fun _ => none⟩ schedule).1.roots.WellShaped p
        fun symbol => ∃ client, (client, .ask (.track symbol)) ∈ schedule := by
  constructor
  · intro channel ops
    obtain ⟨answers, changes, hhistory, -⟩ :=
      Watched.exists_history p tools ⟨⟨[], s⟩, channel⟩ ops
    apply Roots.wellShaped_of_forall
    exact hhistory.isRootOf (fun n hn => absurd hn List.not_mem_nil) fun symbol hmem => hmem
  · intro schedule
    have hstart : SharedTree.Sound (fun symbol => ∃ client, (client, .ask (.track symbol)) ∈ schedule)
        (⟨[], s, fun _ => none⟩ : SharedTree ι σ) := by
      refine ⟨fun n hn => absurd hn List.not_mem_nil, fun client symbol d hwaiting => ?_⟩
      cases hwaiting
    have hend := hstart.run p tools fun client symbol hmem => ⟨client, hmem⟩
    exact Roots.wellShaped_of_forall p hend.roots

-- A member that is used in a function, and the function in a file without declarations.
def memberTools : Script :=
  [⟨⟨"global", ["-x", "x"]⟩, .ok "x 2 point.h   int x;\n", none⟩,
    ⟨⟨"global", ["-rx", "x"]⟩, .ok "x 9 main.c   p.x = 0;\n", none⟩,
    ⟨⟨"global", ["-x", "main"]⟩, .ok "main 8 main.c int main(void)\n", none⟩,
    ⟨⟨"global", ["-rx", "main"]⟩, .ok "main 3 start.c   main();\n", none⟩,
    ⟨⟨"ctags", taggingArgs "main.c"⟩,
      .ok "main\tmain.c\t/^int main(void)$/;\"\tfunction\tline:8\tend:12\n", none⟩]

def memberRoot : Node := ⟨"x", "point.h", 2, .definition, "x", "  int x;", true, true, ""⟩

def memberUse : Node :=
  ⟨"main", "main.c", 9, .referencedBy, "x", "  p.x = 0;", false, false, "function"⟩

def startLeaf : Node := ⟨"main", "start.c", 3, .other, "main", "  main();", false, false, ""⟩

def memberOps : List Operation :=
  [.request (.track "x"), .children memberRoot, .request (.track "lost")]

theorem roots_wellShaped_member :
    let roots := (Watched.run Tree.standard Script.toolbox ⟨⟨[], memberTools⟩, .empty 1⟩
      memberOps).tree.roots
    let asked : String → Prop := fun symbol => .request (.track symbol) ∈ memberOps
    roots = [Node.placeholder "lost", memberRoot] ∧
      (Node.placeholder "lost").IsRootOf asked ∧ memberRoot.IsRootOf asked ∧
      Relation.TransGen Tree.standard.Opens memberRoot startLeaf ∧ startLeaf.IsInner ∧
      (startLeaf.item "/ws").collapsible = .none := by
  intro roots asked
  have hroots : roots = [Node.placeholder "lost", memberRoot] := by decide +kernel
  have huse : Tree.standard.Opens memberRoot memberUse :=
    ⟨_, Script.toolbox, memberTools, [memberUse], by decide +kernel, List.mem_singleton_self _⟩
  have hleaf : Tree.standard.Opens memberUse startLeaf := by
    refine ⟨_, Script.toolbox, memberTools,
      [⟨"main", "main.c", 8, .definition, "main", "int main(void)", false, false, "function"⟩,
        startLeaf], by decide +kernel, ?_⟩
    exact List.mem_cons_of_mem _ (List.mem_singleton_self _)
  have hbelow : Relation.TransGen Tree.standard.Opens memberRoot startLeaf :=
    .tail (.single huse) hleaf
  obtain ⟨hshaped, -⟩ := roots_wellShaped (ι := Unit) Tree.standard Script.toolbox memberTools
  have hall : roots.WellShaped Tree.standard asked := hshaped (.empty 1) memberOps
  rw [hroots] at hall
  obtain ⟨hlost, -⟩ := hall (Node.placeholder "lost") List.mem_cons_self
  obtain ⟨hmember, hinner⟩ := hall memberRoot
    (List.mem_cons_of_mem _ (List.mem_singleton_self memberRoot))
  have hstart := hinner startLeaf hbelow
  exact ⟨hroots, hlost, hmember, hbelow, hstart, (hstart.leaf_iff "/ws").mpr rfl⟩

end Project

end Concordance
