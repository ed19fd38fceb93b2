import Concordance.Branch
import Concordance.Proofs.Change.Pending
import Concordance.Proofs.Roots.Undo

namespace Concordance

-- What a client does with a tree: it asks for a change, or it looks at what is below a node.
inductive Operation where
  | request (r : Request)
  | children (n : Node)
  | render (depth : Nat) (n : Node)

inductive Answer where
  | response (r : Response)
  | nodes (nodes : List Node)
  | branch (b : Branch)

def Roots.perform (p : Project) (roots : Roots) :
    Operation → Dialogue (Update (Except ToolFailure Answer))
  | .request r => do
    let u ← roots.fulfil p r
    pure (u.map (Except.map .response))
  | .children n => do
    let u ← roots.children p n
    pure (u.map (Except.map .nodes))
  | .render depth n => do
    let u ← roots.render p depth n
    pure (u.map (Except.map .branch))

namespace Tree

variable {σ : Type} (p : Project) (tools : Toolbox σ)

def perform (t : Tree σ) (op : Operation) : Update (Except ToolFailure Answer) :=
  .ofOutcome ((t.roots.perform p op).play tools t.tools).outcome

-- The tree that an operation leaves.
def after (t : Tree σ) (op : Operation) : Tree σ :=
  ⟨(t.perform p tools op).roots, ((t.roots.perform p op).play tools t.tools).state⟩

-- One of the two queries for a symbol fails, and so with this failure.
inductive QueryFails (t : Tree σ) (symbol : String) (failure : ToolFailure) : Prop
  | definitions {s : σ}
      (h : tools.run (p.call (.definitions symbol)) t.tools = (.error failure, s))
  | uses {output : String} {first second : σ}
      (hdefinitions : tools.run (p.call (.definitions symbol)) t.tools = (.ok output, first))
      (huses : tools.run (p.call (Project.secondQuery symbol output)) first =
        (.error failure, second))

theorem queryFails_of_found {t : Tree σ} {symbol : String} {failure : ToolFailure}
    (h : t.found p tools symbol = .error failure) : t.QueryFails p tools symbol failure := by
  obtain ⟨reply, first, hdefinitions⟩ : ∃ reply first,
      tools.run (p.call (.definitions symbol)) t.tools = (reply, first) := ⟨_, _, rfl⟩
  unfold found at h
  cases reply with
  | error cause =>
    rw [p.play_references_of_definitions_error tools hdefinitions] at h
    cases h
    exact .definitions hdefinitions
  | ok output =>
    obtain ⟨reply, second, huses⟩ : ∃ reply second,
        tools.run (p.call (Project.secondQuery symbol output)) first = (reply, second) :=
      ⟨_, _, rfl⟩
    cases reply with
    | error cause =>
      rw [p.play_references_of_uses_error tools hdefinitions huses] at h
      cases h
      exact .uses hdefinitions huses
    | ok uses =>
      obtain ⟨log, s', -, -, -, hplay⟩ := p.exists_play_references_found tools hdefinitions huses
      rw [hplay] at h
      cases h

-- What an operation answers, which roots it leaves, and what it tells the others.
inductive Effect (t : Tree σ) : Operation → Except ToolFailure Answer → Roots → List Change → Prop
  | failed {symbol : String} {failure : ToolFailure} (h : t.QueryFails p tools symbol failure) :
      Effect t (.request (.track symbol)) (.error failure) t.roots []
  | nothing {symbol : String} {os : List Occurrence} (hfound : t.found p tools symbol = .ok os)
      (hnodes : (Target.symbol symbol).nodes symbol os true = []) :
      Effect t (.request (.track symbol)) (.ok (.response (.tracked .noReferences))) t.roots []
  | known {symbol : String} {os : List Occurrence} (hfound : t.found p tools symbol = .ok os)
      (hnodes : (Target.symbol symbol).nodes symbol os true ≠ [])
      (hnew : t.roots.fresh ((Target.symbol symbol).nodes symbol os true) = []) :
      Effect t (.request (.track symbol)) (.ok (.response (.tracked .alreadyTracked))) t.roots []
  | added {symbol : String} {os : List Occurrence} {new : List Node} {roots : Roots} {count : Nat}
      (hfound : t.found p tools symbol = .ok os)
      (hnew : new = t.roots.fresh ((Target.symbol symbol).nodes symbol os true)) (hne : new ≠ [])
      (hroots : roots = new ++ t.roots) (hcount : t.roots.length + count = roots.length) :
      Effect t (.request (.track symbol)) (.ok (.response (.tracked (.added new)))) roots
        [.rootsAdded count]
  | untracked {n : Node} {roots : Roots} {count : Nat}
      (hroots : roots = t.roots.filter fun m => m.key ≠ n.key)
      (hcount : roots.length + count = t.roots.length) :
      Effect t (.request (.untrack n)) (.ok (.response (.untracked count))) roots [.rootRemoved]
  | cleared : Effect t (.request .clear) (.ok (.response .cleared)) [] [.cleared]
  | children {n : Node} {nodes : Except ToolFailure (List Node)}
      (hnodes : ((p.children n).play tools t.tools).outcome = nodes) :
      Effect t (.children n) (nodes.map .nodes) t.roots []
  | render {depth : Nat} {n : Node} {branch : Except ToolFailure Branch}
      (hbranch : ((p.render p.root depth n).play tools t.tools).outcome = branch) :
      Effect t (.render depth n) (branch.map .branch) t.roots []

-- Operations one after another, each with its effect on what the ones before it left.
inductive History : Tree σ → List Operation → List (Except ToolFailure Answer) → List Change →
    Tree σ → Prop
  | nil (t : Tree σ) : History t [] [] [] t
  | cons {t t' : Tree σ} {op : Operation} {ops : List Operation}
      {answers : List (Except ToolFailure Answer)} {roots : Roots} {changes later : List Change}
      (first : t.Effect p tools op (t.perform p tools op).value roots changes)
      (rest : History ⟨roots, (t.after p tools op).tools⟩ ops answers later t') :
      History t (op :: ops) ((t.perform p tools op).value :: answers) (changes ++ later) t'

theorem perform_request (t : Tree σ) (r : Request) :
    t.perform p tools (.request r) = (t.ask p tools r).map (Except.map .response) := by
  have hplay := Dialogue.play_bind_done tools (t.roots.fulfil p r)
    (fun u => u.map (Except.map Answer.response)) t.tools
  refine (congrArg (fun played => Update.ofOutcome played.outcome) hplay).trans ?_
  rw [ask]
  cases ((t.roots.fulfil p r).play tools t.tools).outcome <;> rfl

-- What is looked up does not touch the roots, whether it is found or not.
theorem ofOutcome_look {α : Type} (t : Tree σ) (d : Dialogue α) (answer : α → Answer) :
    Update.ofOutcome (((t.roots.look d).bind fun u =>
        .done (u.map (Except.map answer))).play tools t.tools).outcome =
      ⟨(d.play tools t.tools).outcome.map answer, t.roots, []⟩ := by
  have hlook := Dialogue.play_bind_done tools d.attempt
    (fun ended => (⟨ended, t.roots, []⟩ : Update (Except ToolFailure α))) t.tools
  rw [Dialogue.play_attempt] at hlook
  rw [Dialogue.play_bind_done]
  exact congrArg
    (fun played => Update.ofOutcome (played.outcome.map (Update.map (Except.map answer)))) hlook

theorem effect_track (t : Tree σ) (symbol : String) :
    t.Effect p tools (.request (.track symbol)) (t.perform p tools (.request (.track symbol))).value
      (t.perform p tools (.request (.track symbol))).roots
      (t.perform p tools (.request (.track symbol))).changes := by
  rw [perform_request, ask_track]
  cases hfound : t.found p tools symbol with
  | error failure => exact .failed (queryFails_of_found p tools hfound)
  | ok os =>
    by_cases hnodes : (Target.symbol symbol).nodes symbol os true = []
    · simp only [hnodes]
      exact .nothing hfound hnodes
    · by_cases hnew : t.roots.fresh ((Target.symbol symbol).nodes symbol os true) = []
      · simp only [Roots.commit_of_fresh_nil hnodes hnew]
        exact .known hfound hnodes hnew
      · simp only [Roots.commit_of_fresh_ne_nil hnew]
        refine .added hfound rfl hnew rfl ?_
        show _ = (t.roots.fresh _ ++ t.roots).length
        rw [List.length_append, Nat.add_comm]

theorem effect_perform (t : Tree σ) (op : Operation) :
    t.Effect p tools op (t.perform p tools op).value (t.perform p tools op).roots
      (t.perform p tools op).changes := by
  cases op with
  | request r =>
    cases r with
    | track symbol => exact effect_track p tools t symbol
    | untrack n =>
      have hcount := t.roots.untrack_value_add n.key
      exact .untracked rfl (by rw [Nat.add_comm]; exact hcount)
    | clear => exact .cleared
  | children n =>
    have hperform : t.perform p tools (.children n) = _ :=
      ofOutcome_look tools t (p.children n) .nodes
    rw [hperform]
    exact .children rfl
  | render depth n =>
    have hperform : t.perform p tools (.render depth n) = _ :=
      ofOutcome_look tools t (p.render p.root depth n) .branch
    rw [hperform]
    exact .render rfl

end Tree

-- A tree with the channel on which it tells of its changes.
structure Watched (σ : Type) where
  tree : Tree σ
  channel : Channel

namespace Watched

variable {σ : Type} (p : Project) (tools : Toolbox σ)

def next (w : Watched σ) (op : Operation) : Watched σ :=
  ⟨w.tree.after p tools op, w.channel.send (w.tree.perform p tools op).changes⟩

def run (w : Watched σ) (ops : List Operation) : Watched σ := ops.foldl (next p tools) w

theorem run_cons (w : Watched σ) (op : Operation) (ops : List Operation) :
    run p tools w (op :: ops) = run p tools (w.next p tools op) ops := rfl

-- A run is a history of effects, and its channel has sent what the effects tell, no more and
-- no less.
theorem exists_history (w : Watched σ) (ops : List Operation) :
    ∃ answers changes,
      Tree.History p tools w.tree ops answers changes (run p tools w ops).tree ∧
        (run p tools w ops).channel = w.channel.send changes := by
  induction ops generalizing w with
  | nil => exact ⟨[], [], .nil w.tree, rfl⟩
  | cons op ops ih =>
    obtain ⟨answers, later, hhistory, hchannel⟩ := ih (w.next p tools op)
    refine ⟨_, _, .cons (w.tree.effect_perform p tools op) hhistory, ?_⟩
    rw [run_cons, hchannel, next, Channel.send_append]

-- Whatever is done with a tree, and wherever the tools fail, the roots are what the effects of the
-- operations make of them, and a listener has waiting for it what these effects tell: one change
-- for each that adds, takes away or clears, in their order, and none for a look or a failure. It
-- gets them all as long as no more are waiting than the channel keeps.
theorem run_delivered (w : Watched σ) (ops : List Operation) (listener : String) :
    ∃ answers changes,
      Tree.History p tools w.tree ops answers changes (run p tools w ops).tree ∧
        (run p tools w ops).channel.pending? listener =
          (w.channel.pending? listener).map (· ++ changes) ∧
        ∀ waiting, w.channel.pending? listener = some waiting →
          (waiting ++ changes).length ≤ w.channel.capacity →
            (run p tools w ops).channel.deliveries listener (waiting ++ changes).length =
              (waiting ++ changes).map .change := by
  obtain ⟨answers, changes, hhistory, hchannel⟩ := exists_history p tools w ops
  have hpending := Channel.pending?_send w.channel changes listener
  refine ⟨answers, changes, hhistory, ?_, fun waiting hwaiting hlength => ?_⟩
  · rw [hchannel, hpending]
  · rw [hwaiting] at hpending
    rw [hchannel]
    exact Channel.deliveries_eq hpending (by rwa [Channel.send_capacity])

-- The second query for one symbol fails, and nothing is found for any other.
def brokenTools : Script :=
  [⟨⟨"global", ["-sx", "gone"]⟩, .error (.exited "global" (some 1) "no tags"), none⟩]

def brokenRun : List Operation :=
  [.request (.track "gone"), .request (.track "lost"), .request (.track "lost"),
    .render 2 (Node.placeholder "lost"), .children (Node.placeholder "gone"),
    .request (.untrack (Node.placeholder "lost")), .request .clear]

theorem run_delivered_brokenRun :
    let w : Watched Script := ⟨⟨[], brokenTools⟩, (Channel.empty 4).subscribe "view"⟩
    w.channel.pending? "view" = some [] ∧
      (run Tree.standard Script.toolbox w brokenRun).channel.deliveries "view" 3 =
        [.change (.rootsAdded 1), .change .rootRemoved, .change .cleared] := by
  intro w
  have hwaiting : w.channel.pending? "view" = some [] := by decide
  have hpending : (run Tree.standard Script.toolbox w brokenRun).channel.pending? "view" =
      some [.rootsAdded 1, .rootRemoved, .cleared] := by decide +kernel
  obtain ⟨answers, changes, -, hsent, hdeliveries⟩ :=
    run_delivered Tree.standard Script.toolbox w brokenRun "view"
  have hchanges : changes = [.rootsAdded 1, .rootRemoved, .cleared] := by
    rw [hpending, hwaiting] at hsent
    exact (Option.some.inj hsent).symm
  subst hchanges
  exact ⟨hwaiting, hdeliveries [] hwaiting (by decide)⟩

end Watched

end Concordance
