import Concordance.Proofs.Tool.Dialogue
import Concordance.Roots

namespace Concordance

-- What a user asks of the tree.
inductive Request where
  | track (symbol : String)
  | untrack (n : Node)
  | clear
deriving DecidableEq, Repr

-- What the user is told.
inductive Response where
  | tracked (outcome : TrackOutcome)
  | untracked (count : Nat)
  | cleared
deriving DecidableEq, Repr

def Roots.fulfil (p : Project) (roots : Roots) :
    Request → Dialogue (Update (Except ToolFailure Response))
  | .track symbol => do
    let u ← roots.track p symbol
    pure (u.map (Except.map .tracked))
  | .untrack n => pure ((roots.untrack n.key).map fun count => .ok (.untracked count))
  | .clear => pure (clear.map fun _ => .ok .cleared)

-- The update in which an operation ended. One that failed by itself would lose all the roots.
def Update.ofOutcome {α : Type} :
    Except ToolFailure (Update (Except ToolFailure α)) → Update (Except ToolFailure α)
  | .ok u => u
  | .error failure => ⟨.error failure, [], []⟩

theorem Project.play_expand_outcome {σ : Type} (p : Project) (tools : Toolbox σ) (t : Target)
    (isRoot : Bool) (s : σ) :
    ((p.expand t isRoot).play tools s).outcome =
      ((p.references t.name).play tools s).outcome.map fun os => t.nodes t.name os isRoot :=
  congrArg Transcript.outcome (Dialogue.play_bind_done tools (p.references t.name)
    (fun os => t.nodes t.name os isRoot) s)

-- Tracking asks what the expansion asks, and then settles.
theorem Roots.play_track {σ : Type} (p : Project) (tools : Toolbox σ) (roots : Roots)
    (symbol : String) (s : σ) :
    (roots.track p symbol).play tools s =
      let asked := (p.expand (.symbol symbol) true).play tools s
      ⟨.ok (roots.settle asked.outcome), asked.calls, asked.notices, asked.state⟩ := by
  refine (Dialogue.play_bind_done tools _ roots.settle s).trans ?_
  rw [Dialogue.play_attempt]
  rfl

theorem Roots.play_fulfil_track {σ : Type} (p : Project) (tools : Toolbox σ) (roots : Roots)
    (symbol : String) (s : σ) :
    (roots.fulfil p (.track symbol)).play tools s =
      let asked := (p.expand (.symbol symbol) true).play tools s
      ⟨.ok ((roots.settle asked.outcome).map (Except.map .tracked)), asked.calls, asked.notices,
        asked.state⟩ := by
  refine (Dialogue.play_bind_done tools (roots.track p symbol)
    (fun u => u.map (Except.map Response.tracked)) s).trans ?_
  rw [play_track]
  rfl

-- The roots and the state of the tools between two requests.
structure Tree (σ : Type) where
  roots : Roots
  tools : σ
deriving DecidableEq, Repr

namespace Tree

variable {σ : Type} (p : Project) (tools : Toolbox σ)

def ask (t : Tree σ) (r : Request) : Update (Except ToolFailure Response) :=
  .ofOutcome ((t.roots.fulfil p r).play tools t.tools).outcome

def next (t : Tree σ) (r : Request) : Tree σ :=
  ⟨(t.ask p tools r).roots, ((t.roots.fulfil p r).play tools t.tools).state⟩

-- Any sequence of requests, whatever the tools answer.
def run (t : Tree σ) (requests : List Request) : Tree σ :=
  requests.foldl (next p tools) t

@[simp] theorem run_nil (t : Tree σ) : run p tools t [] = t := rfl

theorem run_append_singleton (t : Tree σ) (requests : List Request) (r : Request) :
    run p tools t (requests ++ [r]) = (run p tools t requests).next p tools r := by
  simp [run]

-- What the reference query for a symbol finds when it is asked now.
def found (t : Tree σ) (symbol : String) : Except ToolFailure (List Occurrence) :=
  ((p.references symbol).play tools t.tools).outcome

theorem ask_track (t : Tree σ) (symbol : String) :
    t.ask p tools (.track symbol) =
      match t.found p tools symbol with
      | .ok os =>
        (t.roots.commit ((Target.symbol symbol).nodes symbol os true)).map fun outcome =>
          .ok (.tracked outcome)
      | .error failure => ⟨.error failure, t.roots, []⟩ := by
  rw [ask, Roots.play_fulfil_track]
  dsimp only
  rw [Project.play_expand_outcome, Target.name, found]
  cases ((p.references symbol).play tools t.tools).outcome <;> rfl

theorem ask_untrack (t : Tree σ) (n : Node) :
    t.ask p tools (.untrack n) =
      (t.roots.untrack n.key).map fun count => .ok (.untracked count) := rfl

theorem next_track_roots (t : Tree σ) (symbol : String) :
    (t.next p tools (.track symbol)).roots =
      match t.found p tools symbol with
      | .ok os => (t.roots.commit ((Target.symbol symbol).nodes symbol os true)).roots
      | .error _ => t.roots := by
  rw [next, ask_track]
  cases t.found p tools symbol <;> rfl

@[simp] theorem next_untrack_roots (t : Tree σ) (n : Node) :
    (t.next p tools (.untrack n)).roots = (t.roots.untrack n.key).roots := rfl

@[simp] theorem next_clear_roots (t : Tree σ) : (t.next p tools .clear).roots = [] := rfl

end Tree

end Concordance
