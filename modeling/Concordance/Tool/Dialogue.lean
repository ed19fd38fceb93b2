import Concordance.Notice
import Concordance.Tool.Invocation
namespace Concordance

-- A computation that asks external tools: it ends with a value or a failure, or it runs
-- a tool and goes on with the answer, whatever that is.
inductive Dialogue (α : Type) : Type where
  | done (value : α)
  | failed (failure : ToolFailure)
  | run (call : Invocation) (next : Reply → Dialogue α)
  | list (call : Invocation) (next : ListingReply → Dialogue α)
  | warn (notice : Notice) (next : Dialogue α)

namespace Dialogue

variable {α β γ σ : Type}

def bind (d : Dialogue α) (f : α → Dialogue β) : Dialogue β :=
  match d with
  | done value => f value
  | failed failure => failed failure
  | run call next => run call (fun reply => (next reply).bind f)
  | list call next => list call (fun reply => (next reply).bind f)
  | warn notice next => warn notice (next.bind f)

instance : Monad Dialogue where
  pure := done
  bind := bind

-- Runs a tool; its failure ends the dialogue.
def ask (call : Invocation) : Dialogue String :=
  run call fun
    | .ok output => done output
    | .error failure => failed failure

-- Runs a tool; its failure is an answer like any other.
def tryAsk (call : Invocation) : Dialogue Reply :=
  run call done

def listing (call : Invocation) : Dialogue ListingReply :=
  list call done

def notify (notice : Notice) : Dialogue Unit :=
  warn notice (done ())

def notifyAll : List Notice → Dialogue Unit
  | [] => done ()
  | notice :: notices => warn notice (notifyAll notices)

def forEach (f : α → Dialogue β) : List α → Dialogue (List β)
  | [] => done []
  | x :: xs => (f x).bind fun y => (forEach f xs).bind fun ys => done (y :: ys)

-- A dialogue whose failure has become a value.
def attempt : Dialogue α → Dialogue (Except ToolFailure α)
  | done value => done (.ok value)
  | failed failure => done (.error failure)
  | run call next => run call (fun reply => (next reply).attempt)
  | list call next => list call (fun reply => (next reply).attempt)
  | warn notice next => warn notice next.attempt

end Dialogue

-- Tools whose answers may depend on all that was asked before.
structure Toolbox (σ : Type) where
  run : Invocation → σ → Reply × σ
  list : Invocation → σ → ListingReply × σ

-- A dialogue held to its end: how it ended, what it asked, what it warned of, and the
-- state in which it left the tools.
structure Transcript (σ α : Type) where
  outcome : Except ToolFailure α
  calls : List Invocation
  notices : List Notice
  state : σ

namespace Dialogue

variable {α β γ σ : Type}

def play (tools : Toolbox σ) : Dialogue α → σ → Transcript σ α
  | done value, s => ⟨.ok value, [], [], s⟩
  | failed failure, s => ⟨.error failure, [], [], s⟩
  | run call next, s =>
    let (reply, s') := tools.run call s
    let t := (next reply).play tools s'
    { t with calls := call :: t.calls }
  | list call next, s =>
    let (reply, s') := tools.list call s
    let t := (next reply).play tools s'
    { t with calls := call :: t.calls }
  | warn notice next, s =>
    let t := next.play tools s
    { t with notices := notice :: t.notices }

theorem bind_assoc (d : Dialogue α) (f : α → Dialogue β) (g : β → Dialogue γ) :
    (d.bind f).bind g = d.bind (fun value => (f value).bind g) := by
  induction d with
  | done value => rfl
  | failed failure => rfl
  | run call next ih => simp only [bind]; congr 1; funext reply; exact ih reply
  | list call next ih => simp only [bind]; congr 1; funext reply; exact ih reply
  | warn notice next ih => simp only [bind, ih]

theorem bind_done (d : Dialogue α) : d.bind done = d := by
  induction d with
  | done value => rfl
  | failed failure => rfl
  | run call next ih => exact congrArg (run call) (funext ih)
  | list call next ih => exact congrArg (list call) (funext ih)
  | warn notice next ih => exact congrArg (warn notice) ih

-- Playing one dialogue after another goes on where the first one stopped.
theorem play_bind (tools : Toolbox σ) (d : Dialogue α) (f : α → Dialogue β) (s : σ) :
    (d.bind f).play tools s =
      match (d.play tools s).outcome with
      | .error failure =>
        ⟨.error failure, (d.play tools s).calls, (d.play tools s).notices,
          (d.play tools s).state⟩
      | .ok value =>
        let t := (f value).play tools (d.play tools s).state
        ⟨t.outcome, (d.play tools s).calls ++ t.calls,
          (d.play tools s).notices ++ t.notices, t.state⟩ := by
  induction d generalizing s with
  | done value => simp [bind, play]
  | failed failure => simp [bind, play]
  | run call next ih => simp only [bind, play, ih]; split <;> simp
  | list call next ih => simp only [bind, play, ih]; split <;> simp
  | warn notice next ih => simp only [bind, play, ih]; split <;> simp

end Dialogue

end Concordance
