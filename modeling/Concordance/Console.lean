import Concordance.Tool.Dialogue
import Concordance.Workspace
namespace Concordance

inductive CommandError where
  | noWorkspace (e : NoWorkspace)
  | settings
  | tool (failure : ToolFailure)
  | completionDisabled
  | listingFailed (cause : String)
  | checksFailed (count : Nat)
deriving DecidableEq, Repr

def CommandError.message : CommandError → String
  | noWorkspace e => e.message
  | settings => "Failed to load configuration"
  | tool failure => failure.message
  | completionDisabled =>
    "Completion is disabled; set `completion = true` in the configuration"
  | listingFailed cause => "Completion listing failed: " ++ cause
  | checksFailed count => toString count ++ " check(s) failed"

-- What was printed in the end, and with which value or error it ended.
structure Outcome (α : Type) where
  stdout : String
  result : Except CommandError α

-- A computation that asks external tools and prints. An error ends it, and what was printed
-- before that stays printed.
structure Console (α : Type) where
  dialogue : Dialogue (Outcome α)

namespace Console

variable {α β : Type}

def done (value : α) : Console α := ⟨.done ⟨"", .ok value⟩⟩

def fail (e : CommandError) : Console α := ⟨.done ⟨"", .error e⟩⟩

def print (text : String) : Console Unit := ⟨.done ⟨text, .ok ()⟩⟩

-- Goes on from what was printed first, unless that ended with an error.
def resume (f : α → Console β) (first : Outcome α) : Dialogue (Outcome β) :=
  match first.result with
  | .error e => .done ⟨first.stdout, .error e⟩
  | .ok value =>
    (f value).dialogue.bind fun second => .done ⟨first.stdout ++ second.stdout, second.result⟩

def bind (c : Console α) (f : α → Console β) : Console β := ⟨c.dialogue.bind (resume f)⟩

instance : Monad Console where
  pure := done
  bind := bind

-- Holds a dialogue to its end; its failure ends the computation.
def hold (d : Dialogue α) : Console α :=
  ⟨d.attempt.bind fun ended => .done ⟨"", ended.mapError .tool⟩⟩

instance : MonadLift Dialogue Console := ⟨hold⟩

end Console

end Concordance
