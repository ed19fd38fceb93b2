import Concordance.Console
import Concordance.Proofs.Tool.Faults

namespace Concordance.Console

variable {α β σ : Type}

-- A dialogue that is held prints nothing, so that what follows it stands alone. Its failure is all
-- that there is in the end.
theorem hold_bind (d : Dialogue α) (f : α → Console β) :
    ((hold d).bind f).dialogue = d.attempt.bind fun ended =>
      match ended with
      | .error failure => (fail (.tool failure)).dialogue
      | .ok value => (f value).dialogue := by
  have hsame : (fun last : Outcome β => Dialogue.done ⟨"" ++ last.stdout, last.result⟩) = .done :=
    funext fun last =>
      congrArg (fun text => Dialogue.done (Outcome.mk text last.result)) String.empty_append
  rw [bind, hold, Dialogue.bind_assoc]
  refine congrArg d.attempt.bind (funext fun ended => ?_)
  cases ended with
  | error failure => rfl
  | ok value => exact (congrArg (f value).dialogue.bind hsame).trans (Dialogue.bind_done _)

variable (tools : Toolbox σ)

theorem play_hold_bind (d : Dialogue α) (f : α → Console β) (s : σ) :
    (((hold d).bind f).dialogue.play tools s).outcome =
      match (d.play tools s).outcome with
      | .error failure => .ok ⟨"", .error (.tool failure)⟩
      | .ok value => ((f value).dialogue.play tools (d.play tools s).state).outcome := by
  rw [hold_bind, Dialogue.play_bind, Dialogue.play_attempt]
  cases (d.play tools s).outcome <;> rfl

theorem faults_hold_bind (d : Dialogue α) (f : α → Console β) (s : σ) :
    ((hold d).bind f).dialogue.faults tools s = d.faults tools s ++
      match (d.play tools s).outcome with
      | .error _ => []
      | .ok value => (f value).dialogue.faults tools (d.play tools s).state := by
  rw [hold_bind, Dialogue.faults_bind, Dialogue.faults_attempt, Dialogue.play_attempt]
  cases (d.play tools s).outcome <;> rfl

-- What was printed before an error stays printed.
theorem play_print_bind_fail (text : String) (e : CommandError) (s : σ) :
    (((print text).bind fun _ => (fail e : Console β)).dialogue.play tools s).outcome =
      .ok ⟨text, .error e⟩ :=
  congrArg (fun text => Except.ok (Outcome.mk text (.error e))) String.append_empty

theorem play_print_bind_done (text : String) (value : β) (s : σ) :
    (((print text).bind fun _ => done value).dialogue.play tools s).outcome =
      .ok ⟨text, .ok value⟩ :=
  congrArg (fun text => Except.ok (Outcome.mk text (.ok value))) String.append_empty

end Concordance.Console
