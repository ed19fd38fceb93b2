import Concordance.Tool.Dialogue

namespace Concordance

-- Invocations with their answers, as tools give them one after another from a state on, and
-- the state in which this leaves the tools.
inductive Toolbox.Answers {σ : Type} (tools : Toolbox σ) : σ → List (Invocation × Reply) → σ → Prop
  | nil (s : σ) : Answers tools s [] s
  | cons {s middle s' : σ} {call : Invocation} {reply : Reply} {asked : List (Invocation × Reply)}
      (hrun : tools.run call s = (reply, middle)) (rest : Answers tools middle asked s') :
      Answers tools s ((call, reply) :: asked) s'

-- Tools that answer an invocation alike whatever was asked before.
def Toolbox.Stateless {σ : Type} (tools : Toolbox σ) : Prop :=
  ∀ call s s', (tools.run call s).1 = (tools.run call s').1

theorem Toolbox.Answers.run_eq {σ : Type} {tools : Toolbox σ} (h : tools.Stateless) {s s' : σ}
    {asked : List (Invocation × Reply)} (hanswers : tools.Answers s asked s') {call : Invocation}
    {reply : Reply} (hmem : (call, reply) ∈ asked) (t : σ) : (tools.run call t).1 = reply := by
  induction hanswers with
  | nil s => exact absurd hmem List.not_mem_nil
  | cons hrun rest ih =>
    rcases List.mem_cons.mp hmem with hhead | htail
    · cases hhead
      rw [h call t _, hrun]
    · exact ih htail

namespace Dialogue

variable {α β σ : Type}

theorem bind_eq_bind (d : Dialogue α) (f : α → Dialogue β) : d >>= f = d.bind f := rfl

theorem pure_eq_done (value : α) : (pure value : Dialogue α) = done value := rfl

-- A dialogue whose value is only reshaped at its end is played like the dialogue itself.
theorem play_bind_done (tools : Toolbox σ) (d : Dialogue α) (f : α → β) (s : σ) :
    (d.bind (fun value => done (f value))).play tools s =
      ⟨(d.play tools s).outcome.map f, (d.play tools s).calls, (d.play tools s).notices,
        (d.play tools s).state⟩ := by
  rw [play_bind]
  cases h : (d.play tools s).outcome with
  | error failure => simp [Except.map]
  | ok value => simp [Except.map, play]

theorem play_bind_ok {tools : Toolbox σ} {d : Dialogue α} {s s' : σ} {value : α}
    {calls : List Invocation} {notices : List Notice}
    (h : d.play tools s = ⟨.ok value, calls, notices, s'⟩) (f : α → Dialogue β) :
    (d.bind f).play tools s =
      ⟨((f value).play tools s').outcome, calls ++ ((f value).play tools s').calls,
        notices ++ ((f value).play tools s').notices, ((f value).play tools s').state⟩ := by
  rw [play_bind, h]

theorem play_bind_error {tools : Toolbox σ} {d : Dialogue α} {s s' : σ} {failure : ToolFailure}
    {calls : List Invocation} {notices : List Notice}
    (h : d.play tools s = ⟨.error failure, calls, notices, s'⟩) (f : α → Dialogue β) :
    (d.bind f).play tools s = ⟨.error failure, calls, notices, s'⟩ := by
  rw [play_bind, h]

-- A value comes out of two parts only when the first of them gave one to the second.
theorem exists_of_play_bind_ok {tools : Toolbox σ} {d : Dialogue α} {f : α → Dialogue β} {s : σ}
    {result : β} (h : ((d.bind f).play tools s).outcome = .ok result) :
    ∃ value, (d.play tools s).outcome = .ok value ∧
      ((f value).play tools (d.play tools s).state).outcome = .ok result := by
  rw [play_bind] at h
  cases houtcome : (d.play tools s).outcome with
  | error failure =>
    rw [houtcome] at h
    cases h
  | ok value =>
    rw [houtcome] at h
    exact ⟨value, rfl, h⟩

theorem play_ask {tools : Toolbox σ} {call : Invocation} {s s' : σ} {reply : Reply}
    (hrun : tools.run call s = (reply, s')) :
    (ask call).play tools s = ⟨reply, [call], [], s'⟩ := by
  cases reply with
  | error failure => simp [ask, play, hrun]
  | ok output => simp [ask, play, hrun]

theorem play_tryAsk {tools : Toolbox σ} {call : Invocation} {s s' : σ} {reply : Reply}
    (hrun : tools.run call s = (reply, s')) :
    (tryAsk call).play tools s = ⟨.ok reply, [call], [], s'⟩ := by
  simp [tryAsk, play, hrun]

-- An attempt is the dialogue itself, with its end as the value.
theorem play_attempt (tools : Toolbox σ) (d : Dialogue α) (s : σ) :
    d.attempt.play tools s =
      ⟨.ok (d.play tools s).outcome, (d.play tools s).calls, (d.play tools s).notices,
        (d.play tools s).state⟩ := by
  induction d generalizing s with
  | done value => rfl
  | failed failure => rfl
  | run call next ih => simp only [attempt, play, ih]
  | list call next ih => simp only [attempt, play, ih]
  | warn notice next ih => simp only [attempt, play, ih]

-- An attempt whose failure is passed on is none.
theorem attempt_bind {f : Except ToolFailure α → Dialogue β}
    (h : ∀ failure, f (.error failure) = failed failure) (d : Dialogue α) :
    d.attempt.bind f = d.bind fun value => f (.ok value) := by
  induction d with
  | done value => rfl
  | failed failure => exact h failure
  | run call next ih => exact congrArg (run call) (funext ih)
  | list call next ih => exact congrArg (list call) (funext ih)
  | warn notice next ih => exact congrArg (warn notice) ih

theorem play_notifyAll (tools : Toolbox σ) (notices : List Notice) (s : σ) :
    (notifyAll notices).play tools s = ⟨.ok (), [], notices, s⟩ := by
  induction notices with
  | nil => rfl
  | cons notice notices ih => rw [notifyAll, play, ih]

-- Whatever the tools answer, a value that comes out is as it should be.
def Yields (P : α → Prop) : Dialogue α → Prop
  | done value => P value
  | failed _ => True
  | run _ next => ∀ reply, Yields P (next reply)
  | list _ next => ∀ reply, Yields P (next reply)
  | warn _ next => Yields P next

theorem yields_trivial (d : Dialogue α) : d.Yields fun _ => True := by
  induction d with
  | done value => trivial
  | failed failure => trivial
  | run call next ih => exact ih
  | list call next ih => exact ih
  | warn notice next ih => exact ih

theorem Yields.bind {P : α → Prop} {Q : β → Prop} {d : Dialogue α} {f : α → Dialogue β}
    (h : d.Yields P) (hf : ∀ value, P value → (f value).Yields Q) : (d.bind f).Yields Q := by
  induction d with
  | done value => exact hf value h
  | failed failure => trivial
  | run call next ih => exact fun reply => ih reply (h reply)
  | list call next ih => exact fun reply => ih reply (h reply)
  | warn notice next ih => exact ih h

theorem Yields.forEach {P : β → Prop} {f : α → Dialogue β} (h : ∀ value, (f value).Yields P)
    (values : List α) : (Dialogue.forEach f values).Yields fun results => ∀ r ∈ results, P r := by
  induction values with
  | nil => exact fun r hr => absurd hr List.not_mem_nil
  | cons value values ih =>
    refine (h value).bind fun first hfirst => ih.bind fun rest hrest => ?_
    exact List.forall_mem_cons.mpr ⟨hfirst, hrest⟩

theorem Yields.of_play {P : α → Prop} {d : Dialogue α} (h : d.Yields P) {tools : Toolbox σ} {s : σ}
    {value : α} (hplay : (d.play tools s).outcome = .ok value) : P value := by
  induction d generalizing s with
  | done first =>
    cases hplay
    exact h
  | failed failure => cases hplay
  | run call next ih => exact ih _ (h _) hplay
  | list call next ih => exact ih _ (h _) hplay
  | warn notice next ih => exact ih h hplay

-- Whatever the tools answer, there is a value in the end, and it is as it should be.
def Ends (P : α → Prop) : Dialogue α → Prop
  | done value => P value
  | failed _ => False
  | run _ next => ∀ reply, Ends P (next reply)
  | list _ next => ∀ reply, Ends P (next reply)
  | warn _ next => Ends P next

theorem Ends.bind {P : α → Prop} {Q : β → Prop} {d : Dialogue α} {f : α → Dialogue β}
    (h : d.Ends P) (hf : ∀ value, P value → (f value).Ends Q) : (d.bind f).Ends Q := by
  induction d with
  | done value => exact hf value h
  | failed failure => exact h.elim
  | run call next ih => exact fun reply => ih reply (h reply)
  | list call next ih => exact fun reply => ih reply (h reply)
  | warn notice next ih => exact ih h

theorem Ends.exists_value {P : α → Prop} {d : Dialogue α} (h : d.Ends P) (tools : Toolbox σ)
    (s : σ) : ∃ value, (d.play tools s).outcome = .ok value ∧ P value := by
  induction d generalizing s with
  | done value => exact ⟨value, rfl, h⟩
  | failed failure => exact h.elim
  | run call next ih => exact ih _ (h _) _
  | list call next ih => exact ih _ (h _) _
  | warn notice next ih => exact ih h s

end Dialogue

-- Tools that answer what they are told to, one pair of answers for each invocation.
def Toolbox.told : Toolbox (List (Reply × ListingReply)) where
  run
    | _, [] => (.ok "", [])
    | _, (reply, _) :: rest => (reply, rest)
  list
    | call, [] => (.error (.notStarted call.program ""), [])
    | _, (_, reply) :: rest => (reply, rest)

namespace Dialogue

-- Every answer can be told to the tools beforehand, so that nothing but their runs has to be
-- looked at.
theorem yields_of_told {P : α → Prop} {d : Dialogue α}
    (h : ∀ s value, (d.play Toolbox.told s).outcome = .ok value → P value) : d.Yields P := by
  induction d with
  | done value => exact h [] value rfl
  | failed failure => trivial
  | run call next ih =>
    intro reply
    exact ih reply fun s value hvalue => h ((reply, .error (.notStarted "" "")) :: s) value hvalue
  | list call next ih =>
    intro reply
    exact ih reply fun s value hvalue => h ((.ok "", reply) :: s) value hvalue
  | warn notice next ih => exact ih h

end Dialogue

end Concordance
