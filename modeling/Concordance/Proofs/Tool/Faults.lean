import Concordance.Proofs.Tool.Dialogue

namespace Concordance

-- A listing is good when its tool was started and succeeded.
def Listing.good : ListingReply → Bool
  | .ok l => l.succeeded
  | .error _ => false

namespace Dialogue

variable {α β σ : Type} (tools : Toolbox σ)

-- The invocations that failed when a dialogue was held to its end, in the order in which they
-- were made.
def faults : Dialogue α → σ → List Invocation
  | done _, _ => []
  | failed _, _ => []
  | run call next, s =>
    let (reply, s') := tools.run call s
    let rest := (next reply).faults s'
    if reply.isOk then rest else call :: rest
  | list call next, s =>
    let (reply, s') := tools.list call s
    let rest := (next reply).faults s'
    if Listing.good reply then rest else call :: rest
  | warn _ next, s => next.faults s

theorem faults_bind (d : Dialogue α) (f : α → Dialogue β) (s : σ) :
    (d.bind f).faults tools s = d.faults tools s ++
      match (d.play tools s).outcome with
      | .error _ => []
      | .ok value => (f value).faults tools (d.play tools s).state := by
  induction d generalizing s with
  | done value => simp [bind, play, faults]
  | failed failure => simp [bind, play, faults]
  | run call next ih => simp only [bind, play, faults, ih]; split <;> simp
  | list call next ih => simp only [bind, play, faults, ih]; split <;> simp
  | warn notice next ih => simp only [bind, play, faults, ih]

theorem faults_notifyAll (notices : List Notice) (s : σ) :
    (notifyAll notices).faults tools s = [] := by
  induction notices with
  | nil => rfl
  | cons notice notices ih => exact ih

theorem faults_attempt (d : Dialogue α) (s : σ) : d.attempt.faults tools s = d.faults tools s := by
  induction d generalizing s with
  | done value => rfl
  | failed failure => rfl
  | run call next ih => simp only [attempt, faults, ih]
  | list call next ih => simp only [attempt, faults, ih]
  | warn notice next ih => simp only [attempt, faults, ih]

-- A dialogue fails when one of the decisive invocations does, however early or late that is,
-- and at no other time.
def FailsOn (decisive : Invocation → Prop) (d : Dialogue α) : Prop :=
  ∀ s, (∃ failure, (d.play tools s).outcome = .error failure) ↔
    ∃ call ∈ d.faults tools s, decisive call

variable {tools} {decisive : Invocation → Prop} {d : Dialogue α} {f : α → Dialogue β}

theorem failsOn_done (value : α) : (done value).FailsOn tools decisive := by
  intro s
  simp [play, faults]

theorem failsOn_ask {call : Invocation} (h : decisive call) :
    (ask call).FailsOn tools decisive := by
  intro s
  rcases hrun : tools.run call s with ⟨reply, s'⟩
  cases reply with
  | ok output => simp [ask, play, faults, hrun, Except.isOk, Except.toBool]
  | error failure => simp [ask, play, faults, hrun, Except.isOk, Except.toBool, h]

theorem failsOn_tryAsk {call : Invocation} (h : ¬ decisive call) :
    (tryAsk call).FailsOn tools decisive := by
  intro s
  rcases hrun : tools.run call s with ⟨reply, s'⟩
  cases reply with
  | ok output => simp [tryAsk, play, faults, hrun, Except.isOk, Except.toBool]
  | error failure => simp [tryAsk, play, faults, hrun, Except.isOk, Except.toBool, h]

theorem FailsOn.warn (h : d.FailsOn tools decisive) (notice : Notice) :
    (Dialogue.warn notice d).FailsOn tools decisive := by
  intro s
  simpa only [play, faults] using h s

theorem failsOn_notifyAll (notices : List Notice) :
    (notifyAll notices).FailsOn tools decisive := by
  intro s
  simp [play_notifyAll, faults_notifyAll]

theorem FailsOn.bind (h : d.FailsOn tools decisive)
    (hf : ∀ value, (f value).FailsOn tools decisive) : (d.bind f).FailsOn tools decisive := by
  intro s
  rw [play_bind, faults_bind]
  cases houtcome : (d.play tools s).outcome with
  | error failure =>
    obtain ⟨call, hcall, hdecisive⟩ := (h s).mp ⟨failure, houtcome⟩
    exact iff_of_true ⟨failure, rfl⟩ ⟨call, List.mem_append_left _ hcall, hdecisive⟩
  | ok value =>
    -- what came before the value was not decisive
    have hnone : ¬ ∃ call ∈ d.faults tools s, decisive call := by
      intro hsome
      obtain ⟨failure, hfailure⟩ := (h s).mpr hsome
      rw [houtcome] at hfailure
      cases hfailure
    refine (hf value _).trans ⟨?_, ?_⟩
    · rintro ⟨call, hcall, hdecisive⟩
      exact ⟨call, List.mem_append_right _ hcall, hdecisive⟩
    · rintro ⟨call, hcall, hdecisive⟩
      rcases List.mem_append.mp hcall with hbefore | hafter
      · exact absurd ⟨call, hbefore, hdecisive⟩ hnone
      · exact ⟨call, hafter, hdecisive⟩

theorem FailsOn.forEach (h : ∀ value, (f value).FailsOn tools decisive) (values : List α) :
    (Dialogue.forEach f values).FailsOn tools decisive := by
  induction values with
  | nil => exact failsOn_done []
  | cons value values ih => exact (h value).bind fun _ => ih.bind fun _ => failsOn_done _

end Dialogue

end Concordance
