import Mathlib.Data.List.Nodup
import Mathlib.Logic.Relation
import Concordance.Proofs.Completion.Tags

namespace Concordance.Completion

namespace Cache

theorem cancel_of_running {c : Cache} {task : Task} (h : c.task = some task)
    (hrun : task.ended = false) :
    c.cancel = { c with task := none, generation := c.generation + 1, status := .cancelled } := by
  unfold cancel
  rw [h]
  simp [hrun]

@[simp] theorem cancel_tags (c : Cache) : c.cancel.tags = c.tags := by
  unfold cancel
  split
  · rfl
  · split <;> rfl

@[simp] theorem addBatch_task (c : Cache) (generation : Nat) (lines : List String) :
    (c.addBatch generation lines).task = c.task := by
  unfold addBatch
  split <;> rfl

@[simp] theorem addBatch_generation (c : Cache) (generation : Nat) (lines : List String) :
    (c.addBatch generation lines).generation = c.generation := by
  unfold addBatch
  split <;> rfl

@[simp] theorem conclude_task (c : Cache) (generation : Nat) (ending : Ending) :
    (c.conclude generation ending).task = c.task := by
  unfold conclude
  split
  · cases ending <;> rfl
  · rfl

@[simp] theorem conclude_generation (c : Cache) (generation : Nat) (ending : Ending) :
    (c.conclude generation ending).generation = c.generation := by
  unfold conclude
  split
  · cases ending <;> rfl
  · rfl

theorem cancel_status_of_cancelled {c : Cache} (h : c.status = .cancelled) :
    c.cancel.status = .cancelled := by
  unfold cancel
  split
  · exact h
  · split
    · exact h
    · rfl

end Cache

namespace World

def cancel (w : World) : World := { w with cache := w.cache.cancel }

-- A step with which no listing starts. Of a wait only the first half is one, in which it takes
-- the task; whether it then goes on to the end of the task or is given up shows in no cache.
def Quiet (w w' : World) : Prop := Step w w' ∧ w'.jobs.length = w.jobs.length

-- The cancellation lasts, and with it the tags, until a listing starts.
def StaysCancelled (w : World) : Prop :=
  ∀ w', Relation.ReflTransGen Quiet w w' →
    w'.cache.status = .cancelled ∧ w'.cache.tags = w.cache.tags

-- Nothing that was started can write any more.
structure Over (w : World) : Prop where
  status : w.cache.status = .cancelled
  stale : ∀ job ∈ w.jobs, job.generation < w.cache.generation

-- The task that is held is the one of the generation, and it ends after its listing.
def Held (w : World) : Prop :=
  ∀ task, w.cache.task = some task →
    task.generation = w.cache.generation ∧
      (task.ended = true →
        ∃ job ∈ w.jobs, job.generation = task.generation ∧ job.reply.isSome = true)

theorem length_jobs_startWith (w : World) (call : Invocation) :
    (w.startWith call).jobs.length = w.jobs.length + 1 := by
  simp [startWith]

theorem Over.stale_of_replaced {cache cache' : Cache} {before after : List Job} {job job' : Job}
    (h : Over ⟨cache, before ++ job :: after⟩) (hgeneration : job'.generation = job.generation)
    (hsame : cache' = cache) : Over ⟨cache', before ++ job' :: after⟩ := by
  subst hsame
  refine ⟨h.status, fun other hother => ?_⟩
  rcases List.mem_append.mp hother with hbefore | hrest
  · exact h.stale other (List.mem_append_left _ hbefore)
  · rcases List.mem_cons.mp hrest with rfl | hafter
    · rw [hgeneration]
      exact h.stale job (by simp)
    · exact h.stale other (by simp [hafter])

theorem Over.quiet {w w' : World} (h : w.Over) (next : Quiet w w') :
    w'.Over ∧ w'.cache.tags = w.cache.tags := by
  obtain ⟨step, hjobs⟩ := next
  cases step with
  | start _ config =>
    cases hc : config.completion with
    | true =>
      rw [start_enabled w hc, length_jobs_startWith] at hjobs
      omega
    | false =>
      rw [start_disabled w hc]
      exact ⟨h, rfl⟩
  | startWith _ call =>
    rw [length_jobs_startWith] at hjobs
    omega
  | cancel =>
    refine ⟨⟨Cache.cancel_status_of_cancelled h.status, fun job hjob => ?_⟩, Cache.cancel_tags _⟩
    exact Nat.lt_of_lt_of_le (h.stale job hjob) w.cache.le_cancel_generation
  | takeTask => exact ⟨⟨h.status, h.stale⟩, rfl⟩
  | batch cache before after job lines hrun =>
    have hlt : job.generation < cache.generation := h.stale job (by simp)
    have hsame := Cache.addBatch_stale lines (Nat.ne_of_gt hlt)
    exact ⟨h.stale_of_replaced rfl hsame, congrArg Cache.tags hsame⟩
  | conclude cache before after job reply hrun hlisting =>
    have hlt : job.generation < cache.generation := h.stale job (by simp)
    have hsame := Cache.conclude_stale (Ending.ofReply reply) (Nat.ne_of_gt hlt)
    exact ⟨h.stale_of_replaced rfl hsame, congrArg Cache.tags hsame⟩
  | markEnded _ job hmem hended => exact ⟨⟨h.status, h.stale⟩, rfl⟩

theorem Over.staysCancelled {w : World} (h : w.Over) : w.StaysCancelled := by
  intro w' hsteps
  have hover : w'.Over ∧ w'.cache.tags = w.cache.tags := by
    induction hsteps with
    | refl => exact ⟨h, rfl⟩
    | tail _ next ih =>
      obtain ⟨hnext, htags⟩ := ih.1.quiet next
      exact ⟨hnext, htags.trans ih.2⟩
  exact ⟨hover.1.status, hover.2⟩

theorem Held.replaced {cache cache' : Cache} {before after : List Job} {job job' : Job}
    (h : Held ⟨cache, before ++ job :: after⟩) (hgeneration : job'.generation = job.generation)
    (hrun : job.reply = none) (htask : cache'.task = cache.task)
    (hsame : cache'.generation = cache.generation) : Held ⟨cache', before ++ job' :: after⟩ := by
  intro task hheld
  obtain ⟨hcurrent, hended⟩ := h task (htask ▸ hheld)
  refine ⟨hcurrent.trans hsame.symm, fun he => ?_⟩
  obtain ⟨other, hmem, hother, hreply⟩ := hended he
  have hne : other ≠ job := by
    rintro rfl
    simp [hrun] at hreply
  refine ⟨other, ?_, hother, hreply⟩
  have hrest : other ∈ before ∨ other ∈ after := by
    rcases List.mem_append.mp hmem with hbefore | hrest
    · exact Or.inl hbefore
    · exact Or.inr ((List.mem_cons.mp hrest).resolve_left hne)
  rcases hrest with hbefore | hafter
  · exact List.mem_append_left _ hbefore
  · exact List.mem_append_right _ (List.mem_cons_of_mem _ hafter)

theorem Held.startWith (w : World) (call : Invocation) : (w.startWith call).Held := by
  intro task hheld
  cases hheld
  exact ⟨rfl, nofun⟩

theorem held_of_none {w : World} (h : w.cache.task = none) : w.Held := by
  intro task hheld
  rw [h] at hheld
  cases hheld

theorem Step.held {w w' : World} (next : Step w w') (h : w.Held) : w'.Held := by
  cases next with
  | start _ config =>
    cases hc : config.completion with
    | true => rw [start_enabled w hc]; exact Held.startWith w _
    | false => rw [start_disabled w hc]; exact h
  | startWith _ call => exact Held.startWith w call
  | cancel => exact held_of_none (Cache.cancel_task w.cache)
  | takeTask => exact held_of_none rfl
  | batch cache before after job lines hrun =>
    exact h.replaced rfl hrun (cache.addBatch_task _ _) (cache.addBatch_generation _ _)
  | conclude cache before after job reply hrun hlisting =>
    exact h.replaced rfl hrun (cache.conclude_task _ _) (cache.conclude_generation _ _)
  | markEnded _ job hmem hended =>
    intro task hheld
    obtain ⟨held, hold, rfl⟩ := Option.map_eq_some_iff.mp hheld
    obtain ⟨hcurrent, hreplied⟩ := h held hold
    by_cases hjob : held.generation = job.generation
    · simp only [hjob, if_true]
      exact ⟨hjob ▸ hcurrent, fun _ => ⟨job, hmem, rfl, hended⟩⟩
    · simp only [hjob, if_false]
      exact ⟨hcurrent, hreplied⟩

theorem Reachable.held {w : World} (h : Reachable w) : w.Held := by
  induction h with
  | idle => exact held_of_none rfl
  | step _ next ih => exact next.held ih

theorem Sound.eq_of_generation {w : World} (h : w.Sound) {job other : Job} (hjob : job ∈ w.jobs)
    (hother : other ∈ w.jobs) (hsame : job.generation = other.generation) : job = other := by
  have hnodup : (w.jobs.map Job.generation).Nodup := h.ascending.imp fun hlt => Nat.ne_of_lt hlt
  exact List.inj_on_of_nodup_map hnodup hjob hother hsame

theorem Sound.exists_running {w : World} (h : w.Sound) (hrunning : w.cache.status = .running) :
    ∃ job ∈ w.jobs, job.generation = w.cache.generation ∧ job.reply = none := by
  have hlatest := h.latest
  cases hjob : w.latest? with
  | none =>
    rw [hjob] at hlatest
    rw [hlatest.1] at hrunning
    cases hrunning
  | some job =>
    rw [hjob] at hlatest
    refine ⟨job, List.mem_of_getLast? hjob, ?_, ?_⟩
    · by_contra hne
      have hcancelled := (hlatest.2.2.2 (Ne.symm hne)).1
      rw [hrunning] at hcancelled
      cases hcancelled
    · have hshows := hlatest.shows (by simp [hrunning])
      unfold Shows at hshows
      split at hshows
      · assumption
      · split at hshows
        · rw [hrunning] at hshows
          cases hshows.1
        · rw [hrunning] at hshows
          cases hshows.1

-- As long as its listing runs, a task that is held has not ended.
theorem Reachable.task_not_ended {w : World} (h : Reachable w)
    (hrunning : w.cache.status = .running) {task : Task} (htask : w.cache.task = some task) :
    task.ended = false := by
  obtain ⟨job, hjob, hcurrent, hreply⟩ := h.sound.exists_running hrunning
  obtain ⟨hgeneration, hended⟩ := h.held task htask
  by_contra hne
  obtain ⟨other, hother, hsame, hreplied⟩ := hended (by simpa using hne)
  have heq : job = other :=
    h.sound.eq_of_generation hjob hother (by rw [hcurrent, hsame, hgeneration])
  rw [← heq, hreply] at hreplied
  cases hreplied

-- While a listing runs, a cancellation lasts exactly when the cache holds the task of the
-- listing. A wait takes it away for good, and then a cancellation does nothing.
theorem Reachable.cancel_staysCancelled_iff {w : World} (h : Reachable w)
    (hrunning : w.cache.status = .running) :
    w.cancel.StaysCancelled ↔ w.cache.task.isSome = true := by
  constructor
  · intro hstays
    by_contra hnone
    have hsame : w.cache.cancel = w.cache := Cache.cancel_of_none (by simpa using hnone)
    have hcancelled := (hstays w.cancel .refl).1
    rw [cancel, hsame, hrunning] at hcancelled
    cases hcancelled
  · intro hsome
    obtain ⟨task, htask⟩ := Option.isSome_iff_exists.mp hsome
    have hcancel := Cache.cancel_of_running htask (h.task_not_ended hrunning htask)
    apply Over.staysCancelled
    refine ⟨by rw [cancel, hcancel], fun job hjob => ?_⟩
    have hle := h.sound.generation_le hjob
    rw [cancel, hcancel]
    exact Nat.lt_succ_of_le hle

-- A listing that nobody waits for has handed out its first batch.
def listing : World :=
  ⟨⟨["main"], .running, 1, some ⟨1, ⟨"global", ["-cT"]⟩, false⟩⟩, [⟨1, [["main"]], none⟩]⟩

theorem Reachable.cancel_staysCancelled_listing :
    Reachable listing ∧ listing.cache.status = .running ∧ listing.cancel.StaysCancelled := by
  have hstarted := Reachable.idle.step (.startWith _ ⟨"global", ["-cT"]⟩)
  have hlisting : Reachable listing :=
    hstarted.step (.batch _ [] [] ⟨1, [], none⟩ ["main"] rfl)
  exact ⟨hlisting, rfl, (Reachable.cancel_staysCancelled_iff hlisting rfl).mpr rfl⟩

-- A listing with a wait that has taken its task.
def awaited : World := ⟨⟨[], .running, 1, none⟩, [⟨1, [], none⟩]⟩

-- The same listing at its end, though it was cancelled in the meantime.
def outlived : World :=
  ⟨⟨["main"], .ready, 1, none⟩, [⟨1, [["main"]], some (.ok ⟨[["main"]], none, some 0, ""⟩)⟩]⟩

theorem quiet_outlived : Relation.ReflTransGen Quiet awaited.cancel outlived := by
  have hbatch : Quiet awaited.cancel ⟨⟨["main"], .running, 1, none⟩, [⟨1, [["main"]], none⟩]⟩ :=
    ⟨.batch _ [] [] ⟨1, [], none⟩ ["main"] rfl, rfl⟩
  have hend : Quiet ⟨⟨["main"], .running, 1, none⟩, [⟨1, [["main"]], none⟩]⟩ outlived :=
    ⟨.conclude _ [] [] ⟨1, [["main"]], none⟩ (.ok ⟨[["main"]], none, some 0, ""⟩) rfl
      (by rintro l ⟨⟩; rfl), rfl⟩
  exact (Relation.ReflTransGen.single hbatch).tail hend

theorem awaited_not_staysCancelled :
    ¬ ∀ w : World, Reachable w → w.cache.status = .running → w.cancel.StaysCancelled := by
  intro h
  have hstarted := Reachable.idle.step (.startWith _ ⟨"global", ["-cT"]⟩)
  have hawaited : Reachable awaited := hstarted.step (.takeTask _)
  obtain ⟨hstatus, -⟩ := h awaited hawaited rfl outlived quiet_outlived
  cases hstatus

end World

end Concordance.Completion
