import Concordance.Completion

namespace Concordance.Completion

-- A listing that was started: the batches that it handed out so far, and how it ended.
structure Job where
  generation : Nat
  handed : List (List String)
  reply : Option ListingReply

-- A cache with every listing ever started on it, in the order of the starts. A listing that
-- was superseded or cancelled may go on for any time.
structure World where
  cache : Cache
  jobs : List Job

namespace World

def idle : World := ⟨Cache.idle, []⟩

def startWith (w : World) (call : Invocation) : World :=
  let cache := w.cache.startWith call
  ⟨cache, w.jobs ++ [⟨cache.generation, [], none⟩]⟩

def start (w : World) (config : Config) : World :=
  let (started, cache) := w.cache.start config
  ⟨cache, if started then w.jobs ++ [⟨cache.generation, [], none⟩] else w.jobs⟩

-- The listing that was started last.
def latest? (w : World) : Option Job := w.jobs.getLast?

def handed (w : World) : List (List String) := (w.latest?.map Job.handed).getD []

def reply? (w : World) : Option ListingReply := w.latest?.bind Job.reply

-- What can happen next: a call of a client, or a step of any listing that has not ended.
-- The end of a listing takes two steps, what it writes and the end of its task. Between
-- them the task can still be cancelled, like one whose end comes while it is cancelled.
inductive Step : World → World → Prop
  | start (w : World) (config : Config) : Step w (w.start config)
  | startWith (w : World) (call : Invocation) : Step w (w.startWith call)
  | cancel (w : World) : Step w { w with cache := w.cache.cancel }
  | takeTask (w : World) : Step w { w with cache := w.cache.takeTask.2 }
  | batch (cache : Cache) (before after : List Job) (job : Job) (lines : List String)
      (hrun : job.reply = none) :
      Step ⟨cache, before ++ job :: after⟩
        ⟨cache.addBatch job.generation lines,
          before ++ { job with handed := job.handed ++ [lines] } :: after⟩
  | conclude (cache : Cache) (before after : List Job) (job : Job) (reply : ListingReply)
      (hrun : job.reply = none) (hlisting : ∀ l, reply = .ok l → l.batches = job.handed) :
      Step ⟨cache, before ++ job :: after⟩
        ⟨cache.conclude job.generation (Ending.ofReply reply),
          before ++ { job with reply := some reply } :: after⟩
  | markEnded (w : World) (job : Job) (hmem : job ∈ w.jobs) (hended : job.reply.isSome) :
      Step w { w with cache := w.cache.markEnded job.generation }

inductive Reachable : World → Prop
  | idle : Reachable idle
  | step {w w' : World} (h : Reachable w) (next : Step w w') : Reachable w'

end World

namespace Cache

theorem addBatch_stale {c : Cache} {generation : Nat} (lines : List String)
    (h : c.generation ≠ generation) : c.addBatch generation lines = c := if_neg h

theorem conclude_stale {c : Cache} {generation : Nat} (ending : Ending)
    (h : c.generation ≠ generation) : c.conclude generation ending = c := if_neg h

theorem conclude_complete {c : Cache} {generation : Nat} (trailing : Option String)
    (h : c.generation = generation) :
    c.conclude generation (.complete trailing) =
      { c with tags := c.tags ++ trailing.toList, status := .ready } := if_pos h

theorem conclude_broken {c : Cache} {generation : Nat} (cause : String)
    (h : c.generation = generation) :
    c.conclude generation (.broken cause) = { c with status := .failed cause } := if_pos h

theorem le_cancel_generation (c : Cache) : c.generation ≤ c.cancel.generation := by
  unfold cancel
  split
  · exact Nat.le_refl _
  · split
    · exact Nat.le_refl _
    · exact Nat.le_succ _

theorem cancel_of_none {c : Cache} (h : c.task = none) : c.cancel = c := by
  unfold cancel
  rw [h]

@[simp] theorem cancel_task (c : Cache) : c.cancel.task = none := by
  unfold cancel
  split
  · assumption
  · split <;> rfl

-- The cancellation in a start may as well come before it. So the steps of listings between
-- the two halves of a start are steps between a cancellation and a start.
theorem startWith_cancel (c : Cache) (call : Invocation) :
    c.cancel.startWith call = c.startWith call := by
  rw [startWith, cancel_of_none c.cancel_task, startWith]

end Cache

end Concordance.Completion
