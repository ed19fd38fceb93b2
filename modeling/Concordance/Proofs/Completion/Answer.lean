import Concordance.Proofs.Completion.World
import Concordance.Proofs.Tool.Faults

namespace Concordance.Completion

-- The tags of a listing, or why it has none.
def tagsOf : ListingReply → Except String (List String)
  | .ok l =>
    if l.succeeded then .ok (l.lines ++ l.trailing.toList) else .error (Text.trim l.stderr)
  | .error failure => .error failure.message

theorem good_eq (reply : ListingReply) : Listing.good reply = (tagsOf reply).isOk := by
  cases reply with
  | error failure => rfl
  | ok l =>
    rw [Listing.good, tagsOf]
    cases l.succeeded <;> rfl

namespace Cache

variable {c : Cache} {generation : Nat}

theorem foldl_addBatch (h : c.generation = generation) (batches : List (List String)) :
    batches.foldl (fun c batch => c.addBatch generation batch) c =
      { c with tags := c.tags ++ batches.flatten } := by
  induction batches generalizing c with
  | nil => simp
  | cons batch batches ih =>
    have hfirst : c.addBatch generation batch = { c with tags := c.tags ++ batch } := if_pos h
    rw [List.foldl_cons, hfirst, ih (by exact h), List.flatten_cons, List.append_assoc]

-- A cache that heard all of a listing.
def heard (c : Cache) (generation : Nat) (reply : ListingReply) : Cache :=
  ((batchesOf reply).foldl (fun c batch => c.addBatch generation batch) c).settle generation
    (Ending.ofReply reply)

-- An empty cache that waits for a listing of its own ends with all tags of it, or with the reason
-- why there are none.
theorem heard_of_fresh (h : c.generation = generation) (hempty : c.tags = [])
    (reply : ListingReply) :
    match tagsOf reply with
    | .ok tags => (c.heard generation reply).status = .ready ∧
        (c.heard generation reply).tags = tags
    | .error cause => (c.heard generation reply).status = .failed cause := by
  unfold heard
  rw [foldl_addBatch h]
  cases reply with
  | error failure =>
    simp [tagsOf, settle, markEnded, Ending.ofReply, conclude_broken, h]
  | ok l =>
    by_cases hsucceeded : l.succeeded = true
    · simp [tagsOf, settle, markEnded, Ending.ofReply, conclude_complete, h, hempty, hsucceeded,
        Listing.lines, batchesOf]
    · simp [tagsOf, settle, markEnded, Ending.ofReply, conclude_broken, h, hsucceeded]

variable {σ : Type} {tools : Toolbox σ} {task : Task} {reply : ListingReply} {s s' : σ}

theorem play_run_outcome (hlist : tools.list task.call s = (reply, s')) :
    ((c.run task).play tools s).outcome = .ok (c.heard task.generation reply) := by
  unfold run
  simp only [Dialogue.bind_eq_bind, Dialogue.listing, Dialogue.bind, Dialogue.play, hlist,
    Dialogue.play_bind_ok (Dialogue.play_notifyAll _ _ _), Dialogue.pure_eq_done]
  rfl

theorem faults_run (hlist : tools.list task.call s = (reply, s')) :
    (c.run task).faults tools s = if Listing.good reply then [] else [task.call] := by
  unfold run
  simp only [Dialogue.bind_eq_bind, Dialogue.listing, Dialogue.bind, Dialogue.faults, hlist,
    Dialogue.faults_bind, Dialogue.faults_notifyAll, Dialogue.play_notifyAll,
    Dialogue.pure_eq_done, List.append_nil]

end Cache

end Concordance.Completion
