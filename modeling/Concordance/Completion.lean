import Concordance.Config
import Concordance.Text.Blank
import Concordance.Text.Search
import Concordance.Tool.Dialogue
namespace Concordance.Completion

inductive Status where
  | idle
  | running
  | ready
  | cancelled
  | failed (cause : String)
deriving DecidableEq, Repr

-- A listing that was started and may still be cancelled or awaited.
structure Task where
  generation : Nat
  call : Invocation
  -- whether it came to its end meanwhile
  ended : Bool
deriving DecidableEq, Repr

-- The tags listed so far. Every start and every cancellation begins a new generation, and
-- a listing writes only while its own generation lasts.
structure Cache where
  tags : List String
  status : Status
  generation : Nat
  task : Option Task
deriving DecidableEq, Repr

inductive Ending where
  | complete (trailing : Option String)
  | broken (cause : String)
deriving DecidableEq, Repr

def Ending.ofReply : ListingReply → Ending
  | .ok l => if l.succeeded then complete l.trailing else broken (Text.trim l.stderr)
  | .error failure => broken failure.message

-- The lines that a listing hands out before it ends.
def batchesOf : ListingReply → List (List String)
  | .ok l => l.batches
  | .error _ => []

namespace Cache

def idle : Cache := ⟨[], .idle, 0, none⟩

-- Cancels the listing that is held, unless it has ended.
def cancel (c : Cache) : Cache :=
  match c.task with
  | none => c
  | some task =>
    if task.ended then { c with task := none }
    else { c with task := none, generation := c.generation + 1, status := .cancelled }

-- Starts a listing in place of the one before.
def startWith (c : Cache) (call : Invocation) : Cache :=
  let generation := c.cancel.generation + 1
  ⟨[], .running, generation, some ⟨generation, call, false⟩⟩

-- Starts the listing of the indexer, if the settings ask for it; says whether it does.
def start (c : Cache) (config : Config) : Bool × Cache :=
  if config.completion then
    (true, c.startWith ⟨config.indexer, IndexerQuery.completions.args⟩)
  else (false, c)

def addBatch (c : Cache) (generation : Nat) (lines : List String) : Cache :=
  if c.generation = generation then { c with tags := c.tags ++ lines } else c

-- The held listing of a generation has ended.
def markEnded (c : Cache) (generation : Nat) : Cache :=
  { c with task := c.task.map fun task =>
      if task.generation = generation then { task with ended := true } else task }

-- What the end of the listing of a generation writes. The last line, which no newline ends,
-- counts only when the listing is complete.
def conclude (c : Cache) (generation : Nat) (ending : Ending) : Cache :=
  if c.generation = generation then
    match ending with
    | .complete trailing => { c with tags := c.tags ++ trailing.toList, status := .ready }
    | .broken cause => { c with status := .failed cause }
  else c

def settle (c : Cache) (generation : Nat) (ending : Ending) : Cache :=
  (c.conclude generation ending).markEnded generation

-- What the end of a listing warns of.
def settleNotices (c : Cache) (generation : Nat) : Ending → List Notice
  | .complete _ => []
  | .broken _ => if c.generation = generation then [.listingFailed] else []

-- Gives up the listing that is held, to await it.
def takeTask (c : Cache) : Option Task × Cache := (c.task, { c with task := none })

def run (c : Cache) (task : Task) : Dialogue Cache := do
  let reply ← Dialogue.listing task.call
  let listed := (batchesOf reply).foldl (fun c batch => c.addBatch task.generation batch) c
  Dialogue.notifyAll (listed.settleNotices task.generation (Ending.ofReply reply))
  pure (listed.settle task.generation (Ending.ofReply reply))

def wait (c : Cache) : Dialogue Cache :=
  match c.takeTask with
  | (none, c) => pure c
  | (some task, c) => if task.ended then pure c else c.run task

def matching (c : Cache) (start : String) : List String :=
  c.tags.filter (fun tag => Text.startsWith tag start)

end Cache

end Concordance.Completion
