namespace Concordance

inductive Change where
  | rootsAdded (count : Nat)
  | rootRemoved
  | cleared
deriving DecidableEq, Repr

-- Delivers changes to named receivers. A receiver sees what is sent after it came.
structure Channel where
  -- how many changes are kept for a receiver
  capacity : Nat
  receivers : List (String × List Change)
deriving DecidableEq, Repr

inductive Delivery where
  | change (c : Change)
  | nothing
  -- so many changes were lost
  | lagged (count : Nat)
  | noReceiver
deriving DecidableEq, Repr

namespace Channel

def empty (capacity : Nat) : Channel := ⟨capacity, []⟩

def subscribers (c : Channel) : Nat := c.receivers.length

def drop (c : Channel) (name : String) : Channel :=
  { c with receivers := c.receivers.filter (fun r => r.1 ≠ name) }

def subscribe (c : Channel) (name : String) : Channel :=
  { c.drop name with receivers := (c.drop name).receivers ++ [(name, [])] }

-- Sends a change to every receiver and says how many there are.
def broadcast (c : Channel) (change : Change) : Nat × Channel :=
  (c.subscribers,
    { c with receivers := c.receivers.map (fun r => (r.1, r.2 ++ [change])) })

def setPending (c : Channel) (name : String) (pending : List Change) : Channel :=
  { c with receivers := c.receivers.map (fun r => if r.1 = name then (name, pending) else r) }

-- Takes the oldest change that waits. Where more wait than are kept, the lost ones are
-- reported first.
def receive (c : Channel) (name : String) : Delivery × Channel :=
  match c.receivers.lookup name with
  | none => (.noReceiver, c)
  | some pending =>
    if pending.length > c.capacity then
      let lost := pending.length - c.capacity
      (.lagged lost, c.setPending name (pending.drop lost))
    else
      match pending with
      | [] => (.nothing, c)
      | change :: rest => (.change change, c.setPending name rest)

end Channel

end Concordance
