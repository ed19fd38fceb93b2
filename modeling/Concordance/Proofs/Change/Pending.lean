import Concordance.Change

namespace Concordance.Channel

-- What waits for a receiver, where there is one of this name.
def pending? (c : Channel) (name : String) : Option (List Change) := c.receivers.lookup name

-- Sends changes one after another.
def send (c : Channel) (changes : List Change) : Channel :=
  changes.foldl (fun c change => (c.broadcast change).2) c

-- Takes so many deliveries, one after another.
def deliveries (c : Channel) (name : String) : Nat → List Delivery
  | 0 => []
  | count + 1 => (c.receive name).1 :: (c.receive name).2.deliveries name count

variable {c : Channel} {name : String} {pending : List Change}

theorem send_cons (c : Channel) (change : Change) (changes : List Change) :
    c.send (change :: changes) = (c.broadcast change).2.send changes := rfl

theorem send_append (c : Channel) (first second : List Change) :
    c.send (first ++ second) = (c.send first).send second := List.foldl_append

@[simp] theorem send_capacity (c : Channel) (changes : List Change) :
    (c.send changes).capacity = c.capacity := by
  induction changes generalizing c with
  | nil => rfl
  | cons change changes ih => rw [send_cons, ih, broadcast]

theorem pending?_broadcast (c : Channel) (change : Change) (name : String) :
    (c.broadcast change).2.pending? name = (c.pending? name).map (· ++ [change]) := by
  obtain ⟨capacity, receivers⟩ := c
  unfold pending? broadcast
  induction receivers with
  | nil => rfl
  | cons receiver receivers ih =>
    obtain ⟨other, waiting⟩ := receiver
    dsimp only at ih ⊢
    rw [List.map_cons, List.lookup_cons, List.lookup_cons, ih]
    cases name == other <;> rfl

-- Everything that is sent waits behind what waited before.
theorem pending?_send (c : Channel) (changes : List Change) (name : String) :
    (c.send changes).pending? name = (c.pending? name).map (· ++ changes) := by
  induction changes generalizing c with
  | nil => simp [send]
  | cons change changes ih =>
    rw [send_cons, ih, pending?_broadcast, Option.map_map]
    congr 1
    funext waiting
    simp

theorem pending?_setPending (h : c.pending? name = some pending) (rest : List Change) :
    (c.setPending name rest).pending? name = some rest := by
  obtain ⟨capacity, receivers⟩ := c
  unfold pending? at h ⊢
  unfold setPending
  induction receivers with
  | nil => cases h
  | cons receiver receivers ih =>
    obtain ⟨other, waiting⟩ := receiver
    by_cases hname : other = name
    · subst hname
      simp
    · have hbeq : (name == other) = false := by simpa using fun he => hname he.symm
      rw [List.lookup_cons, hbeq] at h
      dsimp only
      rw [List.map_cons, if_neg hname, List.lookup_cons, hbeq]
      exact ih h

theorem receive_cons {change : Change} {rest : List Change}
    (h : c.pending? name = some (change :: rest)) (hlength : rest.length < c.capacity) :
    c.receive name = (.change change, c.setPending name rest) := by
  unfold receive
  unfold pending? at h
  rw [h]
  simp [Nat.not_lt.mpr hlength]

-- Who does not lag gets each change that waits, in order.
theorem deliveries_eq (h : c.pending? name = some pending)
    (hlength : pending.length ≤ c.capacity) :
    c.deliveries name pending.length = pending.map .change := by
  induction pending generalizing c with
  | nil => rfl
  | cons change rest ih =>
    rw [List.length_cons] at hlength
    rw [List.length_cons, deliveries, receive_cons h hlength]
    have hrest := pending?_setPending h rest
    rw [ih hrest (Nat.le_of_succ_le hlength), List.map_cons]

end Concordance.Channel
