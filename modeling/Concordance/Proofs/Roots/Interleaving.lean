import Concordance.Proofs.Roots.Missing
import Concordance.Proofs.Roots.Shared
import Concordance.Tool.Script

namespace Concordance

variable {ι σ : Type}

-- The answer tells the client that these nodes are new roots.
def Event.adds (client : ι) (symbol : String) (nodes : List Node) : Event ι :=
  ⟨client, .track symbol, .ok (.tracked (.added nodes))⟩

-- Whether a request takes the roots of a key away.
def Event.Drops (e : Event ι) (key : Node.Key) : Prop :=
  e.request = .clear ∨ ∃ n, e.request = .untrack n ∧ n.key = key

theorem Commit.mem {roots roots' : Roots} {e : Event ι} {n : Node} (h : Commit roots e roots')
    (hn : n ∈ roots) (hkept : ¬ e.Drops n.key) : n ∈ roots' := by
  cases h with
  | failed => exact hn
  | nothing => exact hn
  | known => exact hn
  | added hne hnew => exact List.mem_append_right _ hn
  | @untracked client m count hcount =>
    have hkey : n.key ≠ m.key := fun hkey => hkept (Or.inr ⟨m, rfl, hkey.symm⟩)
    exact List.mem_filter.mpr ⟨hn, by simpa using hkey⟩
  | cleared => exact absurd (Or.inl rfl) hkept

theorem Commits.mem {roots roots' : Roots} {events : List (Event ι)} {n : Node}
    (h : Commits roots events roots') (hn : n ∈ roots) (hkept : ∀ e ∈ events, ¬ e.Drops n.key) :
    n ∈ roots' := by
  induction h with
  | nil => exact hn
  | cons first rest ih =>
    have hmiddle := first.mem hn (hkept _ List.mem_cons_self)
    exact ih hmiddle fun e he => hkept e (List.mem_cons_of_mem _ he)

theorem Commit.of_adds {roots roots' : Roots} {client : ι} {symbol : String} {nodes : List Node}
    (h : Commit roots (Event.adds client symbol nodes) roots') :
    roots' = nodes ++ roots ∧ ∀ n ∈ nodes, n.key ∉ roots.map Node.key := by
  cases h with
  | added hne hnew => exact ⟨rfl, hnew⟩

-- A node is a root from the moment when its client is told that it is new.
theorem Commits.mem_of_adds {roots roots' : Roots} {client : ι} {symbol : String}
    {nodes : List Node} {before after : List (Event ι)}
    (h : Commits roots (before ++ Event.adds client symbol nodes :: after) roots') {n : Node}
    (hn : n ∈ nodes) (hkept : ∀ e ∈ after, ¬ e.Drops n.key) : n ∈ roots' := by
  obtain ⟨middle, -, hrest⟩ := commits_append_iff.mp h
  cases hrest with
  | cons first rest =>
    obtain ⟨rfl, -⟩ := first.of_adds
    exact rest.mem (List.mem_append_left middle hn) hkept

-- A key is new to a second client only where it was taken away meanwhile.
theorem Commits.exists_drops {roots roots' : Roots} {first second : ι} {symbol other : String}
    {nodes later : List Node} {before between after : List (Event ι)}
    (h : Commits roots (before ++ Event.adds first symbol nodes ::
      (between ++ Event.adds second other later :: after)) roots')
    {n m : Node} (hn : n ∈ nodes) (hm : m ∈ later) (hkey : n.key = m.key) :
    ∃ e ∈ between, e.Drops n.key := by
  by_contra hnone
  have hkept : ∀ e ∈ between, ¬ e.Drops n.key := fun e he hdrops => hnone ⟨e, he, hdrops⟩
  rw [← List.cons_append, ← List.append_assoc] at h
  obtain ⟨middle, hbefore, hrest⟩ := commits_append_iff.mp h
  have hroot : n ∈ middle := hbefore.mem_of_adds hn hkept
  cases hrest with
  | cons hsecond _ =>
    obtain ⟨-, hnew⟩ := hsecond.of_adds
    exact hnew m hm (hkey ▸ List.mem_map_of_mem hroot)

namespace SharedTree

variable [DecidableEq ι] (p : Project) (tools : Toolbox σ)

-- No schedule loses or doubles an update. Each answer is the effect of its request on the roots
-- of that moment, a node that a client was told of as new stays until its key is taken away,
-- and no key is told of as new twice unless it was taken away in between.
theorem run_keeps_added (t : SharedTree ι σ) (schedule : List (ι × Turn)) :
    let after := t.run p tools schedule
    Commits t.roots after.2 after.1.roots ∧
      (∀ client symbol nodes earlier later,
        after.2 = earlier ++ Event.adds client symbol nodes :: later →
          ∀ n ∈ nodes, (∀ e ∈ later, ¬ e.Drops n.key) → n ∈ after.1.roots) ∧
      ∀ client symbol nodes client' symbol' nodes' earlier between later,
        after.2 = earlier ++ Event.adds client symbol nodes ::
            (between ++ Event.adds client' symbol' nodes' :: later) →
          ∀ n ∈ nodes, ∀ n' ∈ nodes', n.key = n'.key → ∃ e ∈ between, e.Drops n.key := by
  intro after
  have hcommits : Commits t.roots after.2 after.1.roots := t.commits_run p tools schedule
  refine ⟨hcommits, ?_, ?_⟩
  · intro client symbol nodes earlier later hevents n hn hkept
    rw [hevents] at hcommits
    exact hcommits.mem_of_adds hn hkept
  · intro client symbol nodes client' symbol' nodes' earlier between later hevents n hn n' hn' hkey
    rw [hevents] at hcommits
    exact hcommits.exists_drops hn hn' hkey

-- Two clients track one symbol at a time, a third one removes it, and it is tracked again.
def overlapping : List (Fin 3 × Turn) :=
  [(0, .ask (.track "lost")), (1, .ask (.track "lost")), (0, .proceed), (1, .proceed),
    (1, .proceed), (0, .proceed), (1, .proceed), (0, .proceed),
    (2, .ask (.untrack (Node.placeholder "lost"))),
    (0, .ask (.track "lost")), (0, .proceed), (0, .proceed), (0, .proceed)]

def overlappingAnswers : List (Event (Fin 3)) :=
  [⟨0, .track "lost", .ok (.tracked .alreadyTracked)⟩,
    ⟨2, .untrack (Node.placeholder "lost"), .ok (.untracked 1)⟩]

theorem run_keeps_added_overlapping :
    let after := run Tree.standard Script.toolbox ⟨[], [], fun _ => none⟩ overlapping
    let lost := Node.placeholder "lost"
    after.2 = Event.adds 1 "lost" [lost] ::
        (overlappingAnswers ++ [Event.adds 0 "lost" [lost]]) ∧
      (∃ e ∈ overlappingAnswers, e.Drops lost.key) ∧ lost ∈ after.1.roots := by
  intro after lost
  have hevents : after.2 = Event.adds 1 "lost" [lost] ::
      (overlappingAnswers ++ [Event.adds 0 "lost" [lost]]) := by decide +kernel
  obtain ⟨-, hkept, hdropped⟩ :=
    run_keeps_added Tree.standard Script.toolbox ⟨[], [], fun _ => none⟩ overlapping
  have hlost : lost ∈ [lost] := List.mem_singleton_self lost
  refine ⟨hevents, ?_, ?_⟩
  · exact hdropped 1 "lost" [lost] 0 "lost" [lost] [] overlappingAnswers [] hevents
      lost hlost lost hlost rfl
  · exact hkept 0 "lost" [lost] (Event.adds 1 "lost" [lost] :: overlappingAnswers) [] hevents
      lost hlost (fun e he => absurd he List.not_mem_nil)

end SharedTree

end Concordance
