import Mathlib.Data.List.Induction
import Concordance.Proofs.Completion.World

namespace Concordance.Completion

-- The tags are the first of the batches that a listing handed out, or all of them and then
-- the line that the listing left over when it ended with code zero.
def Partly (tags : List String) (job : Job) : Prop :=
  ∃ shown, shown <+: job.handed ∧
    (tags = shown.flatten ∨
      ∃ l line, job.reply = some (.ok l) ∧ l.code = some 0 ∧ l.trailing = some line ∧
        shown = job.handed ∧ tags = shown.flatten ++ [line])

-- The cache shows all that its listing gave.
def Shows (c : Cache) (job : Job) : Prop :=
  match job.reply with
  | none => c.status = .running ∧ c.tags = job.handed.flatten
  | some reply =>
    match Ending.ofReply reply with
    | .complete trailing =>
      c.status = .ready ∧ c.tags = job.handed.flatten ++ trailing.toList
    | .broken cause => c.status = .failed cause ∧ c.tags = job.handed.flatten

-- How a cache agrees with the listing that was started last: while the generation of the
-- listing lasts the cache shows all of it, and once that was cancelled it keeps what it had.
def Agrees (c : Cache) : Option Job → Prop
  | none => c.status = .idle ∧ c.tags = [] ∧ c.task = none
  | some job =>
    job.generation ≤ c.generation ∧ (∀ l, job.reply = some (.ok l) → l.batches = job.handed) ∧
      (c.generation = job.generation → Shows c job) ∧
      (c.generation ≠ job.generation → c.status = .cancelled ∧ Partly c.tags job)

-- The invariant of every reachable world. The generations ascend, so that no listing but the
-- last one can write.
structure World.Sound (w : World) : Prop where
  ascending : (w.jobs.map Job.generation).Pairwise (· < ·)
  latest : Agrees w.cache w.latest?

theorem succeeded_iff (l : Listing) : l.succeeded = true ↔ l.code = some 0 := by
  simp [Listing.succeeded]

theorem ofReply_complete {reply : ListingReply} {trailing : Option String}
    (h : Ending.ofReply reply = .complete trailing) :
    ∃ l, reply = .ok l ∧ l.code = some 0 ∧ l.trailing = trailing := by
  cases reply with
  | error failure => cases h
  | ok l =>
    simp only [Ending.ofReply] at h
    split at h
    · rename_i hs
      cases h
      exact ⟨l, rfl, (succeeded_iff l).mp hs, rfl⟩
    · cases h

-- All that a cache in which the listing shows can look like.
theorem Shows.cases {c : Cache} {job : Job} (h : Shows c job) :
    (c.status = .running ∧ c.tags = job.handed.flatten) ∨
    (∃ l, job.reply = some (.ok l) ∧ l.code = some 0 ∧ c.status = .ready ∧
      c.tags = job.handed.flatten ++ l.trailing.toList) ∨
    ∃ reply cause, job.reply = some reply ∧ Ending.ofReply reply = .broken cause ∧
      c.status = .failed cause ∧ c.tags = job.handed.flatten := by
  unfold Shows at h
  split at h
  · exact Or.inl h
  · rename_i reply hreply
    split at h
    · rename_i trailing hending
      obtain ⟨l, rfl, hcode, rfl⟩ := ofReply_complete hending
      exact Or.inr (Or.inl ⟨l, hreply, hcode, h⟩)
    · rename_i cause hending
      exact Or.inr (Or.inr ⟨reply, cause, hreply, hending, h⟩)

theorem Shows.partly {c : Cache} {job : Job} (h : Shows c job) : Partly c.tags job := by
  refine ⟨job.handed, List.prefix_refl _, ?_⟩
  rcases h.cases with ⟨-, htags⟩ | ⟨l, hreply, hcode, -, htags⟩ | ⟨-, -, -, -, -, htags⟩
  · exact Or.inl htags
  · cases hl : l.trailing with
    | none => exact Or.inl (by simpa [hl] using htags)
    | some line => exact Or.inr ⟨l, line, hreply, hcode, hl, rfl, by simpa [hl] using htags⟩
  · exact Or.inl htags

theorem Agrees.partly {c : Cache} {job : Job} (h : Agrees c (some job)) : Partly c.tags job := by
  obtain ⟨-, -, hshows, hkeeps⟩ := h
  by_cases hg : c.generation = job.generation
  · exact (hshows hg).partly
  · exact (hkeeps hg).2

theorem Agrees.shows {c : Cache} {job : Job} (h : Agrees c (some job))
    (hstatus : c.status ≠ .cancelled) : Shows c job := by
  obtain ⟨-, -, hshows, hkeeps⟩ := h
  by_cases hg : c.generation = job.generation
  · exact hshows hg
  · exact absurd (hkeeps hg).1 hstatus

theorem Agrees.ready {c : Cache} {job : Job} (h : Agrees c (some job)) (hstatus : c.status = .ready) :
    ∃ l, job.reply = some (.ok l) ∧ l.code = some 0 ∧
      c.tags = job.handed.flatten ++ l.trailing.toList := by
  rcases (h.shows (by simp [hstatus])).cases with
    ⟨hrunning, -⟩ | ⟨l, hreply, hcode, -, htags⟩ | ⟨_, _, -, -, hfailed, -⟩
  · simp [hstatus] at hrunning
  · exact ⟨l, hreply, hcode, htags⟩
  · simp [hstatus] at hfailed

theorem Agrees.failed {c : Cache} {job : Job} (h : Agrees c (some job)) {cause : String}
    (hstatus : c.status = .failed cause) :
    (∃ reply, job.reply = some reply ∧ Ending.ofReply reply = .broken cause) ∧
      c.tags = job.handed.flatten := by
  rcases (h.shows (by simp [hstatus])).cases with
    ⟨hrunning, -⟩ | ⟨_, -, -, hready, -⟩ | ⟨reply, cause', hreply, hending, hfailed, htags⟩
  · simp [hstatus] at hrunning
  · simp [hstatus] at hready
  · rw [hstatus] at hfailed
    cases hfailed
    exact ⟨⟨reply, hreply, hending⟩, htags⟩

theorem Agrees.status_ne_idle {c : Cache} {job : Job} (h : Agrees c (some job)) :
    c.status ≠ .idle := by
  intro hidle
  rcases (h.shows (by simp [hidle])).cases with
    ⟨hrunning, -⟩ | ⟨_, -, -, hready, -⟩ | ⟨_, _, -, -, hfailed, -⟩
  · simp [hidle] at hrunning
  · simp [hidle] at hready
  · simp [hidle] at hfailed

-- What was shown of a running listing stays a part of it, whatever comes of the listing.
theorem Partly.grow {tags : List String} {job job' : Job} (h : Partly tags job)
    (hrun : job.reply = none) (hhanded : job.handed <+: job'.handed) : Partly tags job' := by
  obtain ⟨shown, hshown, htags | ⟨l, -, hl, -⟩⟩ := h
  · exact ⟨shown, hshown.trans hhanded, Or.inl htags⟩
  · rw [hrun] at hl
    cases hl

-- The task of a cache shows nowhere in its tags.
theorem Agrees.withTask {c : Cache} {job? : Option Job} {task : Option Task} (h : Agrees c job?)
    (htask : c.task = none → task = none) : Agrees { c with task := task } job? := by
  cases job? with
  | none => exact ⟨h.1, h.2.1, htask h.2.2⟩
  | some job => exact h

theorem Agrees.cancel {c : Cache} {job? : Option Job} (h : Agrees c job?) :
    Agrees c.cancel job? := by
  unfold Cache.cancel
  split
  · exact h
  · rename_i task htask
    split
    · exact h.withTask (fun _ => rfl)
    · cases job? with
      | none => rw [h.2.2] at htask; cases htask
      | some job =>
        have hpartly := h.partly
        obtain ⟨hle, hbatches, -, -⟩ := h
        refine ⟨Nat.le_succ_of_le hle, hbatches, fun hg => ?_, fun _ => ⟨rfl, hpartly⟩⟩
        dsimp only at hg
        omega

theorem Agrees.addBatch {c : Cache} {job : Job} (h : Agrees c (some job)) (hrun : job.reply = none)
    (lines : List String) :
    Agrees (c.addBatch job.generation lines)
      (some { job with handed := job.handed ++ [lines] }) := by
  obtain ⟨hle, hbatches, hshows, hkeeps⟩ := h
  have hnone (l : Listing) : job.reply ≠ some (.ok l) := by simp [hrun]
  by_cases hg : c.generation = job.generation
  · have hrunning := hshows hg
    rw [Shows, hrun] at hrunning
    rw [Cache.addBatch, if_pos hg]
    refine ⟨hle, fun l hl => absurd hl (hnone l), fun _ => ?_, fun hne => absurd hg hne⟩
    rw [Shows, hrun]
    exact ⟨hrunning.1, by simp [hrunning.2]⟩
  · obtain ⟨hcancelled, hpartly⟩ := hkeeps hg
    rw [Cache.addBatch_stale lines hg]
    exact ⟨hle, fun l hl => absurd hl (hnone l), fun he => absurd he hg,
      fun _ => ⟨hcancelled, hpartly.grow hrun (List.prefix_append _ _)⟩⟩

theorem Agrees.conclude {c : Cache} {job : Job} (h : Agrees c (some job)) (hrun : job.reply = none)
    (reply : ListingReply) (hlisting : ∀ l, reply = .ok l → l.batches = job.handed) :
    Agrees (c.conclude job.generation (Ending.ofReply reply))
      (some { job with reply := some reply }) := by
  obtain ⟨hle, -, hshows, hkeeps⟩ := h
  have hbatches (l : Listing) (hl : some reply = some (.ok l)) : l.batches = job.handed :=
    hlisting l (Option.some.inj hl)
  by_cases hg : c.generation = job.generation
  · have hrunning := hshows hg
    rw [Shows, hrun] at hrunning
    cases he : Ending.ofReply reply with
    | complete trailing =>
      rw [Cache.conclude_complete trailing hg]
      refine ⟨hle, hbatches, fun _ => ?_, fun hne => absurd hg hne⟩
      simp only [Shows, he, hrunning.2, and_self]
    | broken cause =>
      rw [Cache.conclude_broken cause hg]
      refine ⟨hle, hbatches, fun _ => ?_, fun hne => absurd hg hne⟩
      simp only [Shows, he, hrunning.2, and_self]
  · obtain ⟨hcancelled, hpartly⟩ := hkeeps hg
    rw [Cache.conclude_stale _ hg]
    exact ⟨hle, hbatches, fun heq => absurd heq hg,
      fun _ => ⟨hcancelled, hpartly.grow hrun (List.prefix_refl _)⟩⟩

namespace World

theorem Sound.generation_le {w : World} (h : w.Sound) {job : Job} (hmem : job ∈ w.jobs) :
    job.generation ≤ w.cache.generation := by
  obtain ⟨hascending, hlatest⟩ := h
  obtain ⟨cache, jobs⟩ := w
  cases jobs using List.reverseRecOn with
  | nil => cases hmem
  | append_singleton jobs last =>
    rw [latest?, List.getLast?_concat] at hlatest
    rcases List.mem_append.mp hmem with hold | hlast
    · rw [List.map_append, List.pairwise_append] at hascending
      have hlt := hascending.2.2 job.generation (List.mem_map_of_mem hold) last.generation
        (by simp)
      exact Nat.le_trans (Nat.le_of_lt hlt) hlatest.1
    · rw [List.mem_singleton.mp hlast]
      exact hlatest.1

-- A listing that is not the last one has lost its generation, and writes nothing.
theorem Sound.generation_ne {cache : Cache} {before after : List Job} {job last : Job}
    (h : Sound ⟨cache, before ++ job :: (after ++ [last])⟩) : cache.generation ≠ job.generation := by
  have hle := h.generation_le (show last ∈ before ++ job :: (after ++ [last]) by simp)
  have hlt : job.generation < last.generation := by
    have hpair := h.ascending
    rw [List.map_append, List.pairwise_append] at hpair
    exact (List.pairwise_cons.mp hpair.2.1).1 last.generation (by simp)
  exact Nat.ne_of_gt (Nat.lt_of_lt_of_le hlt hle)

theorem latest?_append_singleton (cache : Cache) (jobs : List Job) (job : Job) :
    latest? ⟨cache, jobs ++ [job]⟩ = some job := List.getLast?_concat

-- A step of one listing, which keeps its generation.
theorem Sound.replace {cache cache' : Cache} {before after : List Job} {job job' : Job}
    (h : Sound ⟨cache, before ++ job :: after⟩) (hgeneration : job'.generation = job.generation)
    (hlast : Agrees cache (some job) → Agrees cache' (some job'))
    (hstale : cache.generation ≠ job.generation → cache' = cache) :
    Sound ⟨cache', before ++ job' :: after⟩ := by
  refine ⟨?_, ?_⟩
  · have hsame : (before ++ job' :: after).map Job.generation =
        (before ++ job :: after).map Job.generation := by
      simp [hgeneration]
    rw [hsame]
    exact h.ascending
  · cases after using List.reverseRecOn with
    | nil =>
      have hlatest := h.latest
      rw [latest?_append_singleton] at hlatest ⊢
      exact hlast hlatest
    | append_singleton after last =>
      have hlatest := h.latest
      rw [hstale h.generation_ne]
      rw [← List.cons_append, ← List.append_assoc, latest?_append_singleton] at hlatest ⊢
      exact hlatest

theorem Sound.cancel {w : World} (h : w.Sound) : Sound ⟨w.cache.cancel, w.jobs⟩ :=
  ⟨h.ascending, h.latest.cancel⟩

theorem Sound.startWith_of_none {w : World} (h : w.Sound) (htask : w.cache.task = none)
    (call : Invocation) : (w.startWith call).Sound := by
  have hgeneration : (w.cache.startWith call).generation = w.cache.generation + 1 := by
    rw [Cache.startWith, Cache.cancel_of_none htask]
  refine ⟨?_, ?_⟩
  · rw [World.startWith, List.map_append, List.pairwise_append]
    refine ⟨h.ascending, List.pairwise_singleton _ _, ?_⟩
    intro g hg g' hg'
    obtain ⟨job, hmem, rfl⟩ := List.mem_map.mp hg
    rw [List.mem_singleton.mp hg', hgeneration]
    exact Nat.lt_succ_of_le (h.generation_le hmem)
  · rw [World.startWith, latest?_append_singleton]
    refine ⟨Nat.le_refl _, ?_, fun _ => ⟨rfl, rfl⟩, fun hne => absurd rfl hne⟩
    intro l hl
    cases hl

-- A start goes on from a cache that was cancelled before.
theorem Sound.startWith {w : World} (h : w.Sound) (call : Invocation) : (w.startWith call).Sound := by
  have hstart := h.cancel.startWith_of_none w.cache.cancel_task call
  rwa [World.startWith, Cache.startWith_cancel] at hstart

theorem start_enabled (w : World) {config : Config} (h : config.completion = true) :
    w.start config = w.startWith ⟨config.indexer, IndexerQuery.completions.args⟩ := by
  simp [World.start, Cache.start, h, World.startWith]

theorem start_disabled (w : World) {config : Config} (h : config.completion = false) :
    w.start config = w := by
  simp [World.start, Cache.start, h]

theorem Step.sound {w w' : World} (next : Step w w') (h : w.Sound) : w'.Sound := by
  cases next with
  | start _ config =>
    cases hc : config.completion with
    | true => rw [start_enabled w hc]; exact h.startWith _
    | false => rw [start_disabled w hc]; exact h
  | startWith _ call => exact h.startWith call
  | cancel => exact h.cancel
  | takeTask => exact ⟨h.ascending, h.latest.withTask (fun _ => rfl)⟩
  | batch cache before after job lines hrun =>
    exact h.replace rfl (fun ha => ha.addBatch hrun lines) (Cache.addBatch_stale lines)
  | conclude cache before after job reply hrun hlisting =>
    exact h.replace rfl (fun ha => ha.conclude hrun reply hlisting) (Cache.conclude_stale _)
  | markEnded _ job hmem hended =>
    exact ⟨h.ascending, h.latest.withTask (fun hnone => by rw [hnone]; rfl)⟩

theorem Reachable.sound {w : World} (h : Reachable w) : w.Sound := by
  induction h with
  | idle => exact ⟨List.Pairwise.nil, rfl, rfl, rfl⟩
  | step _ next ih => exact next.sound ih

-- At every moment of every interleaving the cache shows the listing that was started last
-- and no other: the first of its batches, all of them unless it was cancelled, and the line
-- that it left over only when it succeeded.
theorem Reachable.tags {w : World} (h : Reachable w) :
    (∃ shown, shown <+: w.handed ∧
      (w.cache.tags = shown.flatten ∨
        ∃ l line, w.reply? = some (.ok l) ∧ l.code = some 0 ∧ l.trailing = some line ∧
          shown = w.handed ∧ w.cache.tags = shown.flatten ++ [line])) ∧
    (w.cache.status = .ready →
      ∃ l, w.reply? = some (.ok l) ∧ l.code = some 0 ∧ l.batches = w.handed ∧
        w.cache.tags = l.lines ++ l.trailing.toList) ∧
    (∀ cause, w.cache.status = .failed cause →
      (∃ reply, w.reply? = some reply ∧ Ending.ofReply reply = .broken cause) ∧
        w.cache.tags = w.handed.flatten) ∧
    (w.cache.status = .idle → w.cache.tags = []) ∧
    ∀ config : Config, config.completion = false → w.cache.start config = (false, w.cache) := by
  have hdisabled (config : Config) (hc : config.completion = false) :
      w.cache.start config = (false, w.cache) := by simp [Cache.start, hc]
  have hagrees := h.sound.latest
  unfold handed reply?
  cases hjob : w.latest? with
  | none =>
    rw [hjob] at hagrees
    obtain ⟨hstatus, htags, -⟩ := hagrees
    rw [hstatus, htags]
    exact ⟨⟨[], List.prefix_refl _, Or.inl rfl⟩, nofun, nofun, fun _ => rfl, hdisabled⟩
  | some job =>
    rw [hjob] at hagrees
    refine ⟨hagrees.partly, fun hready => ?_, fun cause hfailed => ?_, fun hidle => ?_, hdisabled⟩
    · obtain ⟨l, hreply, hcode, htags⟩ := hagrees.ready hready
      have hbatches := hagrees.2.1 l hreply
      refine ⟨l, hreply, hcode, hbatches, ?_⟩
      rw [htags, Listing.lines, hbatches]
    · exact hagrees.failed hfailed
    · exact absurd hidle hagrees.status_ne_idle

-- A listing goes on after it was superseded, and the one in its place succeeds.
def superseded : World :=
  ⟨⟨["main", "map"], .ready, 3, some ⟨3, ⟨"global", ["-c", "ma"]⟩, false⟩⟩,
    [⟨1, [["abort"], ["main"]], none⟩,
      ⟨3, [["main"]], some (.ok ⟨[["main"]], some "map", some 0, ""⟩)⟩]⟩

theorem reachable_superseded : Reachable superseded := by
  have hfirst := Reachable.idle.step (.startWith _ ⟨"global", ["-c"]⟩)
  have habort := hfirst.step (.batch _ [] [] ⟨1, [], none⟩ ["abort"] rfl)
  have hsecond := habort.step (.startWith _ ⟨"global", ["-c", "ma"]⟩)
  have hlate := hsecond.step (.batch _ [] [⟨3, [], none⟩] ⟨1, [["abort"]], none⟩ ["main"] rfl)
  have hmain := hlate.step
    (.batch _ [⟨1, [["abort"], ["main"]], none⟩] [] ⟨3, [], none⟩ ["main"] rfl)
  exact hmain.step
    (.conclude _ [⟨1, [["abort"], ["main"]], none⟩] [] ⟨3, [["main"]], none⟩
      (.ok ⟨[["main"]], some "map", some 0, ""⟩) rfl (by rintro l ⟨⟩; rfl))

theorem Reachable.tags_superseded :
    Reachable superseded ∧ superseded.handed = [["main"]] ∧ superseded.cache.status = .ready ∧
      ∃ l, superseded.reply? = some (.ok l) ∧ l.code = some 0 ∧ l.batches = superseded.handed ∧
        superseded.cache.tags = l.lines ++ l.trailing.toList := by
  obtain ⟨-, hready, -⟩ := Reachable.tags reachable_superseded
  exact ⟨reachable_superseded, rfl, rfl, hready rfl⟩

end World

end Concordance.Completion
