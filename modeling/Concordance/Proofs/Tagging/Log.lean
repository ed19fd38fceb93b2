import Mathlib.Data.List.Nodup
import Concordance.Proofs.Tool.Dialogue
import Concordance.Tagging

namespace Concordance

-- What becomes of an occurrence by the answer of the tagging tool for its file.
def Occurrence.assignBy (reply : Reply) (o : Occurrence) : Occurrence :=
  match reply with
  | .ok output => o.assign (Declaration.ofOutput output)
  | .error _ => o

-- The files on which the tagging tool was run, in this order, with its answers.
abbrev TagLog := List (String × Reply)

namespace TagLog

def table? : Reply → Option (List Declaration)
  | .ok output => some (Declaration.ofOutput output)
  | .error _ => none

def failure? : Reply → Option ToolFailure
  | .ok _ => none
  | .error failure => some failure

-- The invocations behind a log, with their answers.
def trace (tagger : String) (log : TagLog) : List (Invocation × Reply) :=
  log.map fun entry => (⟨tagger, taggingArgs entry.1⟩, entry.2)

def notices (log : TagLog) : List Notice :=
  log.filterMap fun entry => (failure? entry.2).map fun _ => .taggingFailed

-- What is kept of a log.
def cache (log : TagLog) : TagCache where
  tables := log.filterMap fun entry => (table? entry.2).map fun ds => (entry.1, ds)
  failed := log.filterMap fun entry => (failure? entry.2).map fun _ => entry.1

def Distinct (log : TagLog) : Prop := (log.map Prod.fst).Nodup

-- What a request for a file comes to, from the one run of the tool on it.
def answer (log : TagLog) (filename : String) : Option (List Declaration) :=
  (log.lookup filename).bind table?

-- The files that a log lacks, each once and in the order in which they are first named.
def missing (log : TagLog) (filenames : List String) : List String :=
  (filenames.removeAll (log.map Prod.fst)).eraseDups

variable {log : TagLog} {filename : String} {reply : Reply}

-- A log of the files of occurrences has an answer for each of them.
theorem exists_reply_of_mem {os : List Occurrence} {o : Occurrence}
    (hfiles : log.map Prod.fst = (os.map Occurrence.filename).eraseDups) (ho : o ∈ os) :
    ∃ reply, (o.filename, reply) ∈ log := by
  have hlogged : o.filename ∈ log.map Prod.fst := by
    rw [hfiles, List.mem_eraseDups]
    exact List.mem_map_of_mem ho
  obtain ⟨⟨filename, reply⟩, hmem, rfl⟩ := List.mem_map.mp hlogged
  exact ⟨reply, hmem⟩

theorem Distinct.eq_of_mem (h : log.Distinct) {first second : Reply}
    (hfirst : (filename, first) ∈ log) (hsecond : (filename, second) ∈ log) : first = second :=
  congrArg Prod.snd (List.inj_on_of_nodup_map h hfirst hsecond rfl)

theorem Distinct.append_singleton (h : log.Distinct) (hnew : filename ∉ log.map Prod.fst)
    (reply : Reply) : Distinct (log ++ [(filename, reply)]) := by
  rw [Distinct, List.map_append, List.nodup_append]
  refine ⟨h, List.nodup_singleton _, ?_⟩
  rintro name hname _ hlast rfl
  cases List.mem_singleton.mp hlast
  exact hnew hname

theorem answer_of_mem (h : log.Distinct) (hmem : (filename, reply) ∈ log) :
    log.answer filename = table? reply := by
  obtain ⟨before, after, rfl⟩ := List.append_of_mem hmem
  have hnew : filename ∉ before.map Prod.fst := by
    rw [Distinct, List.map_append, List.nodup_append] at h
    intro hbefore
    exact h.2.2 filename hbefore filename List.mem_cons_self rfl
  have hlookup : (before ++ (filename, reply) :: after).lookup filename = some reply := by
    refine List.lookup_eq_some_iff.mpr ⟨before, after, rfl, fun entry hentry => ?_⟩
    have hne : filename ≠ entry.1 := fun he => hnew (he ▸ List.mem_map_of_mem hentry)
    simpa using hne
  rw [answer, hlookup]
  rfl

theorem mem_cache_failed (log : TagLog) (filename : String) :
    filename ∈ log.cache.failed ↔ ∃ failure, (filename, .error failure) ∈ log := by
  simp only [cache, List.mem_filterMap, Option.map_eq_some_iff]
  constructor
  · rintro ⟨⟨name, reply⟩, hmem, failure, hfailure, rfl⟩
    cases reply with
    | ok output => cases hfailure
    | error failure => exact ⟨failure, hmem⟩
  · rintro ⟨failure, hmem⟩
    exact ⟨_, hmem, failure, rfl, rfl⟩

theorem not_mem_cache_failed (h : filename ∉ log.map Prod.fst) : filename ∉ log.cache.failed := by
  rw [mem_cache_failed]
  rintro ⟨failure, hmem⟩
  exact h (List.mem_map_of_mem hmem)

theorem lookup_cache_of_not_mem (h : filename ∉ log.map Prod.fst) :
    log.cache.tables.lookup filename = none := by
  rw [List.lookup_eq_none_iff]
  intro named hnamed
  simp only [cache, List.mem_filterMap, Option.map_eq_some_iff] at hnamed
  obtain ⟨entry, hentry, ds, -, rfl⟩ := hnamed
  have hne : filename ≠ entry.1 := fun he => h (he ▸ List.mem_map_of_mem hentry)
  simpa using hne

theorem lookup_cache (h : log.Distinct) (hmem : (filename, reply) ∈ log) :
    log.cache.tables.lookup filename = table? reply := by
  induction log with
  | nil => exact absurd hmem List.not_mem_nil
  | cons entry log ih =>
    obtain ⟨hnew, hrest⟩ := List.nodup_cons.mp h
    rcases List.mem_cons.mp hmem with rfl | htail
    · cases reply with
      | ok output => exact List.lookup_cons_self
      | error failure =>
        have hnone : (cache log).tables.lookup filename = none := lookup_cache_of_not_mem hnew
        exact hnone
    · have hne : filename ≠ entry.1 := fun he => hnew (he ▸ List.mem_map_of_mem htail)
      have hlookup := ih hrest htail
      obtain ⟨name, answer⟩ := entry
      cases answer with
      | ok output =>
        rw [← hlookup]
        have hbeq : (filename == name) = false := beq_eq_false_iff_ne.mpr hne
        exact List.lookup_cons.trans (by rw [hbeq]; rfl)
      | error failure => exact hlookup

theorem assignIn_cache_of_mem {o : Occurrence} (h : log.Distinct)
    (hmem : (o.filename, reply) ∈ log) : o.assignIn log.cache.tables = o.assignBy reply := by
  unfold Occurrence.assignIn
  rw [lookup_cache h hmem]
  cases reply with
  | ok output => rfl
  | error failure => rfl

theorem missing_cons_known (h : filename ∈ log.map Prod.fst) (filenames : List String) :
    log.missing (filename :: filenames) = log.missing filenames := by
  rw [missing, List.cons_removeAll, if_neg (by simpa using h)]
  rfl

theorem missing_cons_new (h : filename ∉ log.map Prod.fst) (reply : Reply)
    (filenames : List String) :
    log.missing (filename :: filenames) =
      filename :: missing (log ++ [(filename, reply)]) filenames := by
  have hrest (names : List String) :
      (filenames.removeAll names).filter (fun name => !name == filename) =
        filenames.removeAll (names ++ [filename]) := by
    rw [List.removeAll, List.removeAll, List.filter_filter]
    refine List.filter_congr fun name _ => ?_
    by_cases hname : name = filename <;> simp [hname]
  rw [missing, List.cons_removeAll, if_pos (by simpa using h), List.eraseDups_cons, hrest, missing,
    List.map_append, List.map_singleton]

theorem missing_nil (filenames : List String) : missing [] filenames = filenames.eraseDups := by
  rw [missing, List.map_nil, List.removeAll_nil]

theorem notices_append (log new : TagLog) : notices (log ++ new) = log.notices ++ new.notices := by
  simp only [notices, List.filterMap_append]

theorem cache_append (log new : TagLog) :
    cache (log ++ new) =
      ⟨log.cache.tables ++ new.cache.tables, log.cache.failed ++ new.cache.failed⟩ := by
  simp only [cache, List.filterMap_append]

end TagLog

namespace TagCache

variable {σ : Type} (tools : Toolbox σ) (tagger : String) {log : TagLog} {filename : String}

-- A file in the log is not asked for again, whatever its answer was.
theorem play_get_known {reply : Reply} (h : log.Distinct) (hmem : (filename, reply) ∈ log) (s : σ) :
    (get tagger log.cache filename).play tools s =
      ⟨.ok (TagLog.table? reply, log.cache), [], [], s⟩ := by
  have hlookup := TagLog.lookup_cache h hmem
  unfold get
  cases reply with
  | ok output =>
    have hfailed : filename ∉ log.cache.failed := by
      rw [TagLog.mem_cache_failed]
      rintro ⟨failure, hfailure⟩
      cases h.eq_of_mem hmem hfailure
    rw [if_neg (by simpa using hfailed), hlookup]
    rfl
  | error failure =>
    have hfailed : filename ∈ log.cache.failed :=
      (TagLog.mem_cache_failed log filename).mpr ⟨failure, hmem⟩
    rw [if_pos (by simpa using hfailed)]
    rfl

-- Any other file is asked for, and the log grows by it.
theorem play_get_new {reply : Reply} {s s' : σ} (h : filename ∉ log.map Prod.fst)
    (hrun : tools.run ⟨tagger, taggingArgs filename⟩ s = (reply, s')) :
    (get tagger log.cache filename).play tools s =
      ⟨.ok (TagLog.table? reply, TagLog.cache (log ++ [(filename, reply)])),
        [⟨tagger, taggingArgs filename⟩], TagLog.notices [(filename, reply)], s'⟩ := by
  have hfailed := TagLog.not_mem_cache_failed h
  unfold get
  rw [if_neg (by simpa using hfailed), TagLog.lookup_cache_of_not_mem h, TagLog.cache_append]
  dsimp only
  rw [Dialogue.bind_eq_bind, Dialogue.play_bind_ok (Dialogue.play_tryAsk hrun)]
  cases reply with
  | ok output =>
    simp [Dialogue.pure_eq_done, Dialogue.play, TagLog.table?, TagLog.notices, TagLog.failure?,
      TagLog.cache]
  | error failure =>
    simp [Dialogue.pure_eq_done, Dialogue.bind_eq_bind, Dialogue.notify, Dialogue.bind,
      Dialogue.play, TagLog.table?, TagLog.notices, TagLog.failure?, TagLog.cache]

-- One request after another on a cache, with their answers.
def getEach (tagger : String) (cache : TagCache) :
    List String → Dialogue (List (Option (List Declaration)) × TagCache)
  | [] => pure ([], cache)
  | filename :: filenames => do
    let (table, cache') ← cache.get tagger filename
    let (tables, last) ← cache'.getEach tagger filenames
    pure (table :: tables, last)

-- The induction is on the requests. Each file that the log lacks makes it grow, and it never
-- names a file twice.
theorem exists_play_getEach (h : log.Distinct) (filenames : List String) (s : σ) :
    ∃ (new : TagLog) (s' : σ), new.map Prod.fst = log.missing filenames ∧
      TagLog.Distinct (log ++ new) ∧ tools.Answers s (new.trace tagger) s' ∧
      (getEach tagger log.cache filenames).play tools s =
        ⟨.ok (filenames.map (TagLog.answer (log ++ new)), TagLog.cache (log ++ new)),
          (new.trace tagger).map Prod.fst, new.notices, s'⟩ := by
  induction filenames generalizing log s with
  | nil =>
    refine ⟨[], s, rfl, by rwa [List.append_nil], .nil s, ?_⟩
    rw [List.append_nil]
    rfl
  | cons filename filenames ih =>
    by_cases hknown : filename ∈ log.map Prod.fst
    · obtain ⟨⟨_, reply⟩, hmem, rfl⟩ := List.mem_map.mp hknown
      obtain ⟨new, s', hfiles, hdistinct, hanswers, hplay⟩ := ih h s
      have hanswer := TagLog.answer_of_mem hdistinct (List.mem_append_left new hmem)
      refine ⟨new, s', ?_, hdistinct, hanswers, ?_⟩
      · rw [hfiles, TagLog.missing_cons_known hknown]
      · rw [getEach, Dialogue.bind_eq_bind,
          Dialogue.play_bind_ok (play_get_known tools tagger h hmem s)]
        dsimp only
        rw [Dialogue.bind_eq_bind, Dialogue.play_bind_ok hplay, List.map_cons, hanswer]
        simp [Dialogue.pure_eq_done, Dialogue.play]
    · obtain ⟨reply, middle, hrun⟩ : ∃ reply middle,
          tools.run ⟨tagger, taggingArgs filename⟩ s = (reply, middle) := ⟨_, _, rfl⟩
      obtain ⟨new, s', hfiles, hdistinct, hanswers, hplay⟩ :=
        ih (h.append_singleton hknown reply) middle
      rw [← List.append_cons] at hdistinct hplay
      have hmem : (filename, reply) ∈ log ++ (filename, reply) :: new :=
        List.mem_append_right log List.mem_cons_self
      have hanswer := TagLog.answer_of_mem hdistinct hmem
      refine ⟨(filename, reply) :: new, s', ?_, hdistinct, .cons hrun hanswers, ?_⟩
      · rw [List.map_cons, hfiles, TagLog.missing_cons_new hknown reply]
      · have hnotices := TagLog.notices_append [(filename, reply)] new
        rw [List.singleton_append] at hnotices
        rw [getEach, Dialogue.bind_eq_bind,
          Dialogue.play_bind_ok (play_get_new tools tagger hknown hrun)]
        dsimp only
        rw [Dialogue.bind_eq_bind, Dialogue.play_bind_ok hplay, List.map_cons, hanswer, hnotices]
        simp [Dialogue.pure_eq_done, Dialogue.play, TagLog.trace]

-- The requests behind the tables are the same, but their answers are not kept.
theorem getAll_eq (cache : TagCache) (filenames : List String) :
    cache.getAll tagger filenames =
      (cache.getEach tagger filenames).bind fun answered => .done answered.2 := by
  induction filenames generalizing cache with
  | nil => rfl
  | cons filename filenames ih =>
    rw [getAll, getEach, Dialogue.bind_eq_bind, Dialogue.bind_eq_bind, Dialogue.bind_assoc]
    congr 1
    funext answered
    dsimp only
    rw [ih, Dialogue.bind_eq_bind, Dialogue.bind_assoc]
    rfl

end TagCache

-- Tables are built by requests for the files, one after another.
theorem play_buildTables {σ : Type} (tools : Toolbox σ) (tagger : String)
    (filenames : List String) (s : σ) :
    (buildTables tagger filenames).play tools s =
      let t := (TagCache.empty.getEach tagger filenames).play tools s
      ⟨t.outcome.map fun answered => answered.2.tables, t.calls, t.notices, t.state⟩ := by
  rw [buildTables, Dialogue.bind_eq_bind, TagCache.getAll_eq, Dialogue.bind_assoc]
  exact Dialogue.play_bind_done tools (TagCache.empty.getEach tagger filenames)
    (fun answered => answered.2.tables) s

theorem exists_play_buildTables {σ : Type} (tools : Toolbox σ) (tagger : String)
    (filenames : List String) (s : σ) :
    ∃ (log : TagLog) (s' : σ), log.map Prod.fst = filenames.eraseDups ∧ log.Distinct ∧
      tools.Answers s (log.trace tagger) s' ∧
      (buildTables tagger filenames).play tools s =
        ⟨.ok log.cache.tables, (log.trace tagger).map Prod.fst, log.notices, s'⟩ := by
  have hempty : TagLog.Distinct [] := List.nodup_nil
  obtain ⟨log, s', hfiles, hdistinct, hanswers, hplay⟩ :=
    TagCache.exists_play_getEach tools tagger hempty filenames s
  rw [TagLog.missing_nil] at hfiles
  refine ⟨log, s', hfiles, hdistinct, hanswers, ?_⟩
  have hbuild := play_buildTables tools tagger filenames s
  rw [show TagCache.empty = TagLog.cache [] from rfl, hplay] at hbuild
  exact hbuild

end Concordance
