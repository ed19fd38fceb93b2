import Concordance.Proofs.Tagging.Log

namespace Concordance

namespace TagCache

-- What a cache holds after the first runs of the tool on its files: a table for each file on
-- which the run succeeded, a mark for each other one, and nothing else.
structure Keeps (cache : TagCache) (log : TagLog) : Prop where
  table : ∀ filename ds, cache.tables.lookup filename = some ds ↔
    ∃ output, (filename, .ok output) ∈ log ∧ Declaration.ofOutput output = ds
  single : (cache.tables.map Prod.fst).Nodup
  failed : ∀ filename, filename ∈ cache.failed ↔ ∃ failure, (filename, .error failure) ∈ log
  apart : ∀ filename ∈ cache.failed, cache.tables.lookup filename = none
  size : cache.size = (log.filter fun entry => entry.2.isOk).length

end TagCache

namespace TagLog

variable {log : TagLog} {filename : String}

theorem mem_of_lookup_cache {ds : List Declaration}
    (h : log.cache.tables.lookup filename = some ds) :
    ∃ output, (filename, .ok output) ∈ log ∧ Declaration.ofOutput output = ds := by
  obtain ⟨before, after, htables, -⟩ := List.lookup_eq_some_iff.mp h
  have hmem : (filename, ds) ∈ log.cache.tables := by
    rw [htables]
    exact List.mem_append_right before List.mem_cons_self
  obtain ⟨⟨name, reply⟩, hentry, hkept⟩ := List.mem_filterMap.mp hmem
  cases reply with
  | ok output =>
    cases hkept
    exact ⟨output, hentry, rfl⟩
  | error failure => cases hkept

theorem keys_cache (log : TagLog) :
    log.cache.tables.map Prod.fst = (log.filter fun entry => entry.2.isOk).map Prod.fst := by
  induction log with
  | nil => rfl
  | cons entry log ih =>
    obtain ⟨name, reply⟩ := entry
    cases reply with
    | ok output => exact congrArg (name :: ·) ih
    | error failure => exact ih

theorem cache_keeps (h : log.Distinct) : log.cache.Keeps log where
  table filename ds := by
    refine ⟨mem_of_lookup_cache, ?_⟩
    rintro ⟨output, hmem, rfl⟩
    exact lookup_cache h hmem
  single := by
    rw [keys_cache]
    exact h.sublist (List.filter_sublist.map Prod.fst)
  failed := mem_cache_failed log
  apart filename hfailed := by
    obtain ⟨failure, hmem⟩ := (mem_cache_failed log filename).mp hfailed
    exact lookup_cache h hmem
  size := by
    have hkeys := congrArg List.length log.keys_cache
    simpa [TagCache.size] using hkeys

theorem calls_trace (tagger : String) (log : TagLog) :
    (log.trace tagger).map Prod.fst =
      (log.map Prod.fst).map fun filename => ⟨tagger, taggingArgs filename⟩ := by
  simp only [trace, List.map_map]
  rfl

end TagLog

-- However often files are asked for and whatever the tool does, it is run once on each of them,
-- in the order in which they are first asked for. Every request for a file is answered by that
-- one run, and what the cache then holds, and the tables built from the same files, is what
-- these runs gave.
theorem TagCache.getEach_answered {σ : Type} (tools : Toolbox σ) (tagger : String)
    (filenames : List String) (s : σ) :
    ∃ (log : TagLog) (cache : TagCache) (s' : σ),
      log.map Prod.fst = filenames.eraseDups ∧ tools.Answers s (log.trace tagger) s' ∧
      (empty.getEach tagger filenames).play tools s =
        ⟨.ok (filenames.map log.answer, cache),
          filenames.eraseDups.map fun filename => ⟨tagger, taggingArgs filename⟩,
          log.notices, s'⟩ ∧
      cache.Keeps log ∧
      (buildTables tagger filenames).play tools s =
        ⟨.ok cache.tables,
          filenames.eraseDups.map fun filename => ⟨tagger, taggingArgs filename⟩,
          log.notices, s'⟩ := by
  have hempty : TagLog.Distinct [] := List.nodup_nil
  obtain ⟨log, s', hfiles, hdistinct, hanswers, hplay⟩ :=
    exists_play_getEach tools tagger hempty filenames s
  rw [List.nil_append] at hdistinct hplay
  rw [TagLog.missing_nil] at hfiles
  rw [TagLog.calls_trace, hfiles] at hplay
  refine ⟨log, log.cache, s', hfiles, hanswers, hplay, TagLog.cache_keeps hdistinct, ?_⟩
  have hbuild := play_buildTables tools tagger filenames s
  rw [show empty = TagLog.cache [] from rfl, hplay] at hbuild
  exact hbuild

end Concordance
