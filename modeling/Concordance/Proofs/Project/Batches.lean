import Mathlib.Logic.Equiv.Defs
import Concordance.Proofs.Project.References

namespace Concordance.Project

variable {σ : Type} (p : Project) {tools : Toolbox σ}

-- What tools that answer by the invocation alone make of an occurrence.
def tagged (tools : Toolbox σ) (s : σ) (o : Occurrence) : Occurrence :=
  o.assignBy (tools.run ⟨p.config.tagger, taggingArgs o.filename⟩ s).1

-- The tables of a pass are those of all files in the batch, but an occurrence is looked up in
-- that of its own file only, and each file has the same one in every batch.
theorem play_enrich_outcome (h : tools.Stateless) (t : σ) (os : List Occurrence) (s : σ) :
    ((p.enrich os).play tools s).outcome = .ok (os.map (p.tagged tools t)) := by
  obtain ⟨log, s', hfiles, hdistinct, hanswers, hplay⟩ := p.exists_play_enrich tools os s
  rw [hplay, assignAll]
  refine congrArg Except.ok (List.map_congr_left fun o ho => ?_)
  obtain ⟨reply, hmem⟩ := TagLog.exists_reply_of_mem hfiles ho
  have hasked : (⟨p.config.tagger, taggingArgs o.filename⟩, reply) ∈
      log.trace p.config.tagger := List.mem_map_of_mem hmem
  rw [tagged, hanswers.run_eq h hasked t]
  exact TagLog.assignIn_cache_of_mem hdistinct hmem

-- Where the tools answer by the invocation alone, what becomes of an occurrence is decided by
-- the answer for its own file, and it does not matter in which batch it is assigned: two batches
-- in one pass come out as in a pass for each of them, and a batch in another order comes out in
-- that order.
theorem enrich_batches (h : tools.Stateless) :
    (∀ (os : List Occurrence) (s t : σ),
      ((p.enrich os).play tools s).outcome = .ok (os.map (p.tagged tools t))) ∧
    (∀ (first second : List Occurrence) (s s₁ s₂ : σ), ∃ done₁ done₂,
      ((p.enrich first).play tools s₁).outcome = .ok done₁ ∧
        ((p.enrich second).play tools s₂).outcome = .ok done₂ ∧
        ((p.enrich (first ++ second)).play tools s).outcome = .ok (done₁ ++ done₂)) ∧
    ∀ (n : Nat) (os : Fin n → Occurrence) (order : Equiv.Perm (Fin n)) (s s' : σ),
      ∃ done : Fin n → Occurrence,
        ((p.enrich (List.ofFn os)).play tools s).outcome = .ok (List.ofFn done) ∧
          ((p.enrich (List.ofFn fun i => os (order i))).play tools s').outcome =
            .ok (List.ofFn fun i => done (order i)) := by
  have houtcome (os : List Occurrence) (s t : σ) := p.play_enrich_outcome h t os s
  refine ⟨houtcome, ?_, ?_⟩
  · intro first second s s₁ s₂
    refine ⟨_, _, houtcome first s₁ s, houtcome second s₂ s, ?_⟩
    rw [houtcome _ s s, List.map_append]
  · intro n os order s s'
    refine ⟨fun i => p.tagged tools s (os i), ?_, ?_⟩
    · rw [houtcome _ s s, List.map_ofFn]
      rfl
    · rw [houtcome _ s' s, List.map_ofFn]
      rfl

-- Tools that know one file and fail on every other.
def oneFile : Toolbox Unit where
  run call s :=
    if call.args = taggingArgs "main.c" then
      (.ok "main\tmain.c\t/^int main(void) \x7b$/;\"\tfunction\tline:1\tend:5\n", s)
    else (.error (.exited "ctags" (some 1) ""), s)
  list _ s := (.error (.notStarted "global" ""), s)

def useInMain : Occurrence := ⟨"x", 3, "main.c", "  return x;", .referencedBy, none, ""⟩

def useElsewhere : Occurrence := ⟨"x", 8, "lost.c", "  x = 1;", .referencedBy, none, ""⟩

theorem enrich_batches_oneFile :
    oneFile.Stateless ∧
      ((Project.enrich ⟨{}, "/ws"⟩ ([useElsewhere] ++ [useInMain])).play oneFile ()).outcome =
        .ok ([useElsewhere] ++
          [{ useInMain with enclosing := some "main", kind := "function" : Occurrence }]) := by
  have hstateless : oneFile.Stateless := fun _ _ _ => rfl
  obtain ⟨houtcome, hbatches, -⟩ := enrich_batches ⟨{}, "/ws"⟩ hstateless
  obtain ⟨first, second, hfirst, hsecond, hboth⟩ :=
    hbatches [useElsewhere] [useInMain] () () ()
  have hlost : [useElsewhere] = first := Except.ok.inj ((houtcome _ () ()).symm.trans hfirst)
  have hmain : second = [{ useInMain with enclosing := some "main", kind := "function" }] :=
    (Except.ok.inj ((houtcome _ () ()).symm.trans hsecond)).symm.trans (by decide +kernel)
  rw [← hlost, hmain] at hboth
  exact ⟨hstateless, hboth⟩

end Concordance.Project
