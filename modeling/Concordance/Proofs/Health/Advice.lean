import Concordance.Health
import Concordance.Proofs.Tool.Dialogue
import Concordance.Tool.Script

namespace Concordance

-- The text of an advisory. The other notices are not for the user.
def Notice.advice? : Notice → Option String
  | advisory text => some text
  | _ => none

namespace Config

def outspoken (config : Config) : Config := { config with suppressWarnings := false }

def quiet (config : Config) : Config := { config with suppressWarnings := true }

end Config

namespace Health

-- What the user is to be told of a check.
def Checked.due (c : Checked) : List String := if c.finding.ok then [] else [c.finding.detail]

def Checked.muted (c : Checked) : Checked := ⟨c.finding, []⟩

-- The user is told what is wrong, in the order of the checks, and nothing else.
def Advised (cs : List Checked) : Prop := cs.flatMap Checked.delivered = cs.flatMap Checked.due

variable {σ : Type} {tools : Toolbox σ}

-- A check that is told of and one that is not go the same way to the same finding. The
-- advisories are those that the result speaks of, and there are none without telling.
structure ComesTo (tools : Toolbox σ) (told untold : Dialogue Checked) (s : σ) (c : Checked)
    (calls : List Invocation) (s' : σ) : Prop where
  told : ∃ notices, told.play tools s = ⟨.ok c, calls, notices, s'⟩ ∧
    notices.filterMap Notice.advice? = c.delivered
  untold : ∃ notices, untold.play tools s = ⟨.ok c.muted, calls, notices, s'⟩ ∧
    notices.filterMap Notice.advice? = []

theorem comesTo_done {c : Checked} (h : c.delivered = []) (s : σ) :
    ComesTo tools (.done c) (.done c) s c [] s := by
  have hmuted : c.muted = c := by rw [Checked.muted, ← h]
  constructor
  · exact ⟨[], rfl, h.symm⟩
  · rw [hmuted]
    exact ⟨[], rfl, rfl⟩

theorem comesTo_advised (config : Config) (name detail : String) (s : σ) :
    ComesTo tools (advised config.outspoken name detail) (advised config.quiet name detail) s
      ⟨⟨name, false, detail⟩, [detail]⟩ [] s := by
  constructor
  · exact ⟨[.advisory detail], rfl, rfl⟩
  · exact ⟨[], rfl, rfl⟩

theorem ComesTo.ask {call : Invocation} {reply : Reply} {told untold : Reply → Dialogue Checked}
    {s middle s' : σ} {c : Checked} {calls : List Invocation}
    (hrun : tools.run call s = (reply, middle))
    (h : ComesTo tools (told reply) (untold reply) middle c calls s') :
    ComesTo tools ((Dialogue.tryAsk call).bind told) ((Dialogue.tryAsk call).bind untold) s c
      (call :: calls) s' := by
  obtain ⟨⟨notices, htold, hnotices⟩, ⟨none, huntold, hnone⟩⟩ := h
  constructor
  · refine ⟨notices, ?_, hnotices⟩
    rw [Dialogue.play_bind_ok (Dialogue.play_tryAsk hrun), htold]
    rfl
  · refine ⟨none, ?_, hnone⟩
    rw [Dialogue.play_bind_ok (Dialogue.play_tryAsk hrun), huntold]
    rfl

theorem ComesTo.warn {notice : Notice} (hnotice : notice.advice? = none)
    {told untold : Dialogue Checked} {s s' : σ} {c : Checked} {calls : List Invocation}
    (h : ComesTo tools told untold s c calls s') :
    ComesTo tools (.warn notice told) (.warn notice untold) s c calls s' := by
  obtain ⟨⟨notices, htold, hnotices⟩, ⟨none, huntold, hnone⟩⟩ := h
  constructor
  · refine ⟨notice :: notices, ?_, ?_⟩
    · simp only [Dialogue.play, htold]
    · rw [List.filterMap_cons_none hnotice, hnotices]
  · refine ⟨notice :: none, ?_, ?_⟩
    · simp only [Dialogue.play, huntold]
    · rw [List.filterMap_cons_none hnotice, hnone]

theorem exists_checkIndexer (tools : Toolbox σ) (config : Config) (s : σ) :
    ∃ c, ComesTo tools (checkIndexer config.outspoken) (checkIndexer config.quiet) s c
        [versionCall config.indexer] (tools.run (versionCall config.indexer) s).2 ∧
      c.delivered = c.due := by
  rcases hrun : tools.run (versionCall config.indexer) s with ⟨reply, s'⟩
  cases reply with
  | ok output => exact ⟨_, .ask hrun (comesTo_done rfl s'), rfl⟩
  | error failure => exact ⟨_, .ask hrun (comesTo_advised config _ _ s'), rfl⟩

theorem exists_checkTagger (tools : Toolbox σ) (config : Config) (s : σ) :
    ∃ c, ComesTo tools (checkTagger config.outspoken) (checkTagger config.quiet) s c
        [versionCall config.tagger] (tools.run (versionCall config.tagger) s).2 ∧
      c.delivered = c.due := by
  rcases hrun : tools.run (versionCall config.tagger) s with ⟨reply, s'⟩
  cases reply with
  | error failure => exact ⟨_, .ask hrun (comesTo_advised config _ _ s'), rfl⟩
  | ok output =>
    by_cases hname : Text.contains output "Universal Ctags"
    · refine ⟨passed "tagger" (firstLine output), .ask hrun ?_, rfl⟩
      simp only [if_pos hname]
      exact comesTo_done rfl s'
    · refine ⟨⟨⟨"tagger", false, taggerRequired⟩, [taggerRequired]⟩, .ask hrun ?_, rfl⟩
      simp only [if_neg hname]
      exact comesTo_advised config _ _ s'

def updateCall (config : Config) : Invocation := ⟨config.indexer, ["-u"]⟩

-- There is an index that cannot be looked at, and it cannot be brought up to date either.
def Unrepaired (tools : Toolbox σ) (config : Config) (found : Except SystemFault Unit) (s : σ) :
    Prop :=
  ∃ fault failure s', found = .error fault ∧ fault ≠ .missing ∧
    tools.run (updateCall config) s = (.error failure, s')

theorem checkIndex_unreadable (config : Config) (root : Path) {fault : SystemFault}
    (hfault : fault ≠ .missing) :
    checkIndex config root (.error fault) =
      .warn .indexUnreadable ((Dialogue.tryAsk (updateCall config)).bind fun reply =>
        .done ⟨⟨"index", reply.isOk, fault.text⟩, []⟩) := by
  cases fault with
  | missing => exact absurd rfl hfault
  | _ =>
    apply congrArg (Dialogue.warn .indexUnreadable)
    apply congrArg (Dialogue.bind (Dialogue.tryAsk (updateCall config)))
    funext reply
    cases reply with
    | ok _ => rfl
    | error _ => rfl

theorem exists_checkIndex (tools : Toolbox σ) (config : Config) (root : Path)
    (found : Except SystemFault Unit) (s : σ) :
    ∃ c calls s', ComesTo tools (checkIndex config.outspoken root found)
        (checkIndex config.quiet root found) s c calls s' ∧
      (c.delivered = c.due ↔ ¬ Unrepaired tools config found s) := by
  cases found with
  | ok _ =>
    refine ⟨_, [], s, comesTo_done rfl s, iff_of_true rfl ?_⟩
    rintro ⟨fault, -, -, hfound, -, -⟩
    cases hfound
  | error fault =>
    by_cases hfault : fault = .missing
    · subst hfault
      refine ⟨_, [], s, comesTo_advised config "index" indexMissing s, iff_of_true rfl ?_⟩
      rintro ⟨fault, -, -, hfound, hne, -⟩
      cases hfound
      exact hne rfl
    · rcases hrun : tools.run (updateCall config) s with ⟨reply, s'⟩
      refine ⟨⟨⟨"index", reply.isOk, fault.text⟩, []⟩, [updateCall config], s', ?_, ?_⟩
      · rw [checkIndex_unreadable _ root hfault, checkIndex_unreadable _ root hfault]
        exact .warn rfl (.ask hrun (comesTo_done rfl s'))
      · cases reply with
        | ok output =>
          refine iff_of_true rfl ?_
          rintro ⟨-, failure, left, -, -, hfailed⟩
          rw [hrun] at hfailed
          cases hfailed
        | error failure =>
          refine iff_of_false (List.cons_ne_nil _ _).symm ?_
          exact not_not_intro ⟨fault, failure, s', rfl, hfault, hrun⟩

theorem play_checkAll {config : Config} {root : Path} {found : Except SystemFault Unit}
    {s s₁ s₂ s₃ : σ} {indexer tagger index : Checked} {calls₁ calls₂ calls₃ : List Invocation}
    {notices₁ notices₂ notices₃ : List Notice}
    (hindexer : (checkIndexer config).play tools s = ⟨.ok indexer, calls₁, notices₁, s₁⟩)
    (htagger : (checkTagger config).play tools s₁ = ⟨.ok tagger, calls₂, notices₂, s₂⟩)
    (hindex : (checkIndex config root found).play tools s₂ = ⟨.ok index, calls₃, notices₃, s₃⟩) :
    (checkAll config root found).play tools s =
      ⟨.ok [indexer, tagger, index], calls₁ ++ (calls₂ ++ calls₃),
        notices₁ ++ (notices₂ ++ notices₃), s₃⟩ := by
  rw [checkAll, Dialogue.bind_eq_bind, Dialogue.play_bind_ok hindexer, Dialogue.bind_eq_bind,
    Dialogue.play_bind_ok htagger, Dialogue.bind_eq_bind, Dialogue.play_bind_ok hindex]
  simp [Dialogue.pure_eq_done, Dialogue.play]

def afterVersions (tools : Toolbox σ) (config : Config) (s : σ) : σ :=
  (tools.run (versionCall config.tagger) (tools.run (versionCall config.indexer) s).2).2

-- Without advisories the checks ask the same and find the same, and nobody is told of
-- anything. With them, the user is told what is wrong and nothing else, except where an
-- index can neither be looked at nor be brought up to date: this nobody is told of.
theorem checkAll_advised_iff (tools : Toolbox σ) (config : Config) (root : Path)
    (found : Except SystemFault Unit) (s : σ) :
    ∃ cs calls notices untold s',
      (checkAll config.outspoken root found).play tools s = ⟨.ok cs, calls, notices, s'⟩ ∧
      (checkAll config.quiet root found).play tools s =
        ⟨.ok (cs.map Checked.muted), calls, untold, s'⟩ ∧
      notices.filterMap Notice.advice? = cs.flatMap Checked.delivered ∧
      untold.filterMap Notice.advice? = [] ∧
      (Advised cs ↔ ∀ c ∈ cs, c.delivered = c.due) ∧
      (Advised cs ↔ ¬ Unrepaired tools config found (afterVersions tools config s)) := by
  obtain ⟨indexer, hindexer, hindexerDue⟩ := exists_checkIndexer tools config s
  obtain ⟨tagger, htagger, htaggerDue⟩ :=
    exists_checkTagger tools config (tools.run (versionCall config.indexer) s).2
  obtain ⟨index, calls, s', hindex, hindexDue⟩ :=
    exists_checkIndex tools config root found (afterVersions tools config s)
  obtain ⟨⟨notices₁, htold₁, hnotices₁⟩, ⟨untold₁, huntold₁, hnone₁⟩⟩ := hindexer
  obtain ⟨⟨notices₂, htold₂, hnotices₂⟩, ⟨untold₂, huntold₂, hnone₂⟩⟩ := htagger
  obtain ⟨⟨notices₃, htold₃, hnotices₃⟩, ⟨untold₃, huntold₃, hnone₃⟩⟩ := hindex
  have hadvised : Advised [indexer, tagger, index] ↔ index.delivered = index.due := by
    simp [Advised, hindexerDue, htaggerDue]
  refine ⟨[indexer, tagger, index], _, _, _, s', play_checkAll htold₁ htold₂ htold₃,
    play_checkAll huntold₁ huntold₂ huntold₃, ?_, ?_, ?_, hadvised.trans hindexDue⟩
  · simp [hnotices₁, hnotices₂, hnotices₃]
  · simp [hnone₁, hnone₂, hnone₃]
  · simp [hadvised, hindexerDue, htaggerDue]

-- Both tools are there. The index cannot be looked at, and its update fails.
def brokenUpdate : Script :=
  [⟨versionCall "global", .ok "global (GNU GLOBAL) 6.6.10\n", none⟩,
    ⟨versionCall "ctags", .ok "Universal Ctags 6.0.0\n", none⟩,
    ⟨updateCall {}, .error (.exited "global" (some 1) "global: GTAGS not found."), none⟩]

theorem brokenUpdate_not_advised :
    ¬ ∀ (config : Config) (root : Path) (found : Except SystemFault Unit) (s : Script)
        (cs : List Checked), config.suppressWarnings = false →
      ((checkAll config root found).play Script.toolbox s).outcome = .ok cs → Advised cs := by
  intro h
  have hbroken := h {} "/ws" (.error .notFolder) brokenUpdate
    [⟨⟨"indexer", true, "global (GNU GLOBAL) 6.6.10"⟩, []⟩,
      ⟨⟨"tagger", true, "Universal Ctags 6.0.0"⟩, []⟩,
      ⟨⟨"index", false, "Not a directory (os error 20)"⟩, []⟩] rfl rfl
  cases hbroken

end Health

end Concordance
