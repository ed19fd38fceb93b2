import Concordance.Proofs.Health.Report
import Concordance.Proofs.Project.Faults
import Concordance.Proofs.Session.Printing
import Concordance.Proofs.Session.Result
import Concordance.Toml.Reader
import Concordance.Tool.Script

namespace Concordance

deriving instance DecidableEq for Outcome

namespace Session

variable {σ : Type} {tools : Toolbox σ} (s : Session)

theorem trackAll_cons (p : Project) (roots : Roots) (symbol : String) (symbols : List String) :
    trackAll p roots (symbol :: symbols) =
      (p.expand (.symbol symbol) true).bind fun nodes =>
        trackAll p (roots.commit nodes).roots symbols := by
  rw [trackAll, Dialogue.bind_eq_bind, Roots.track, Dialogue.bind_eq_bind, Dialogue.bind_assoc]
  exact Dialogue.attempt_bind (fun _ => rfl) _

theorem failsOn_trackAll {p : Project} (roots : Roots) (symbols : List String) :
    (trackAll p roots symbols).FailsOn tools p.IsQuery := by
  induction symbols generalizing roots with
  | nil => exact Dialogue.failsOn_done _
  | cons symbol symbols ih =>
    rw [trackAll_cons]
    exact (Project.failsOn_expand _ _).bind fun nodes => ih _

theorem failsOn_branches (symbols : List String) (depth : Nat) :
    (s.branches symbols depth).FailsOn tools s.project.IsQuery :=
  (failsOn_trackAll _ _).bind fun roots =>
    Dialogue.FailsOn.forEach (Project.failsOn_render _ _) roots

variable (tools)

-- The invocations without which a command has no result. What a file declares is only looked up
-- beside the answers of the indexer, but for the one command that prints it.
def Decisive : Command → Invocation → Prop
  | .outline _ => s.project.IsTagging
  | _ => s.project.IsQuery

-- The one command that the settings can forbid.
def Refuses : Command → Prop
  | .complete _ => s.config.completion = false
  | _ => False

-- A whole rendering of a result: for a program the text of its JSON value, on lines of its own,
-- and for people the report of it.
inductive Renders (r : Result) : String → Prop
  | json {value : String} (hjson : s.json = true) (hvalue : r.json.render? = some value) :
      Renders r (value ++ "\n")
  | human (hhuman : s.json = false) : Renders r r.human

-- A command has printed one whole rendering of what it found and succeeded, or it has printed
-- nothing and failed.
inductive WholeOrNothing : Except CommandError Result → Outcome Unit → Prop
  | whole {r : Result} {text : String} (h : s.Renders r text) :
      WholeOrNothing (.ok r) ⟨text, .ok ()⟩
  | nothing (e : CommandError) : WholeOrNothing (.error e) ⟨"", .error e⟩

theorem WholeOrNothing.eq_of_error {found : Except CommandError Result} {outcome : Outcome Unit}
    (h : s.WholeOrNothing found outcome) {e : CommandError} (herror : outcome.result = .error e) :
    outcome = ⟨"", .error e⟩ := by
  cases h with
  | whole => cases herror
  | nothing =>
    cases herror
    rfl

-- What comes of a command that prints all that it has or nothing.
def outcomeOf : Except CommandError Result → Outcome Unit
  | .ok r => ⟨s.emitted r.json r.human, .ok ()⟩
  | .error e => ⟨"", .error e⟩

theorem Renders.writable {r : Result} {text : String} (h : s.Renders r text)
    (hjson : s.json = true) : r.json.writable = true := by
  cases h with
  | json _ hvalue =>
    by_contra hnot
    rw [Json.render?, if_neg hnot] at hvalue
    cases hvalue
  | human hhuman => cases hjson.symm.trans hhuman

-- A rendering is printed of every result, but for one with a path that is no text.
theorem renders_emitted_iff (r : Result) :
    s.Renders r (s.emitted r.json r.human) ↔
      (s.json = true → ∀ path ∈ r.paths, path.IsText) := by
  rw [← Result.writable_json_iff]
  constructor
  · exact fun h hjson => h.writable s hjson
  · intro hwritable
    rw [emitted]
    by_cases hjson : s.json = true
    · have hvalue : r.json.render? = some (String.ofList (r.json.pretty 0)) :=
        if_pos (hwritable hjson)
      rw [if_pos hjson, Json.format, hvalue]
      exact .json hjson hvalue
    · rw [if_neg hjson]
      exact .human (eq_false_of_ne_true hjson)

-- In place of a result that has no rendering there is an error.
theorem emitted_of_not_text {r : Result} (hjson : s.json = true)
    (h : ¬ ∀ path ∈ r.paths, path.IsText) : s.emitted r.json r.human = Json.unwritable ++ "\n" := by
  rw [← Result.writable_json_iff] at h
  rw [emitted, if_pos hjson, Json.format, Json.render?, if_neg h]
  rfl

theorem wholeOrNothing_outcomeOf_iff (found : Except CommandError Result) :
    s.WholeOrNothing found (s.outcomeOf found) ↔
      ∀ r, found = .ok r → s.json = true → ∀ path ∈ r.paths, path.IsText := by
  cases found with
  | error e => exact iff_of_true (.nothing e) nofun
  | ok r =>
    have hrenders := s.renders_emitted_iff r
    constructor
    · rintro ⟨h⟩ _ ⟨⟩
      exact hrenders.mp h
    · exact fun h => .whole (hrenders.mpr (h r rfl))

theorem outcomeOf_fails_iff (found : Except CommandError Result) :
    (∃ e, (s.outcomeOf found).result = .error e) ↔ ∃ e, found = .error e := by
  cases found <;> simp [outcomeOf]

-- What comes of a computation, and when it fails: when it is refused, when a decisive invocation
-- fails, and at no other time.
structure Delivers (c : Console Unit) (t : σ) (found : Except CommandError Result)
    (refused : Prop) (decisive : Invocation → Prop) : Prop where
  outcome : (c.dialogue.play tools t).outcome = .ok (s.outcomeOf found)
  fails_iff : (∃ e, found = .error e) ↔ refused ∨ ∃ call ∈ c.dialogue.faults tools t, decisive call

variable {tools}

theorem delivers_printing {α : Type} {d : Dialogue α} {decisive : Invocation → Prop}
    (h : d.FailsOn tools decisive) (result : α → Result) (t : σ) :
    s.Delivers tools
      (s.printing d (fun value => (result value).json) (fun value => (result value).human)) t
      (found.ending tools t d result) False decisive where
  outcome := by
    rw [play_printing, found.ending]
    cases (d.play tools t).outcome <;> rfl
  fails_iff := by
    rw [false_or, faults_printing, ← h t, found.ending]
    cases (d.play tools t).outcome with
    | ok value =>
      refine iff_of_false ?_ ?_
      · rintro ⟨e, he⟩
        cases he
      · rintro ⟨failure, hfailure⟩
        cases hfailure
    | error failure => exact iff_of_true ⟨_, rfl⟩ ⟨failure, rfl⟩

-- What is printed of a listing that was awaited.
def completed (start : String) (cache : Completion.Cache) : Console Unit :=
  match cache.status with
  | .failed cause => Console.fail (.listingFailed cause)
  | _ =>
    let tags := cache.matching start
    s.emit (.array (tags.map .text)) (Report.tags tags)

-- The listing of a command, in a cache in which nothing was listed before.
def listing : Dialogue Completion.Cache :=
  Completion.Cache.run ⟨[], .running, 1, none⟩ ⟨1, s.listCall, false⟩

theorem complete_eq (start : String) :
    s.complete start =
      if s.config.completion then (Console.hold s.listing).bind (s.completed start)
      else Console.fail .completionDisabled := by
  by_cases henabled : s.config.completion = true
  · simp only [complete, Completion.Cache.start, if_pos henabled]
    refine congrArg (Console.bind (Console.hold s.listing)) (funext fun cache => ?_)
    unfold completed
    cases cache.status <;> rfl
  · simp only [complete, Completion.Cache.start, if_neg henabled]
    rfl

theorem completed_of_failed {start cause : String} {cache : Completion.Cache}
    (h : cache.status = .failed cause) :
    s.completed start cache = Console.fail (.listingFailed cause) := by
  rw [completed, h]

theorem completed_of_ready {start : String} {cache : Completion.Cache} (h : cache.status = .ready) :
    s.completed start cache = Console.print (s.emitted
      (.array ((cache.matching start).map .text)) (Report.tags (cache.matching start))) := by
  rw [completed, h]
  rfl

theorem delivers_complete (files : FileTree) (start : String) (t : σ) :
    s.Delivers tools (s.complete start) t (s.found tools files t (.complete start))
      (s.config.completion = false) s.project.IsQuery := by
  rw [complete_eq, found]
  by_cases henabled : s.config.completion = true
  · rcases hlist : tools.list s.listCall t with ⟨reply, t'⟩
    have hheard := Completion.Cache.heard_of_fresh (c := ⟨[], .running, 1, none⟩) rfl rfl reply
    have hlisted : (s.listing.play tools t).outcome = .ok _ :=
      Completion.Cache.play_run_outcome hlist
    have hfaults : s.listing.faults tools t = if Listing.good reply then [] else [s.listCall] :=
      Completion.Cache.faults_run hlist
    have hquery : s.project.IsQuery s.listCall := ⟨.completions, rfl⟩
    rw [if_pos henabled, if_pos henabled]
    cases htags : Completion.tagsOf reply with
    | error cause =>
      rw [htags] at hheard
      constructor
      · rw [Console.play_hold_bind, hlisted]
        dsimp only
        rw [s.completed_of_failed hheard]
        rfl
      · rw [Console.faults_hold_bind, hlisted, hfaults, Completion.good_eq, htags]
        dsimp only
        rw [s.completed_of_failed hheard]
        simp [Except.isOk, Except.toBool, hquery]
    | ok tags =>
      rw [htags] at hheard
      obtain ⟨hready, hmatching⟩ := hheard
      constructor
      · rw [Console.play_hold_bind, hlisted]
        dsimp only
        rw [s.completed_of_ready hready, Completion.Cache.matching, hmatching]
        rfl
      · rw [Console.faults_hold_bind, hlisted, hfaults, Completion.good_eq, htags]
        dsimp only
        rw [s.completed_of_ready hready]
        simp [Except.isOk, Except.toBool, Console.print, Dialogue.faults, henabled]
  · rw [if_neg henabled, if_neg henabled]
    exact ⟨rfl, iff_of_true ⟨_, rfl⟩ (.inl (eq_false_of_ne_true henabled))⟩

variable (tools)

theorem delivers_carry {command : Command} (h : command ≠ .doctor) (files : FileTree)
    (index : Except SystemFault Unit) (t : σ) :
    s.Delivers tools (s.carry index command) t (s.found tools files t command)
      (s.Refuses command) (s.Decisive command) := by
  cases command with
  | refs symbol =>
    exact s.delivers_printing (Project.failsOn_references symbol) (.occurrences symbol) t
  | «def» symbol =>
    exact s.delivers_printing (Project.failsOn_definitions symbol) (.locations symbol) t
  | symbols file =>
    exact s.delivers_printing (Project.failsOn_fileSymbols file) (.occurrences file) t
  | outline file =>
    exact s.delivers_printing (Project.failsOn_outline file) .outline t
  | search query =>
    exact s.delivers_printing (Project.failsOn_symbolHits query) (.symbolHits query) t
  | tree symbols depth =>
    exact s.delivers_printing (s.failsOn_branches symbols depth) .branches t
  | complete start => exact s.delivers_complete files start t
  | doctor => exact absurd rfl h

theorem delivers_run {command : Command} (h : command ≠ .doctor) (files : FileTree)
    (index : Except SystemFault Unit) (t : σ) :
    s.Delivers tools (s.run index command) t (s.found tools files t command)
      (s.Refuses command) (s.Decisive command) := by
  obtain ⟨houtcome, hfails⟩ := s.delivers_carry tools h files index t
  constructor
  · rw [play_run]
    exact houtcome
  · rw [faults_run]
    exact hfails

-- What comes of the doctor's findings.
def reported (fs : List Finding) : Outcome Unit :=
  let r := Result.findings fs
  let bad := fs.filter fun f => !f.ok
  ⟨s.emitted r.json r.human, if bad.isEmpty then .ok () else .error (.checksFailed bad.length)⟩

theorem reported_fails_iff (fs : List Finding) :
    (∃ e, (s.reported fs).result = .error e) ↔ ∃ f ∈ fs, f.ok = false := by
  have hbad : fs.filter (fun f => !f.ok) = [] ↔ ¬ ∃ f ∈ fs, f.ok = false := by
    simp [List.filter_eq_nil_iff]
  by_cases hempty : fs.filter (fun f => !f.ok) = []
  · simp [reported, hempty, hbad.mp hempty]
  · simp [reported, hempty, Classical.not_not.mp (mt hbad.mpr hempty)]

-- The doctor prints all findings, also when it fails.
theorem exists_doctor_outcome (files : FileTree) (t : σ) :
    ∃ fs, s.found tools files t .doctor = .ok (.findings fs) ∧
      fs.map Finding.name = ["indexer", "tagger", "index"] ∧
      ((s.doctor (Health.probe files s.workspace.root)).dialogue.play tools t).outcome =
        .ok (s.reported fs) := by
  obtain ⟨checked, hchecked, hnames⟩ := (Health.checkAll_ends s.config s.workspace.root
    (Health.probe files s.workspace.root)).exists_value tools t
  refine ⟨checked.map Health.Checked.finding, ?_, ?_, ?_⟩
  · rw [found, found.ending, hchecked]
    rfl
  · rw [List.map_map]
    exact hnames
  · refine (Console.play_hold_bind tools (Health.checkAll s.config s.workspace.root
      (Health.probe files s.workspace.root)) _ t).trans ?_
    rw [hchecked]
    dsimp only [reported]
    split
    · exact Console.play_print_bind_done tools _ () _
    · exact Console.play_print_bind_fail tools _ _ _

theorem renders_findings (fs : List Finding) :
    s.Renders (.findings fs) (s.reported fs).stdout :=
  (s.renders_emitted_iff _).mpr fun _ => List.forall_mem_nil _

-- A command that is not the doctor prints one whole rendering of what it found and succeeds, or it
-- prints nothing and fails, if all the paths that it found are texts or are not asked for as JSON,
-- and only then: an error is printed in place of any other result, and the command succeeds. Where
-- the path of the workspace is a text, all of them are. It fails when the settings forbid it, and
-- when any tool run fails that its result rests on, be it the last of a deep tree. The doctor
-- always prints its whole report, and it fails when a finding in it is bad. Nothing is printed
-- where there is no workspace or where the settings cannot be loaded.
theorem perform_wholeOrNothing_iff (read : String → Option Toml.Members) (around : Surroundings)
    (line : CommandLine) (t : σ) :
    ∃ outcome, ((perform read around line).dialogue.play tools t).outcome = .ok outcome ∧
      (∀ e, start read around line = .error e → outcome = ⟨"", .error e⟩) ∧
      ∀ s, start read around line = .ok s →
        (line.command ≠ .doctor →
          (s.WholeOrNothing (s.found tools around.files t line.command) outcome ↔
            ∀ r, s.found tools around.files t line.command = .ok r → s.json = true →
              ∀ path ∈ r.paths, path.IsText) ∧
          (∀ r, s.found tools around.files t line.command = .ok r → s.json = true →
            (¬ ∀ path ∈ r.paths, path.IsText) → outcome = ⟨Json.unwritable ++ "\n", .ok ()⟩) ∧
          (s.workspace.root.IsText →
            s.WholeOrNothing (s.found tools around.files t line.command) outcome) ∧
          ((∃ e, outcome.result = .error e) ↔ s.Refuses line.command ∨
            ∃ call ∈ (perform read around line).dialogue.faults tools t,
              s.Decisive line.command call)) ∧
        (line.command = .doctor →
          ∃ fs, s.found tools around.files t .doctor = .ok (.findings fs) ∧
            fs.map Finding.name = ["indexer", "tagger", "index"] ∧
            s.Renders (.findings fs) outcome.stdout ∧
            ((∃ e, outcome.result = .error e) ↔ ∃ f ∈ fs, f.ok = false)) := by
  cases hstart : start read around line with
  | error e =>
    have hperform : perform read around line = Console.fail e := by
      rw [perform, hstart]
    rw [hperform]
    refine ⟨_, rfl, ?_, nofun⟩
    rintro _ ⟨⟩
    rfl
  | ok s =>
    have hperform : perform read around line =
        s.run (Health.probe around.files s.workspace.root) line.command := by
      rw [perform, hstart]
    rw [hperform]
    by_cases hdoctor : line.command = .doctor
    · obtain ⟨fs, hfound, hnames, houtcome⟩ := s.exists_doctor_outcome tools around.files t
      rw [hdoctor, play_run]
      refine ⟨s.reported fs, houtcome, nofun, ?_⟩
      rintro _ ⟨⟩
      exact ⟨fun h => absurd rfl h, fun _ =>
        ⟨fs, hfound, hnames, s.renders_findings fs, s.reported_fails_iff fs⟩⟩
    · obtain ⟨houtcome, hfails⟩ := s.delivers_run tools hdoctor around.files
        (Health.probe around.files s.workspace.root) t
      have hwhole := s.wholeOrNothing_outcomeOf_iff (s.found tools around.files t line.command)
      refine ⟨_, houtcome, nofun, ?_⟩
      rintro _ ⟨⟩
      refine ⟨fun _ => ⟨hwhole, ?replaced, ?text, ?fails⟩, fun h => absurd h hdoctor⟩
      case replaced =>
        intro r hfound hjson hpaths
        rw [hfound, outcomeOf, s.emitted_of_not_text hjson hpaths]
      case text =>
        exact fun hroot => hwhole.mpr fun r hfound _ => s.isText_of_found tools hroot hfound
      case fails => exact (s.outcomeOf_fails_iff _).trans hfails

-- A folder with an index in it, and the default settings.
def indexedFolder : Surroundings where
  files := .folder [("ws", .folder [("GTAGS", .file)])]
  folder := "/ws"
  settings := .nothing
  env _ := none

def indexedSession : Session := ⟨⟨"/ws", true⟩, {}, true⟩

def deepTree : CommandLine := ⟨none, true, .tree ["foo"] 2⟩

def places : CommandLine := ⟨none, true, .«def» "foo"⟩

def checkup : CommandLine := ⟨none, false, .doctor⟩

def lateCall : Invocation := ⟨"global", IndexerQuery.args (.definitions "main")⟩

-- A symbol is used in a function that the indexer knows nothing of any more. The tagger is
-- missing, which matters to the doctor alone.
def lateFailure : Script :=
  [⟨⟨"global", IndexerQuery.args (.definitions "foo")⟩, .ok "foo 12 a.c int foo(void)\n", none⟩,
    ⟨⟨"global", IndexerQuery.args (.references "foo")⟩, .ok "main 40 b.c return foo();\n", none⟩,
    ⟨⟨"ctags", taggingArgs "a.c"⟩, .error (.notStarted "ctags" "missing"), none⟩,
    ⟨⟨"ctags", taggingArgs "b.c"⟩, .error (.notStarted "ctags" "missing"), none⟩,
    ⟨⟨"ctags", ["--version"]⟩, .error (.notStarted "ctags" "missing"), none⟩,
    ⟨lateCall, .error (.exited "global" (some 3) "global: GTAGS not found."), none⟩]

def onePlace : String :=
  "[\n  \x7b\n    \"path\": \"/ws/a.c\",\n    \"range\": \x7b\n" ++
  "      \"start\": \x7b\n        \"line\": 11,\n        \"character\": 4\n      \x7d,\n" ++
  "      \"end\": \x7b\n        \"line\": 11,\n        \"character\": 7\n      \x7d\n" ++
  "    \x7d\n  \x7d\n]\n"

def taggerMissing : String :=
  "indexer  ok    \n" ++
  "tagger   FAIL  Universal Ctags is required. Failed to start ctags: missing\n" ++
  "index    ok    /ws/GTAGS\n"

theorem perform_wholeOrNothing_iff_lateFailure :
    (deepTree.command ≠ .doctor ∧ start Toml.read? indexedFolder deepTree = .ok indexedSession ∧
      lateCall ∈
        (perform Toml.read? indexedFolder deepTree).dialogue.faults Script.toolbox lateFailure ∧
      ∃ e, ((perform Toml.read? indexedFolder deepTree).dialogue.play Script.toolbox
        lateFailure).outcome = .ok ⟨"", .error e⟩) ∧
    (places.command ≠ .doctor ∧ start Toml.read? indexedFolder places = .ok indexedSession ∧
      indexedSession.workspace.root.IsText ∧
      ((perform Toml.read? indexedFolder places).dialogue.play Script.toolbox
        lateFailure).outcome = .ok ⟨onePlace, .ok ()⟩ ∧
      indexedSession.WholeOrNothing
        (indexedSession.found Script.toolbox indexedFolder.files lateFailure places.command)
        ⟨onePlace, .ok ()⟩) ∧
    (start Toml.read? indexedFolder checkup = .ok { indexedSession with json := false } ∧
      ((perform Toml.read? indexedFolder checkup).dialogue.play Script.toolbox
        lateFailure).outcome = .ok ⟨taggerMissing, .error (.checksFailed 1)⟩ ∧
      ∃ fs, fs.map Finding.name = ["indexer", "tagger", "index"] ∧
        { indexedSession with json := false }.Renders (.findings fs) taggerMissing ∧
        ∃ f ∈ fs, f.ok = false) ∧
    ((perform Toml.read? { indexedFolder with folder := "/gone" } deepTree).dialogue.play
      Script.toolbox lateFailure).outcome = .ok ⟨"", .error (.noWorkspace ⟨"/gone"⟩)⟩ := by
  refine ⟨?tree, ?whole, ?doctor, ?gone⟩
  case tree =>
    have hcommand : deepTree.command ≠ .doctor := by decide
    have hstart : start Toml.read? indexedFolder deepTree = .ok indexedSession := rfl
    have hcall : lateCall ∈
        (perform Toml.read? indexedFolder deepTree).dialogue.faults Script.toolbox lateFailure := by
      decide +kernel
    obtain ⟨outcome, hplay, -, hstarted⟩ :=
      perform_wholeOrNothing_iff Script.toolbox Toml.read? indexedFolder deepTree lateFailure
    obtain ⟨-, -, hwhole, hfails⟩ := (hstarted _ hstart).1 hcommand
    obtain ⟨e, hfailed⟩ := hfails.mpr (.inr ⟨lateCall, hcall, .definitions "main", rfl⟩)
    have hnothing := (hwhole ⟨"/ws", rfl⟩).eq_of_error _ hfailed
    exact ⟨hcommand, hstart, hcall, e, hplay.trans (congrArg Except.ok hnothing)⟩
  case whole =>
    have hcommand : places.command ≠ .doctor := by decide
    have hstart : start Toml.read? indexedFolder places = .ok indexedSession := rfl
    have hroot : indexedSession.workspace.root.IsText := ⟨"/ws", rfl⟩
    have hprinted : ((perform Toml.read? indexedFolder places).dialogue.play Script.toolbox
        lateFailure).outcome = .ok ⟨onePlace, .ok ()⟩ := by
      decide +kernel
    obtain ⟨outcome, hplay, -, hstarted⟩ :=
      perform_wholeOrNothing_iff Script.toolbox Toml.read? indexedFolder places lateFailure
    obtain ⟨-, -, hwhole, -⟩ := (hstarted _ hstart).1 hcommand
    cases hplay.symm.trans hprinted
    exact ⟨hcommand, hstart, hroot, hprinted, hwhole hroot⟩
  case doctor =>
    have hstart : start Toml.read? indexedFolder checkup =
        .ok { indexedSession with json := false } := rfl
    have hprinted : ((perform Toml.read? indexedFolder checkup).dialogue.play Script.toolbox
        lateFailure).outcome = .ok ⟨taggerMissing, .error (.checksFailed 1)⟩ := by
      decide +kernel
    obtain ⟨outcome, hplay, -, hstarted⟩ :=
      perform_wholeOrNothing_iff Script.toolbox Toml.read? indexedFolder checkup lateFailure
    obtain ⟨fs, -, hnames, hstdout, hfails⟩ := (hstarted _ hstart).2 rfl
    cases hplay.symm.trans hprinted
    exact ⟨hstart, hprinted, fs, hnames, hstdout, hfails.mp ⟨_, rfl⟩⟩
  case gone =>
    obtain ⟨outcome, hplay, herror, -⟩ :=
      perform_wholeOrNothing_iff Script.toolbox Toml.read? { indexedFolder with folder := "/gone" }
        deepTree lateFailure
    rw [hplay, herror (.noWorkspace ⟨"/gone"⟩) rfl]

-- A folder whose name is no text: the word for coffee, as Latin-1 has it.
def latinFolder : Surroundings where
  files := .folder [(⟨[0x63, 0x61, 0x66, 0xE9]⟩, .folder [("GTAGS", .file)])]
  folder := ⟨[0x2F, 0x63, 0x61, 0x66, 0xE9]⟩
  settings := .nothing
  env _ := none

theorem latinFolder_not_whole :
    ((perform Toml.read? latinFolder places).dialogue.play Script.toolbox lateFailure).outcome =
        .ok ⟨Json.unwritable ++ "\n", .ok ()⟩ ∧
      ¬ ∀ (around : Surroundings) (line : CommandLine) (s : Session) (t : Script)
        (outcome : Outcome Unit), start Toml.read? around line = .ok s → line.command ≠ .doctor →
        ((perform Toml.read? around line).dialogue.play Script.toolbox t).outcome = .ok outcome →
        s.WholeOrNothing (s.found Script.toolbox around.files t line.command) outcome := by
  have hprinted : ((perform Toml.read? latinFolder places).dialogue.play Script.toolbox
      lateFailure).outcome = .ok ⟨Json.unwritable ++ "\n", .ok ()⟩ := by
    decide +kernel
  refine ⟨hprinted, fun h => ?_⟩
  let s : Session := ⟨⟨latinFolder.folder, true⟩, {}, true⟩
  have hfound : s.found Script.toolbox latinFolder.files lateFailure places.command =
      .ok (.locations "foo" [⟨⟨latinFolder.folder.bytes ++ [0x2F, 0x61, 0x2E, 0x63]⟩,
        ⟨⟨11, 4⟩, ⟨11, 7⟩⟩⟩]) := rfl
  have hwhole := h latinFolder places s lateFailure _ rfl (by decide) hprinted
  rw [hfound] at hwhole
  cases hwhole with
  | whole hrenders =>
    have hwritable := hrenders.writable s rfl
    revert hwritable
    decide +kernel

end Session

end Concordance
