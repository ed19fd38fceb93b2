import Concordance.Proofs.Attribution.Logged
import Concordance.Proofs.Roots.Commit
import Concordance.Proofs.Roots.Missing

namespace Concordance

namespace Occurrence

variable {log : TagLog} {o : Occurrence}

-- Whether a root for this occurrence would be new, and would have a line to open.
def Opens (roots : Roots) (o : Occurrence) : Prop :=
  o.line ≠ 0 ∧ o.content ≠ "" ∧ o.place ∉ roots.map Node.key

-- The root of this occurrence, if it gets a new one, goes by the symbol.
def GoesBy (roots : Roots) (symbol : String) (o : Occurrence) : Prop :=
  o.relation = .definition → o.Opens roots → o.label = symbol

theorem opens_assignIn_iff (roots : Roots) (tables : Tables) (o : Occurrence) :
    (o.assignIn tables).Opens roots ↔ o.Opens roots := by
  obtain ⟨_, _, _, h⟩ := exists_assignIn_eq tables o
  rw [h]
  exact Iff.rfl

theorem goesBy_definition_iff (roots : Roots) (hdistinct : log.Distinct)
    (hfile : o.filename ∈ log.map Prod.fst) (hfresh : o.Fresh)
    (hrelation : o.relation = .definition) :
    (o.assignIn log.cache.tables).GoesBy roots o.tag ↔
      (o.Opens roots → ∀ d, log.FirstAround o d →
        d.name = o.tag ∨ d.kind = "enum" ∨ d.kind = "struct") := by
  have hdefinition := relation_assignIn_of_definition log.cache.tables hrelation
  unfold GoesBy
  rw [opens_assignIn_iff, label_assignIn_iff hdistinct hfile hfresh]
  exact ⟨fun h => h hdefinition, fun h _ => h⟩

-- A use that is taken for a definition goes by its own tag.
theorem goesBy_use_iff (roots : Roots) (hdistinct : log.Distinct)
    (hfile : o.filename ∈ log.map Prod.fst) (hfresh : o.Fresh) (huse : o.relation ≠ .definition)
    (symbol : String) :
    (o.assignIn log.cache.tables).GoesBy roots symbol ↔
      (o.Opens roots → ∀ d, log.FirstAround o d → d.name = o.tag → o.tag = symbol) := by
  have hlabel {d : Declaration} (hd : log.FirstAround o d) (hname : d.name = o.tag) :
      (o.assignIn log.cache.tables).label = o.tag :=
    label_assignIn_of_name hdistinct hfile hfresh hd hname
  unfold GoesBy
  rw [opens_assignIn_iff, relation_assignIn_iff hdistinct hfile hfresh huse]
  constructor
  · intro h hopens d hd hname
    rw [← hlabel hd hname]
    exact h ⟨d, hd, hname⟩ hopens
  · rintro h ⟨d, hd, hname⟩ hopens
    rw [hlabel hd hname]
    exact h hopens d hd hname

end Occurrence

-- The tool that a dialogue asks first.
def Dialogue.firstCall? {α : Type} : Dialogue α → Option Invocation
  | .done _ => none
  | .failed _ => none
  | .run call _ => some call
  | .list call _ => some call
  | .warn _ next => next.firstCall?

-- Expanding the node shows the references of this symbol, without the node itself.
def Node.Shows (p : Project) (n : Node) (symbol : String) : Prop :=
  p.children n = do
    let os ← p.references symbol
    pure ((Target.node n).nodes symbol os false)

theorem Node.shows_iff (p : Project) (n : Node) (symbol : String) :
    n.Shows p symbol ↔ n.label = symbol := by
  constructor
  · intro h
    have hfirst : some (p.call (.definitions n.label)) = some (p.call (.definitions symbol)) :=
      congrArg Dialogue.firstCall? h
    simpa [Project.call, IndexerQuery.args] using hfirst
  · rintro rfl
    rfl

theorem Node.hasLocation_iff (n : Node) :
    n.hasLocation = true ↔ n.line ≠ 0 ∧ n.content ≠ "" := by
  simp only [hasLocation, Bool.and_eq_true, decide_eq_true_eq]

theorem Roots.forall_fresh_label_iff (roots : Roots) (symbol : String) (os : List Occurrence) :
    (∀ n ∈ roots.fresh ((Target.symbol symbol).nodes symbol os true),
        n.hasLocation = true → n.label = symbol) ↔
      ∀ o ∈ os, o.GoesBy roots symbol := by
  constructor
  · intro h o ho hdefinition ⟨hline, hcontent, hplace⟩
    obtain ⟨expanded, hmem⟩ := Target.exists_mem_nodes_root ho hdefinition
    have hkey := Node.key_ofOccurrence o.label true expanded hdefinition
    exact h _ (mem_fresh.mpr ⟨hmem, hkey ▸ hplace⟩)
      ((Node.hasLocation_iff _).mpr ⟨hline, hcontent⟩)
  · intro h n hn hlocation
    obtain ⟨hmem, hnew⟩ := mem_fresh.mp hn
    rcases Target.mem_nodes_root hmem with rfl | ⟨o, ho, hdefinition, expanded, rfl⟩
    · rfl
    · rw [Node.key_ofOccurrence o.label true expanded hdefinition] at hnew
      obtain ⟨hline, hcontent⟩ := (Node.hasLocation_iff _).mp hlocation
      exact h o ho hdefinition ⟨hline, hcontent, hnew⟩

namespace Tree

variable {σ : Type} (p : Project) (tools : Toolbox σ)

-- What is promised when a symbol is tracked: every new root that has a line to open goes by
-- the symbol, so that expanding it shows the references of the symbol.
def ShowsTracked (symbol : String) (outcome : TrackOutcome) : Prop :=
  ∀ nodes, outcome = .added nodes →
    ∀ n ∈ nodes, n.hasLocation = true → n.label = symbol ∧ n.Shows p symbol

theorem showsTracked_commit_iff (roots : Roots) (symbol : String) (nodes : List Node) :
    ShowsTracked p symbol (roots.commit nodes).value ↔
      ∀ n ∈ roots.fresh nodes, n.hasLocation = true → n.label = symbol := by
  simp only [ShowsTracked, Node.shows_iff, and_self, Roots.commit_value_eq_added_iff]
  constructor
  · intro h n hn
    exact h _ ⟨rfl, List.ne_nil_of_mem hn⟩ n hn
  · rintro h _ ⟨rfl, -⟩ n hn
    exact h n hn

-- The promise is kept exactly where the first declaration around each definition has its name,
-- or is an enumeration or a structure, and no use of another symbol is taken for a definition.
theorem track_showsTracked_iff (t : Tree σ) {symbol output uses : String} {first second : σ}
    (hdefinitions : tools.run (p.call (.definitions symbol)) t.tools = (.ok output, first))
    (huses : tools.run (p.call (Project.secondQuery symbol output)) first = (.ok uses, second))
    (htags : ∀ o ∈ Occurrence.ofOutput .definition output, o.tag = symbol) :
    let definitions := Occurrence.ofOutput .definition output
    let references := Occurrence.ofOutput .referencedBy uses
    ∃ (outcome : TrackOutcome) (log : TagLog) (s' : σ),
      (t.ask p tools (.track symbol)).value = .ok (.tracked outcome) ∧
        log.map Prod.fst = ((definitions ++ references).map Occurrence.filename).eraseDups ∧
        tools.Answers second (log.trace p.config.tagger) s' ∧
        (ShowsTracked p symbol outcome ↔
          (∀ o ∈ definitions, o.Opens t.roots → ∀ d, log.FirstAround o d →
            d.name = symbol ∨ d.kind = "enum" ∨ d.kind = "struct") ∧
          ∀ o ∈ references, o.Opens t.roots → ∀ d, log.FirstAround o d →
            d.name = o.tag → o.tag = symbol) := by
  intro definitions references
  obtain ⟨log, s', hfiles, hdistinct, hanswers, hplay⟩ :=
    p.exists_play_references_found tools hdefinitions huses
  have hfound : t.found p tools symbol =
      .ok (assignAll log.cache.tables (definitions ++ references)) := by
    rw [found, hplay]
  have hvalue := congrArg Update.value (ask_track_of_found p tools hfound)
  refine ⟨_, log, s', hvalue, hfiles, hanswers, ?_⟩
  have hlogged {o : Occurrence} (ho : o ∈ definitions ++ references) :
      o.filename ∈ log.map Prod.fst := by
    rw [hfiles, List.mem_eraseDups]
    exact List.mem_map_of_mem ho
  rw [showsTracked_commit_iff, Roots.forall_fresh_label_iff, assignAll, List.forall_mem_map,
    List.forall_mem_append]
  refine and_congr (forall₂_congr fun o ho => ?_) (forall₂_congr fun o ho => ?_)
  · obtain ⟨hfresh, hrelation⟩ := Occurrence.ofOutput_fresh ho
    have hfile := hlogged (List.mem_append_left _ ho)
    have hgoes := Occurrence.goesBy_definition_iff t.roots hdistinct hfile hfresh hrelation
    rwa [htags o ho] at hgoes
  · obtain ⟨hfresh, hrelation⟩ := Occurrence.ofOutput_fresh ho
    have hfile := hlogged (List.mem_append_right _ ho)
    have huse : o.relation ≠ .definition := by simp [hrelation]
    exact Occurrence.goesBy_use_iff t.roots hdistinct hfile hfresh huse symbol

def areaTags : String :=
  "area\tarea.c\t/^int area(int r) \x7b$/;\"\tfunction\tline:10\tend:13\n" ++
    "PI\tarea.c\t/^#define PI 3$/;\"\tmacro\tline:11\n"

-- A macro that is defined inside of a function.
def localMacro : Script :=
  [⟨⟨"global", ["-x", "PI"]⟩, .ok "PI 11 area.c #define PI 3\n", none⟩,
    ⟨⟨"global", ["-rx", "PI"]⟩, .ok "PI 12 area.c   return PI * r * r;\n", none⟩,
    ⟨⟨"ctags", taggingArgs "area.c"⟩, .ok areaTags, none⟩]

def localDefinition : Occurrence := ⟨"PI", 11, "area.c", "#define PI 3", .definition, none, ""⟩

def areaFunction : Declaration :=
  ⟨"area", "area.c", "function", 10, 13, "int area(int r) \x7b", Fields.empty⟩

theorem track_showsTracked_localMacro :
    let output := "PI 11 area.c #define PI 3\n"
    let uses := "PI 12 area.c   return PI * r * r;\n"
    Script.toolbox.run (standard.call (.definitions "PI")) localMacro = (.ok output, localMacro) ∧
      Script.toolbox.run (standard.call (Project.secondQuery "PI" output)) localMacro =
        (.ok uses, localMacro) ∧
      (∀ o ∈ Occurrence.ofOutput .definition output, o.tag = "PI") ∧
      ∃ outcome, (Tree.ask standard Script.toolbox ⟨[], localMacro⟩ (.track "PI")).value =
          .ok (.tracked outcome) ∧
        ¬ ShowsTracked standard "PI" outcome := by
  intro output uses
  have hdefinitions :
      Script.toolbox.run (standard.call (.definitions "PI")) localMacro =
        (.ok output, localMacro) := rfl
  have hsecond : Project.secondQuery "PI" output = .references "PI" := by decide +kernel
  have huses :
      Script.toolbox.run (standard.call (Project.secondQuery "PI" output)) localMacro =
        (.ok uses, localMacro) := by
    rw [hsecond]
    rfl
  have htags : ∀ o ∈ Occurrence.ofOutput .definition output, o.tag = "PI" := by decide +kernel
  obtain ⟨outcome, log, s', hask, hfiles, hanswers, hshows⟩ :=
    track_showsTracked_iff standard Script.toolbox ⟨[], localMacro⟩ hdefinitions huses htags
  refine ⟨hdefinitions, huses, htags, outcome, hask, fun h => ?_⟩
  have hlog : ("area.c", .ok areaTags) ∈ log := by
    obtain ⟨⟨_, reply⟩, rfl, hname⟩ := List.map_eq_singleton_iff.mp
      (hfiles.trans (show _ = ["area.c"] by decide +kernel))
    cases hname
    have hanswer : Script.toolbox.Answers localMacro
      [(⟨standard.config.tagger, taggingArgs "area.c"⟩, reply)] s' := hanswers
    cases hanswer with
    | cons hrun =>
      cases hrun
      exact List.mem_singleton.mpr rfl
  have harea := (hshows.mp h).1 localDefinition (by decide +kernel)
    ⟨by decide, by decide, by simp⟩ areaFunction
    ⟨areaTags, hlog, Declaration.enclosing?_eq_some_iff.mp (by decide +kernel)⟩
  revert harea
  decide

theorem localMacro_not_shown :
    ¬ ∀ (t : Tree Script) (symbol output : String) (s : Script) (outcome : TrackOutcome),
      hasWildcard symbol = false →
      Script.toolbox.run (standard.call (.definitions symbol)) t.tools = (.ok output, s) →
      (∀ o ∈ Occurrence.ofOutput .definition output, o.tag = symbol) →
      (t.ask standard Script.toolbox (.track symbol)).value = .ok (.tracked outcome) →
      ShowsTracked standard symbol outcome := by
  intro h
  let root : Node :=
    ⟨"area", "area.c", 11, .definition, "PI", "#define PI 3", true, true, "function"⟩
  have hshown := h ⟨[], localMacro⟩ "PI" "PI 11 area.c #define PI 3\n" localMacro
    (.added [root]) (by decide) rfl (by decide +kernel)
    (by decide +kernel) [root] rfl root (List.mem_singleton.mpr rfl) (by decide)
  exact absurd hshown.1 (by decide)

end Tree

end Concordance
