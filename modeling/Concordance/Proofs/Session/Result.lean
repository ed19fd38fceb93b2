import Concordance.Proofs.Completion.Answer
import Concordance.Proofs.Json.Writable
import Concordance.Proofs.Path.Names
import Concordance.Session

namespace Concordance.Session

-- What a command is to print, without the form that this takes.
inductive Result where
  | occurrences (title : String) (os : List Occurrence)
  | locations (title : String) (ls : List Location)
  | outline (es : List OutlineEntry)
  | symbolHits (title : String) (hits : List SymbolHit)
  | branches (bs : List Branch)
  | tags (ts : List String)
  | findings (fs : List Finding)

namespace Result

def json : Result → Json
  | occurrences _ os => .array (os.map Occurrence.json)
  | locations _ ls => .array (ls.map Location.json)
  | outline es => .array (es.map OutlineEntry.json)
  | symbolHits _ hits => .array (hits.map SymbolHit.json)
  | branches bs => .array (Branch.jsonOfAll bs)
  | tags ts => .array (ts.map .text)
  | findings fs => .array (fs.map Finding.json)

def human : Result → String
  | occurrences title os => Report.occurrences title os
  | locations title ls => Report.locations title ls
  | outline es => Report.outline es
  | symbolHits title hits => Report.symbolHits title hits
  | branches bs => Report.rows (Branch.rowsOfAll 0 bs)
  | tags ts => Report.tags ts
  | findings fs => Report.findings fs

-- The paths in a result that were seen from the root of the workspace.
def paths : Result → List Path
  | locations _ ls => ls.map Location.path
  | symbolHits _ hits => hits.map SymbolHit.path
  | branches bs => (Branch.itemsOfAll bs).filterMap fun item => item.command.map Location.path
  | _ => []

theorem writable_json_iff (r : Result) :
    r.json.writable = true ↔ ∀ path ∈ r.paths, path.IsText := by
  cases r with
  | occurrences title os => simp [json, paths, Json.writable_array_iff, Occurrence.writable_json]
  | locations title ls => simp [json, paths, Json.writable_array_iff, Location.writable_json_iff]
  | outline es => simp [json, paths, Json.writable_array_iff, OutlineEntry.writable_json]
  | symbolHits title hits =>
    simp [json, paths, Json.writable_array_iff, SymbolHit.writable_json_iff]
  | branches bs =>
    rw [json, Json.writable_array_iff, Branch.writable_jsonOfAll_iff]
    simp only [paths, List.mem_filterMap, Option.map_eq_some_iff]
    constructor
    · rintro h path ⟨item, hitem, l, hl, rfl⟩
      exact h item hitem l hl
    · intro h item hitem l hl
      exact h l.path ⟨item, hitem, l, hl, rfl⟩
  | tags ts => simp [json, paths, Json.writable_texts]
  | findings fs => simp [json, paths, Json.writable_array_iff, Finding.writable_json]

end Result

variable {σ : Type} (tools : Toolbox σ) (s : Session)

def listCall : Invocation := ⟨s.config.indexer, IndexerQuery.completions.args⟩

-- What a command finds, or why it finds nothing.
def found (files : FileTree) (t : σ) : Command → Except CommandError Result
  | .refs symbol => ending (s.project.references symbol) (.occurrences symbol)
  | .«def» symbol => ending (s.project.definitions symbol) (.locations symbol)
  | .symbols file => ending (s.project.fileSymbols file) (.occurrences file)
  | .outline file => ending (s.project.outline file) .outline
  | .search query => ending (s.project.symbolHits query) (.symbolHits query)
  | .tree symbols depth => ending (s.branches symbols depth) .branches
  | .complete start =>
    if s.config.completion then
      match Completion.tagsOf (tools.list s.listCall t).1 with
      | .error cause => .error (.listingFailed cause)
      | .ok tags => .ok (.tags (tags.filter fun tag => Text.startsWith tag start))
    else .error .completionDisabled
  | .doctor =>
    ending (Health.checkAll s.config s.workspace.root (Health.probe files s.workspace.root))
      fun checked => .findings (checked.map Health.Checked.finding)
where
  ending {α : Type} (d : Dialogue α) (result : α → Result) : Except CommandError Result :=
    ((d.play tools t).outcome.map result).mapError .tool

end Concordance.Session

namespace Concordance.Project

variable {p : Project} (hroot : p.root.IsText)

include hroot

-- Whatever file the tools name, its path is a text where that of the root is one.
theorem isText_resolve (filename : String) : (p.resolve filename).IsText := by
  rw [resolve, Path.resolve_eq_join]
  exact hroot.join ⟨filename, rfl⟩

theorem yields_definitions (symbol : String) :
    (p.definitions symbol).Yields fun ls => ∀ l ∈ ls, l.path.IsText := by
  refine (Dialogue.yields_trivial _).bind fun os _ =>
    (Dialogue.yields_trivial _).bind fun _ _ l hl => ?_
  obtain ⟨o, -, rfl⟩ := List.mem_map.mp hl
  exact isText_resolve hroot o.filename

theorem yields_symbolHits (query : String) :
    (p.symbolHits query).Yields fun hits => ∀ hit ∈ hits, hit.path.IsText := by
  refine (Dialogue.yields_trivial _).bind fun os _ hit hhit => ?_
  obtain ⟨o, -, rfl⟩ := List.mem_map.mp hhit
  exact isText_resolve hroot o.filename

end Concordance.Project

namespace Concordance

theorem Node.opensText_item {root : Path} (hroot : root.IsText) (n : Node) :
    (n.item root).OpensText := by
  intro l hl
  rw [item] at hl
  dsimp only at hl
  split at hl
  · cases hl
    exact hroot.join ⟨n.filename, rfl⟩
  · cases hl

theorem Branch.forall_mem_itemsOfAll {P : Item → Prop} {bs : List Branch}
    (h : ∀ b ∈ bs, ∀ item ∈ b.items, P item) : ∀ item ∈ itemsOfAll bs, P item := by
  induction bs with
  | nil => exact fun item hitem => absurd hitem List.not_mem_nil
  | cons b bs ih =>
    obtain ⟨hfirst, hrest⟩ := List.forall_mem_cons.mp h
    exact List.forall_mem_append.mpr ⟨hfirst, ih hrest⟩

theorem Project.yields_render (p : Project) {root : Path} (hroot : root.IsText) (depth : Nat)
    (n : Node) : (p.render root depth n).Yields fun b => ∀ item ∈ b.items, item.OpensText := by
  have htop := n.opensText_item hroot
  have hleaf : ∀ item ∈ (Branch.mk (n.item root) []).items, item.OpensText :=
    List.forall_mem_singleton.mpr htop
  induction depth generalizing n with
  | zero => exact (Dialogue.yields_trivial _).bind fun _ _ => hleaf
  | succ depth ih =>
    refine (Dialogue.yields_trivial _).bind fun _ _ => ?_
    by_cases hnone : n.collapsible = .none
    · rw [if_pos hnone]
      exact hleaf
    · rw [if_neg hnone]
      refine (Dialogue.yields_trivial _).bind fun nodes _ => ?_
      have hbelow : ∀ m : Node, (p.render root depth m).Yields fun b =>
          ∀ item ∈ b.items, item.OpensText := fun m =>
        ih m (m.opensText_item hroot) (List.forall_mem_singleton.mpr (m.opensText_item hroot))
      refine (Dialogue.Yields.forEach hbelow nodes).bind fun branches hbranches => ?_
      exact List.forall_mem_cons.mpr ⟨htop, Branch.forall_mem_itemsOfAll hbranches⟩

namespace Session

variable {σ : Type} (tools : Toolbox σ) (s : Session)

theorem of_ending_eq_ok {α : Type} {t : σ} {d : Dialogue α} {result : α → Result} {r : Result}
    {P : α → Prop} (hfound : found.ending tools t d result = .ok r) (h : d.Yields P) :
    ∃ value, P value ∧ r = result value := by
  rw [found.ending] at hfound
  cases houtcome : (d.play tools t).outcome with
  | error failure =>
    rw [houtcome] at hfound
    cases hfound
  | ok value =>
    rw [houtcome] at hfound
    exact ⟨value, h.of_play houtcome, (Except.ok.inj hfound).symm⟩

-- In a workspace whose path is a text, so are all the paths that a command finds.
theorem isText_of_found (hroot : s.workspace.root.IsText) {files : FileTree} {t : σ}
    {command : Command} {r : Result} (hfound : s.found tools files t command = .ok r) :
    ∀ path ∈ r.paths, path.IsText := by
  cases command with
  | «def» symbol =>
    obtain ⟨ls, hls, rfl⟩ :=
      of_ending_eq_ok tools hfound (Project.yields_definitions (p := s.project) hroot symbol)
    exact List.forall_mem_map.mpr hls
  | search query =>
    obtain ⟨hits, hhits, rfl⟩ :=
      of_ending_eq_ok tools hfound (Project.yields_symbolHits (p := s.project) hroot query)
    exact List.forall_mem_map.mpr hhits
  | tree symbols depth =>
    have hbranches : (s.branches symbols depth).Yields fun bs =>
        ∀ b ∈ bs, ∀ item ∈ b.items, item.OpensText :=
      (Dialogue.yields_trivial _).bind fun roots _ =>
        Dialogue.Yields.forEach (s.project.yields_render hroot depth) roots
    obtain ⟨bs, hbs, rfl⟩ := of_ending_eq_ok tools hfound hbranches
    rw [← Result.writable_json_iff, Result.json, Json.writable_array_iff,
      Branch.writable_jsonOfAll_iff]
    exact Branch.forall_mem_itemsOfAll hbs
  | complete start =>
    rw [found] at hfound
    split at hfound
    · cases htags : Completion.tagsOf (tools.list s.listCall t).1 with
      | error cause => simp [htags] at hfound
      | ok tags =>
        rw [htags] at hfound
        cases hfound
        exact List.forall_mem_nil _
    · cases hfound
  | _ =>
    obtain ⟨value, -, rfl⟩ := of_ending_eq_ok tools hfound (Dialogue.yields_trivial _)
    exact List.forall_mem_nil _

end Session

end Concordance
