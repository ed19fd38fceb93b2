import Concordance.Health
import Concordance.Proofs.FileTree.Walk
import Concordance.Tool.Script

namespace Concordance.Workspace

open FileTree

theorem isPrefix_of_mem_upward {names place : List Path} (h : place ∈ upward names) :
    place <+: names := by
  obtain ⟨n, -, rfl⟩ := List.mem_map.mp h
  exact List.take_prefix _ names

theorem mem_upward_self (names : List Path) : names ∈ upward names := by
  refine List.mem_map.mpr ⟨0, by simp, ?_⟩
  rw [Nat.sub_zero, List.take_length]

-- The root is a place in the tree, and the workspace is indexed if that place holds an index.
theorem exists_root_of_detect {tree : FileTree} {folder start : Path} {w : Workspace}
    (h : detect tree folder start = .ok w) :
    ∃ root, Stands tree root ∧ w = ⟨Path.ofNames root, holdsIndex tree root⟩ := by
  rw [detect] at h
  cases hstart : tree.access .byParts folder start with
  | error fault => simp [hstart] at h
  | ok names =>
    have hstands := access_stands hstart
    rw [hstart] at h
    dsimp only at h
    split at h
    · cases hnearest : nearest? tree names with
      | some root =>
        rw [hnearest] at h
        cases h
        have hbegins := isPrefix_of_mem_upward (List.mem_of_find?_eq_some hnearest)
        refine ⟨root, hstands.above hbegins, ?_⟩
        rw [List.find?_some hnearest]
      | none =>
        rw [hnearest] at h
        cases h
        have hholds := List.find?_eq_none.mp hnearest names (mem_upward_self names)
        refine ⟨names, hstands, ?_⟩
        rw [Bool.eq_false_iff.mpr hholds]
    · cases h

theorem isName_indexFile : IsName indexFile := by
  constructor <;> decide

theorem indexPath_ofNames {tree : FileTree} {root : List Path} (h : Stands tree root) :
    Health.indexPath (Path.ofNames root) = Path.ofNames (root ++ [indexFile]) := by
  apply Path.join_ofNames
  · intro name hname
    exact ⟨(h.isName name hname).ne_empty, (h.isName name hname).slash_notMem⟩
  · rfl

theorem access_indexPath_iff {tree : FileTree} {root found : List Path} (h : Stands tree root) :
    tree.access .whole "/" (Health.indexPath (Path.ofNames root)) = .ok found ↔
      (Health.indexPath (Path.ofNames root)).bytes.length ≤ maxPath ∧
        found = root ++ [indexFile] ∧ (tree.at? (root ++ [indexFile])).isSome := by
  have hnames : ∀ name ∈ root ++ [indexFile], IsName name := by
    intro name hname
    rcases List.mem_append.mp hname with hroot | hindex
    · exact h.isName name hroot
    · rw [List.mem_singleton.mp hindex]
      exact isName_indexFile
  rw [indexPath_ofNames h, access_ofNames_iff (List.concat_ne_nil indexFile root) hnames]
  simp only [forall_const]

-- The system finds something at the place of the index, or says that nothing is there.
def Readable (tree : FileTree) (root : Path) : Prop :=
  Health.probe tree root = .ok () ∨ Health.probe tree root = .error .missing

-- A path that is too long for the system is not said to be missing.
theorem Readable.short {tree : FileTree} {root : Path} (h : Readable tree root) :
    (Health.indexPath root).bytes.length ≤ maxPath := by
  by_contra hlong
  have hne : Health.indexPath root ≠ "" := by
    intro hempty
    rw [hempty] at hlong
    exact hlong (Nat.zero_le maxPath)
  have hfault : ∃ fault, tree.access .whole "/" (Health.indexPath root) = .error fault ∧
      fault ≠ .missing := by
    rw [access, if_neg hne]
    split
    · exact ⟨.nulInPath, rfl, by decide⟩
    · rw [if_pos ⟨rfl, Nat.lt_of_not_le hlong⟩]
      exact ⟨.nameTooLong, rfl, by decide⟩
  obtain ⟨fault, haccess, hknown⟩ := hfault
  rw [Readable, Health.probe, haccess] at h
  rcases h with hok | hmissing
  · cases hok
  · exact hknown (Except.error.inj hmissing)

theorem Readable.probe_ok_iff {tree : FileTree} {root : List Path}
    (h : Readable tree (Path.ofNames root)) (hstands : Stands tree root) :
    Health.probe tree (Path.ofNames root) = .ok () ↔
      (tree.at? (root ++ [indexFile])).isSome := by
  rw [Health.probe]
  constructor
  · intro hprobe
    cases hfound : tree.access .whole "/" (Health.indexPath (Path.ofNames root)) with
    | error fault => simp [hfound, Except.map] at hprobe
    | ok found => exact ((access_indexPath_iff hstands).mp hfound).2.2
  · intro hfound
    rw [(access_indexPath_iff hstands).mpr ⟨h.short, rfl, hfound⟩]
    rfl

def FolderAt (tree : FileTree) (path : Path) : Prop :=
  ∃ names entries, tree.access .whole "/" path = .ok names ∧
    tree.at? names = some (.folder entries)

theorem Readable.folderAt_indexPath_iff {tree : FileTree} {root : List Path}
    (h : Readable tree (Path.ofNames root)) (hstands : Stands tree root) :
    FolderAt tree (Health.indexPath (Path.ofNames root)) ↔
      ∃ entries, tree.at? (root ++ [indexFile]) = some (.folder entries) := by
  constructor
  · rintro ⟨names, entries, haccess, hfolder⟩
    obtain ⟨-, rfl, -⟩ := (access_indexPath_iff hstands).mp haccess
    exact ⟨entries, hfolder⟩
  · rintro ⟨entries, hfolder⟩
    have hfound := Option.isSome_of_eq_some hfolder
    exact ⟨_, entries, (access_indexPath_iff hstands).mpr ⟨h.short, rfl, hfound⟩, hfolder⟩

variable {σ : Type} (tools : Toolbox σ) (config : Config)

theorem exists_checkIndex_present (root : Path) (s : σ) :
    ∃ c, ((Health.checkIndex config root (.ok ())).play tools s).outcome = .ok c ∧
      c.finding.ok = true :=
  ⟨_, rfl, rfl⟩

theorem exists_checkIndex_missing (root : Path) (s : σ) :
    ∃ c, ((Health.checkIndex config root (.error .missing)).play tools s).outcome = .ok c ∧
      c.finding.ok = false := by
  rw [Health.checkIndex, Health.advised]
  split
  · exact ⟨_, rfl, rfl⟩
  · exact ⟨_, rfl, rfl⟩

-- A workspace that is found to be indexed passes the check of its index, and one that is not
-- fails it, unless a folder stands in the place of the index: this passes the check.
theorem detect_checkIndex_iff (s : σ) {tree : FileTree} {folder start : Path} {w : Workspace}
    (hdetect : detect tree folder start = .ok w) (hreadable : Readable tree w.root) :
    ∃ c, ((Health.checkIndex config w.root (Health.probe tree w.root)).play tools s).outcome =
        .ok c ∧
      (w.indexed = true → c.finding.ok = true) ∧
      (c.finding.ok = w.indexed ↔ ¬ FolderAt tree (Health.indexPath w.root)) := by
  obtain ⟨root, hstands, rfl⟩ := exists_root_of_detect hdetect
  rw [hreadable.folderAt_indexPath_iff hstands]
  have hprobe := hreadable.probe_ok_iff hstands
  simp only [holdsIndex]
  cases hfound : tree.at? (root ++ [indexFile]) with
  | some found =>
    obtain ⟨c, hplay, hok⟩ := exists_checkIndex_present tools config (Path.ofNames root) s
    rw [hprobe.mpr (Option.isSome_of_eq_some hfound)]
    refine ⟨c, hplay, fun _ => hok, ?_⟩
    cases found with
    | file => simp [hok, isFile]
    | folder entries => simp [hok, isFile]
  | none =>
    obtain ⟨c, hplay, hok⟩ := exists_checkIndex_missing tools config (Path.ofNames root) s
    have hmissing : Health.probe tree (Path.ofNames root) = .error .missing := by
      apply hreadable.resolve_left
      rw [hprobe, hfound]
      exact Bool.false_ne_true
    rw [hmissing]
    refine ⟨c, hplay, ?_, ?_⟩
    · simp
    · simp [hok]

-- An indexed workspace with a folder in it.
def nested : FileTree := .folder [("ws", .folder [("GTAGS", .file), ("src", .folder [])])]

theorem detect_checkIndex_iff_nested :
    detect nested "/" "/ws/src" = .ok ⟨"/ws", true⟩ ∧ Readable nested "/ws" ∧
      (∃ c, ((Health.checkIndex {} "/ws" (Health.probe nested "/ws")).play Script.toolbox
          []).outcome = .ok c ∧ c.finding.ok = true) ∧
      ¬ FolderAt nested (Health.indexPath "/ws") := by
  have hdetect : detect nested "/" "/ws/src" = .ok ⟨"/ws", true⟩ := rfl
  have hreadable : Readable nested "/ws" := Or.inl rfl
  obtain ⟨c, hplay, hindexed, hagree⟩ :=
    detect_checkIndex_iff Script.toolbox {} [] hdetect hreadable
  have hok := hindexed rfl
  exact ⟨hdetect, hreadable, ⟨c, hplay, hok⟩, hagree.mp hok⟩

-- A folder stands where the index should be.
def folderForIndex : FileTree := .folder [("ws", .folder [("GTAGS", .folder [])])]

theorem folderForIndex_not_agreed :
    ¬ ∀ (tree : FileTree) (folder start : Path) (w : Workspace) (c : Health.Checked),
      detect tree folder start = .ok w → Readable tree w.root →
      ((Health.checkIndex {} w.root (Health.probe tree w.root)).play Script.toolbox
        []).outcome = .ok c → c.finding.ok = w.indexed := by
  intro h
  have hagree := h folderForIndex "/" "/ws" ⟨"/ws", false⟩
    ⟨⟨"index", true, "/ws/GTAGS"⟩, []⟩ rfl (Or.inl rfl) rfl
  cases hagree

end Concordance.Workspace
