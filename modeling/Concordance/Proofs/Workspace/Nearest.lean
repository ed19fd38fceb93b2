import Mathlib.Data.List.Induction
import Concordance.Proofs.FileTree.Leads
import Concordance.Proofs.Workspace.Index

namespace Concordance.Workspace

open FileTree

-- A regular file with the name of the index stands in a folder.
def HasIndex (tree : FileTree) (place : List Path) : Prop :=
  tree.at? (place ++ [("GTAGS" : Path)]) = some .file

theorem holdsIndex_iff {tree : FileTree} {place : List Path} :
    holdsIndex tree place = true ↔ HasIndex tree place := by
  rw [holdsIndex, HasIndex, indexFile]
  cases tree.at? (place ++ [("GTAGS" : Path)]) with
  | none => simp
  | some found => cases found <;> simp [isFile]

-- Upward from a folder comes all that is upward from the one above it.
theorem upward_concat (names : List Path) (name : Path) :
    upward (names ++ [name]) = (names ++ [name]) :: upward names := by
  have hlength : (names ++ [name]).length = names.length + 1 := by simp
  rw [upward, upward, hlength, List.range_succ_eq_map, List.map_cons, List.map_map, Nat.sub_zero,
    ← hlength, List.take_length]
  refine congrArg _ (List.map_congr_left fun n _ => ?_)
  rw [Function.comp_apply, hlength, Nat.succ_sub_succ]
  exact List.take_append_of_le_length (Nat.sub_le _ _)

theorem nearest?_nil (tree : FileTree) :
    nearest? tree [] = if holdsIndex tree [] then some [] else none := by
  rw [nearest?]
  cases h : holdsIndex tree [] <;> simp [upward, h]

theorem nearest?_concat (tree : FileTree) (names : List Path) (name : Path) :
    nearest? tree (names ++ [name]) =
      if holdsIndex tree (names ++ [name]) then some (names ++ [name])
      else nearest? tree names := by
  rw [nearest?, upward_concat, List.find?_cons, ← nearest?]
  cases h : holdsIndex tree (names ++ [name]) <;> rfl

-- The root of the workspace around a folder, and whether it is indexed: the nearest folder with an
-- index that is the folder itself or above it, and else the folder itself.
inductive RootOf (tree : FileTree) (names : List Path) : List Path → Bool → Prop
  | indexed {root : List Path} (habove : root <+: names) (hindex : HasIndex tree root)
      (hnearest : ∀ place, place <+: names → HasIndex tree place → place <+: root) :
      RootOf tree names root true
  | bare (hnone : ∀ place, place <+: names → ¬ HasIndex tree place) : RootOf tree names names false

variable {tree : FileTree} {names root root' : List Path} {indexed indexed' : Bool}

theorem RootOf.unique (h : RootOf tree names root indexed) (h' : RootOf tree names root' indexed') :
    root = root' ∧ indexed = indexed' := by
  cases h with
  | indexed habove hindex hnearest =>
    cases h' with
    | indexed habove' hindex' hnearest' =>
      have hle := hnearest' root habove hindex
      have hge := hnearest root' habove' hindex'
      exact ⟨hle.eq_of_length_le hge.length_le, rfl⟩
    | bare hnone => exact absurd hindex (hnone root habove)
  | bare hnone =>
    cases h' with
    | indexed habove hindex => exact absurd hindex (hnone root' habove)
    | bare => exact ⟨rfl, rfl⟩

-- A folder between another one and the root of its workspace has the same root.
theorem RootOf.between {place : List Path} (h : RootOf tree names root indexed)
    (hbelow : root <+: place) (habove : place <+: names) : RootOf tree place root indexed := by
  cases h with
  | indexed _ hindex hnearest =>
    exact .indexed hbelow hindex fun other hother => hnearest other (hother.trans habove)
  | bare hnone =>
    cases habove.eq_of_length_le hbelow.length_le
    exact .bare hnone

theorem rootOf_self (h : HasIndex tree names) : RootOf tree names names true :=
  .indexed List.prefix_rfl h fun _ habove _ => habove

-- A folder without an index has the root of the one above it, if that has an index.
theorem RootOf.below {name : Path} (h : RootOf tree names root indexed)
    (hnone : ¬ HasIndex tree (names ++ [name])) :
    RootOf tree (names ++ [name]) (if indexed then root else names ++ [name]) indexed := by
  cases h with
  | indexed habove hindex hnearest =>
    have hlonger := habove.trans (List.prefix_append names [name])
    refine .indexed hlonger hindex fun place hplace hhas => ?_
    rcases List.prefix_concat_iff.mp hplace with rfl | hbegins
    · exact absurd hhas hnone
    · exact hnearest place hbegins hhas
  | bare hnowhere =>
    refine .bare fun place hplace => ?_
    rcases List.prefix_concat_iff.mp hplace with rfl | hbegins
    · exact hnone
    · exact hnowhere place hbegins

-- The search looks at a folder before all those above it, so the induction goes down the path.
theorem rootOf_nearest? (tree : FileTree) (names : List Path) :
    RootOf tree names ((nearest? tree names).getD names) (nearest? tree names).isSome := by
  induction names using List.reverseRecOn with
  | nil =>
    rw [nearest?_nil]
    by_cases hholds : holdsIndex tree []
    · rw [if_pos hholds]
      exact rootOf_self (holdsIndex_iff.mp hholds)
    · rw [if_neg hholds]
      refine .bare fun place hplace => ?_
      rw [List.prefix_nil.mp hplace]
      exact mt holdsIndex_iff.mpr hholds
  | append_singleton names name ih =>
    rw [nearest?_concat]
    by_cases hholds : holdsIndex tree (names ++ [name])
    · rw [if_pos hholds]
      exact rootOf_self (holdsIndex_iff.mp hholds)
    · rw [if_neg hholds]
      have hbelow := ih.below (mt holdsIndex_iff.mpr hholds)
      cases hnearest : nearest? tree names with
      | none => simpa [hnearest] using hbelow
      | some root => simpa [hnearest] using hbelow

theorem detect_of_leadsTo {folder start : Path} (hleads : tree.LeadsTo folder start names)
    (hfolder : tree.IsFolderAt names) (hroot : RootOf tree names root indexed) :
    detect tree folder start = .ok ⟨Path.ofNames root, indexed⟩ := by
  obtain ⟨entries, hentries⟩ := hfolder
  obtain ⟨rfl, rfl⟩ := hroot.unique (rootOf_nearest? tree names)
  rw [detect, access_byParts_eq_ok_iff.mpr hleads]
  simp only [hentries]
  cases nearest? tree names <;> rfl

-- What is not there, or is no folder, has no workspace, and the error names it: as it was given in
-- the first case, by its place in the second.
theorem detect_eq_error_iff {folder start : Path} {e : NoWorkspace} :
    detect tree folder start = .error e ↔
      (¬ ∃ names, tree.LeadsTo folder start names) ∧ e = ⟨start⟩ ∨
        ∃ names, tree.LeadsTo folder start names ∧ ¬ tree.IsFolderAt names ∧
          e = ⟨Path.ofNames names⟩ := by
  simp only [← access_byParts_eq_ok_iff]
  rw [detect]
  cases hstart : tree.access .byParts folder start with
  | error fault => simp [eq_comm]
  | ok names =>
    simp only [Except.ok.injEq, exists_eq', not_true_eq_false, false_and, false_or, exists_eq_left']
    rw [IsFolderAt]
    cases hfound : tree.at? names with
    | none => simp [eq_comm]
    | some found =>
      cases found with
      | file => simp [eq_comm]
      | folder entries =>
        cases nearest? tree names <;> simp

-- A folder that is there has a workspace, and nothing else has. Its root is the nearest folder with
-- an index, from the folder upward, and the folder itself where there is none. The root, and every
-- folder on the way from it to the first one, has the same workspace, seen from anywhere.
theorem detect_nearest (tree : FileTree) (folder start : Path) :
    (∀ e, detect tree folder start = .error e ↔
      (¬ ∃ names, tree.LeadsTo folder start names) ∧ e = ⟨start⟩ ∨
        ∃ names, tree.LeadsTo folder start names ∧ ¬ tree.IsFolderAt names ∧
          e = ⟨Path.ofNames names⟩) ∧
    ∀ names, tree.LeadsTo folder start names → tree.IsFolderAt names →
      ∃ root indexed, RootOf tree names root indexed ∧
        detect tree folder start = .ok ⟨Path.ofNames root, indexed⟩ ∧
        ∀ place, root <+: place → place <+: names → ∀ seen,
          detect tree seen (Path.ofNames place) = .ok ⟨Path.ofNames root, indexed⟩ := by
  refine ⟨fun e => detect_eq_error_iff, fun names hleads hfolder => ?_⟩
  have hroot := rootOf_nearest? tree names
  refine ⟨_, _, hroot, detect_of_leadsTo hleads hfolder hroot, fun place hbelow habove seen => ?_⟩
  have hstands : Stands tree place :=
    (access_stands (access_byParts_eq_ok_iff.mpr hleads)).above habove
  have hplace : tree.IsFolderAt place := hfolder.above habove
  have hseen : tree.LeadsTo seen (Path.ofNames place) place :=
    access_byParts_eq_ok_iff.mp (access_ofNames_of_folder hstands hplace seen)
  exact detect_of_leadsTo hseen hplace (hroot.between hbelow habove)

-- A workspace in another one, and a folder in the place of an index on the way to it.
def twoWorkspaces : FileTree :=
  .folder [("ws", .folder [("GTAGS", .file), ("lib", .folder [("GTAGS", .file),
    ("src", .folder [("GTAGS", .folder []), ("io", .folder [])])])])]

theorem detect_nearest_twoWorkspaces :
    let names : List Path := ["ws", "lib", "src", "io"]
    twoWorkspaces.LeadsTo "/ws" "lib/src/../src/io" names ∧ twoWorkspaces.IsFolderAt names ∧
      RootOf twoWorkspaces names ["ws", "lib"] true ∧
      detect twoWorkspaces "/ws" "lib/src/../src/io" = .ok ⟨"/ws/lib", true⟩ ∧
      detect twoWorkspaces "/" "/ws/lib/src" = .ok ⟨"/ws/lib", true⟩ ∧
      detect twoWorkspaces "/" "/ws/lib" = .ok ⟨"/ws/lib", true⟩ := by
  intro names
  have hleads : twoWorkspaces.LeadsTo "/ws" "lib/src/../src/io" names :=
    access_byParts_eq_ok_iff.mp rfl
  have hfolder : twoWorkspaces.IsFolderAt names := ⟨[], rfl⟩
  obtain ⟨-, hfolders⟩ := detect_nearest twoWorkspaces "/ws" "lib/src/../src/io"
  obtain ⟨root, indexed, hroot, hdetect, hbetween⟩ := hfolders names hleads hfolder
  have hnearest : RootOf twoWorkspaces names ["ws", "lib"] true :=
    rootOf_nearest? twoWorkspaces names
  obtain ⟨rfl, rfl⟩ := hroot.unique hnearest
  have hsrc := hbetween ["ws", "lib", "src"] ⟨["src"], rfl⟩ ⟨["io"], rfl⟩ "/"
  have hlib := hbetween ["ws", "lib"] List.prefix_rfl ⟨["src", "io"], rfl⟩ "/"
  exact ⟨hleads, hfolder, hnearest, hdetect, hsrc, hlib⟩

end Concordance.Workspace
