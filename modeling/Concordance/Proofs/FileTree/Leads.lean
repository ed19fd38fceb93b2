import Concordance.Proofs.FileTree.Walk

namespace Concordance.FileTree

def IsFolderAt (tree : FileTree) (names : List Path) : Prop :=
  ∃ entries, tree.at? names = some (folder entries)

theorem IsFolderAt.above {tree : FileTree} {above names : List Path} (h : tree.IsFolderAt names)
    (hbegins : above <+: names) : tree.IsFolderAt above := by
  obtain ⟨rest, rfl⟩ := hbegins
  cases rest with
  | nil => rwa [List.append_nil] at h
  | cons name rest =>
    obtain ⟨entries, hentries⟩ := h
    obtain ⟨around, haround, -⟩ := exists_entries_of_at? hentries
    exact ⟨around, haround⟩

-- Where the parts of a path lead, one after another. Each of them is looked up in a folder, also
-- one that stays there or goes up.
inductive Leads (tree : FileTree) : List Path → List Path → List Path → Prop
  | done (here : List Path) : Leads tree here [] here
  | step {here parts next names : List Path} {part : Path} (hfolder : tree.IsFolderAt here)
      (hmoves : Moves tree here part next) (rest : Leads tree next parts names) :
      Leads tree here (part :: parts) names

variable {tree : FileTree} {here next names parts : List Path} {part : Path}

theorem walk_of_moves (hfolder : tree.IsFolderAt here) (hmoves : Moves tree here part next) :
    tree.walk here (part :: parts) = tree.walk next parts := by
  obtain ⟨entries, hentries⟩ := hfolder
  rw [walk, hentries]
  cases hmoves with
  | stay hstay => simp [hstay]
  | up => rfl
  | down hempty hhere habove hshort hentry =>
    have hlookup : (entries.lookup part).isSome := by
      rwa [at?_append, hentries, Option.bind_some, at?_singleton] at hentry
    simp [hempty, hhere, habove, Nat.not_lt.mpr hshort, hlookup]

theorem isFolderAt_of_walk (hwalk : tree.walk here (part :: parts) = .ok names) :
    tree.IsFolderAt here := by
  rw [walk] at hwalk
  cases hfound : tree.at? here with
  | none => simp [hfound] at hwalk
  | some found =>
    cases found with
    | file => simp [hfound] at hwalk
    | folder entries => exact ⟨entries, hfound⟩

theorem walk_eq_ok_iff : tree.walk here parts = .ok names ↔ tree.Leads here parts names := by
  constructor
  · intro hwalk
    induction parts generalizing here with
    | nil =>
      cases hwalk
      exact .done _
    | cons part parts ih =>
      obtain ⟨next, hmoves, hrest⟩ := exists_moves hwalk
      exact .step (isFolderAt_of_walk hwalk) hmoves (ih hrest)
  · intro hleads
    induction hleads with
    | done here => rfl
    | step hfolder hmoves _ ih => rw [walk_of_moves hfolder hmoves, ih]

-- Where a path leads when it is seen from a folder. The empty path leads nowhere, and no file has
-- a name with a NUL in it.
structure LeadsTo (tree : FileTree) (folder path : Path) (names : List Path) : Prop where
  ne_empty : path ≠ ""
  noNul : (Path.join folder path).hasNul = false
  leads : tree.Leads [] (Path.join folder path).components names

theorem access_byParts_eq_ok_iff {folder path : Path} :
    tree.access .byParts folder path = .ok names ↔ tree.LeadsTo folder path names := by
  rw [access_eq_ok_iff, resolve, walk_eq_ok_iff]
  constructor
  · rintro ⟨hne, hnul, -, hleads⟩
    exact ⟨hne, hnul, hleads⟩
  · intro h
    exact ⟨h.ne_empty, h.noNul, fun hwhole => absurd hwhole (by decide), h.leads⟩

-- The path over the names of a folder that is there leads to it, seen from anywhere.
theorem access_ofNames_of_folder (hstands : Stands tree names) (hfolder : tree.IsFolderAt names)
    (seen : Path) : tree.access .byParts seen (Path.ofNames names) = .ok names := by
  rw [access_ofNames_eq_ok_iff hstands.isName]
  refine ⟨nofun, ?_⟩
  by_cases hne : names = []
  · subst hne
    have hparts : (Path.ofNames []).components = [("" : Path), ""] := by decide
    have hstay : Moves tree [] "" [] := .stay (Or.inl rfl)
    rw [resolve, hparts, walk_of_moves hfolder hstay, walk_of_moves hfolder hstay, walk]
  · exact resolve_ofNames hne hstands.isName hstands.found

end Concordance.FileTree
