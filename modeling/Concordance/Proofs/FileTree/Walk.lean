import Concordance.FileTree
import Concordance.Proofs.Path.Names

namespace Concordance.FileTree

-- A name that an entry of a folder can go by.
structure IsName (name : Path) : Prop where
  slash_notMem : Path.slash ∉ name.bytes
  nul_notMem : 0 ∉ name.bytes
  ne_empty : name ≠ ""
  ne_here : name ≠ "."
  ne_above : name ≠ ".."
  short : name.bytes.length ≤ maxName

theorem at?_append (tree : FileTree) (before after : List Path) :
    tree.at? (before ++ after) = (tree.at? before).bind (fun found => found.at? after) := by
  induction before generalizing tree with
  | nil => rfl
  | cons name before ih =>
    cases tree with
    | file => rfl
    | folder entries =>
      rw [List.cons_append, at?, at?]
      cases entries.lookup name with
      | none => rfl
      | some child => exact ih child

theorem at?_singleton (entries : List (Path × FileTree)) (name : Path) :
    (folder entries).at? [name] = entries.lookup name := by
  rw [at?]
  cases entries.lookup name with
  | none => rfl
  | some child => rfl

-- What stands above something is a folder that holds it.
theorem exists_entries_of_at? {tree found : FileTree} {here rest : List Path} {name : Path}
    (h : tree.at? (here ++ name :: rest) = some found) :
    ∃ entries, tree.at? here = some (folder entries) ∧ (entries.lookup name).isSome := by
  rw [at?_append] at h
  obtain ⟨above, habove, hfound⟩ := Option.bind_eq_some_iff.mp h
  cases above with
  | file => cases hfound
  | folder entries =>
    obtain ⟨child, hchild, -⟩ := Option.bind_eq_some_iff.mp hfound
    exact ⟨entries, habove, Option.isSome_of_eq_some hchild⟩

-- Where one part of a path leads, seen from the folder under the names `here`.
inductive Moves (tree : FileTree) (here : List Path) : Path → List Path → Prop
  | stay {part : Path} (h : part = "" ∨ part = ".") : Moves tree here part here
  | up : Moves tree here ".." here.dropLast
  | down {part : Path} (hempty : part ≠ "") (hhere : part ≠ ".") (habove : part ≠ "..")
      (hshort : part.bytes.length ≤ maxName) (hentry : (tree.at? (here ++ [part])).isSome) :
      Moves tree here part (here ++ [part])

theorem exists_moves {tree : FileTree} {here parts names : List Path} {part : Path}
    (hwalk : tree.walk here (part :: parts) = .ok names) :
    ∃ next, Moves tree here part next ∧ tree.walk next parts = .ok names := by
  rw [walk] at hwalk
  cases hfound : tree.at? here with
  | none => simp [hfound] at hwalk
  | some found =>
    cases found with
    | file => simp [hfound] at hwalk
    | folder entries =>
      simp only [hfound, Bool.or_eq_true, decide_eq_true_eq] at hwalk
      by_cases hstay : part = "" ∨ part = "."
      · rw [if_pos hstay] at hwalk
        exact ⟨here, .stay hstay, hwalk⟩
      rw [if_neg hstay] at hwalk
      obtain ⟨hempty, hhere⟩ := not_or.mp hstay
      by_cases habove : part = ".."
      · subst habove
        rw [if_pos rfl] at hwalk
        exact ⟨here.dropLast, .up, hwalk⟩
      rw [if_neg habove] at hwalk
      by_cases hlong : maxName < part.bytes.length
      · rw [if_pos hlong] at hwalk
        cases hwalk
      rw [if_neg hlong] at hwalk
      by_cases hentry : (entries.lookup part).isSome
      · rw [if_pos hentry] at hwalk
        have hbelow : (tree.at? (here ++ [part])).isSome := by
          rw [at?_append, hfound, Option.bind_some, at?_singleton]
          exact hentry
        exact ⟨here ++ [part], .down hempty hhere habove (Nat.le_of_not_lt hlong) hbelow, hwalk⟩
      · rw [if_neg hentry] at hwalk
        cases hwalk

-- What a walk goes through: something stands there, under names of entries.
structure Stands (tree : FileTree) (names : List Path) : Prop where
  found : (tree.at? names).isSome
  isName : ∀ name ∈ names, IsName name

theorem Stands.above {tree : FileTree} {above names : List Path} (h : Stands tree names)
    (hbegins : above <+: names) : Stands tree above := by
  obtain ⟨rest, rfl⟩ := hbegins
  constructor
  · obtain ⟨found, hfound⟩ := Option.isSome_iff_exists.mp h.found
    rw [at?_append] at hfound
    obtain ⟨middle, hmiddle, -⟩ := Option.bind_eq_some_iff.mp hfound
    exact Option.isSome_of_eq_some hmiddle
  · intro name hname
    exact h.isName name (List.mem_append_left rest hname)

theorem Moves.stands {tree : FileTree} {here next : List Path} {part : Path}
    (hmoves : Moves tree here part next) (hslash : Path.slash ∉ part.bytes)
    (hnul : 0 ∉ part.bytes) (h : Stands tree here) :
    Stands tree next := by
  cases hmoves with
  | stay => exact h
  | up =>
    have hbegins := List.dropLast_prefix here
    exact h.above hbegins
  | down hempty hhere habove hshort hentry =>
    refine ⟨hentry, fun name hname => ?_⟩
    rcases List.mem_append.mp hname with hname | hname
    · exact h.isName name hname
    · rw [List.mem_singleton.mp hname]
      exact ⟨hslash, hnul, hempty, hhere, habove, hshort⟩

theorem walk_stands {tree : FileTree} {here parts names : List Path}
    (hwalk : tree.walk here parts = .ok names) (hslash : ∀ part ∈ parts, Path.slash ∉ part.bytes)
    (hnul : ∀ part ∈ parts, 0 ∉ part.bytes) (h : Stands tree here) : Stands tree names := by
  induction parts generalizing here with
  | nil =>
    cases hwalk
    exact h
  | cons part parts ih =>
    obtain ⟨hpart, hrest⟩ := List.forall_mem_cons.mp hslash
    obtain ⟨hpartNul, hrestNul⟩ := List.forall_mem_cons.mp hnul
    obtain ⟨next, hmoves, hnext⟩ := exists_moves hwalk
    exact ih hnext hrest hrestNul (hmoves.stands hpart hpartNul h)

-- A path is looked up when the system does not refuse it for its text.
theorem access_eq_ok_iff {tree : FileTree} {lookup : Lookup} {folder path : Path}
    {names : List Path} :
    tree.access lookup folder path = .ok names ↔
      path ≠ "" ∧ (Path.join folder path).hasNul = false ∧
        (lookup = .whole → path.bytes.length ≤ maxPath) ∧
        tree.resolve (Path.join folder path) = .ok names := by
  rw [access]
  by_cases hempty : path = ""
  · simp [hempty]
  rw [if_neg hempty]
  by_cases hnul : (Path.join folder path).hasNul
  · simp [hnul]
  rw [if_neg hnul]
  by_cases hlong : lookup = .whole ∧ maxPath < path.bytes.length
  · rw [if_pos hlong]
    refine iff_of_false nofun fun h => ?_
    exact absurd hlong.2 (Nat.not_lt.mpr (h.2.2.1 hlong.1))
  · rw [if_neg hlong]
    have hshort (hwhole : lookup = .whole) : path.bytes.length ≤ maxPath :=
      Nat.le_of_not_lt fun h => hlong ⟨hwhole, h⟩
    exact ⟨fun h => ⟨hempty, Bool.eq_false_iff.mpr hnul, hshort, h⟩, fun h => h.2.2.2⟩

theorem access_stands {tree : FileTree} {lookup : Lookup} {folder path : Path}
    {names : List Path} (h : tree.access lookup folder path = .ok names) : Stands tree names := by
  obtain ⟨-, hnul, -, hresolve⟩ := access_eq_ok_iff.mp h
  have hpath : 0 ∉ (Path.join folder path).bytes := fun hmem =>
    Bool.eq_false_iff.mp hnul (List.contains_iff_mem.mpr hmem)
  apply walk_stands hresolve
  · exact fun part hpart => Path.slash_notMem_of_mem_components hpart
  · exact fun part hpart hmem => hpath (Path.mem_bytes_of_mem_components hpart hmem)
  · exact ⟨rfl, fun name hname => absurd hname List.not_mem_nil⟩

theorem Moves.eq_of_isName {tree : FileTree} {here next : List Path} {part : Path}
    (hmoves : Moves tree here part next) (h : IsName part) :
    next = here ++ [part] ∧ (tree.at? next).isSome := by
  cases hmoves with
  | stay hstay => exact absurd hstay (not_or.mpr ⟨h.ne_empty, h.ne_here⟩)
  | up => exact absurd rfl h.ne_above
  | down _ _ _ _ hentry => exact ⟨rfl, hentry⟩

theorem Moves.eq_of_stay {tree : FileTree} {here next : List Path} {part : Path}
    (hmoves : Moves tree here part next) (h : part = "" ∨ part = ".") : next = here := by
  cases hmoves with
  | stay => rfl
  | up => exact absurd h (by decide)
  | down hempty hhere => exact absurd h (not_or.mpr ⟨hempty, hhere⟩)

theorem eq_of_walk_names {tree : FileTree} {here names found : List Path}
    (hwalk : tree.walk here names = .ok found) (hnames : ∀ name ∈ names, IsName name)
    (hhere : (tree.at? here).isSome) : found = here ++ names ∧ (tree.at? found).isSome := by
  induction names generalizing here with
  | nil =>
    cases hwalk
    exact ⟨(List.append_nil _).symm, hhere⟩
  | cons name names ih =>
    obtain ⟨hname, hrest⟩ := List.forall_mem_cons.mp hnames
    obtain ⟨next, hmoves, hnext⟩ := exists_moves hwalk
    obtain ⟨rfl, hstands⟩ := hmoves.eq_of_isName hname
    have hfound := ih hnext hrest hstands
    rwa [List.append_assoc, List.singleton_append] at hfound

theorem walk_names {tree : FileTree} {here names : List Path}
    (hnames : ∀ name ∈ names, IsName name) (h : (tree.at? (here ++ names)).isSome) :
    tree.walk here names = .ok (here ++ names) := by
  induction names generalizing here with
  | nil => rw [walk, List.append_nil]
  | cons name names ih =>
    obtain ⟨hname, hrest⟩ := List.forall_mem_cons.mp hnames
    obtain ⟨found, hfound⟩ := Option.isSome_iff_exists.mp h
    obtain ⟨entries, hhere, hentry⟩ := exists_entries_of_at? hfound
    have hnext : (tree.at? (here ++ [name] ++ names)).isSome := by
      rwa [List.append_assoc, List.singleton_append]
    have hwalk := ih hrest hnext
    rw [List.append_assoc, List.singleton_append] at hwalk
    simp [walk, hhere, hname.ne_empty, hname.ne_here, hname.ne_above, hentry,
      Nat.not_lt.mpr hname.short, hwalk]

-- The path over names of entries leads to these names, if something stands there.
theorem resolve_ofNames {tree : FileTree} {names : List Path} (hne : names ≠ [])
    (hnames : ∀ name ∈ names, IsName name) (h : (tree.at? names).isSome) :
    tree.resolve (Path.ofNames names) = .ok names := by
  have hparts : Path.components (Path.ofNames names) = ("" : Path) :: names :=
    Path.components_ofNames hne fun name hname => (hnames name hname).slash_notMem
  cases names with
  | nil => exact absurd rfl hne
  | cons name names =>
    obtain ⟨found, hfound⟩ := Option.isSome_iff_exists.mp h
    obtain ⟨entries, htop, -⟩ := @exists_entries_of_at? tree found [] names name hfound
    have hwalk : tree.walk [] (name :: names) = .ok (name :: names) := walk_names hnames h
    rw [resolve, hparts, walk, htop]
    exact hwalk

theorem eq_of_resolve_ofNames {tree : FileTree} {names found : List Path} (hne : names ≠ [])
    (hnames : ∀ name ∈ names, IsName name)
    (h : tree.resolve (Path.ofNames names) = .ok found) :
    found = names ∧ (tree.at? names).isSome := by
  rw [resolve, Path.components_ofNames hne fun name hname => (hnames name hname).slash_notMem] at h
  obtain ⟨next, hmoves, hnext⟩ := exists_moves h
  rw [hmoves.eq_of_stay (Or.inl rfl)] at hnext
  obtain ⟨rfl, hfound⟩ := eq_of_walk_names hnext hnames rfl
  exact ⟨rfl, hfound⟩

theorem access_ofNames_eq_ok_iff {tree : FileTree} {lookup : Lookup} {folder : Path}
    {names found : List Path} (hnames : ∀ name ∈ names, IsName name) :
    tree.access lookup folder (Path.ofNames names) = .ok found ↔
      (lookup = .whole → (Path.ofNames names).bytes.length ≤ maxPath) ∧
        tree.resolve (Path.ofNames names) = .ok found := by
  have habsolute := Path.isAbsolute_ofNames names
  have hne : Path.ofNames names ≠ "" := by
    intro hempty
    rw [hempty] at habsolute
    cases habsolute
  have hnul : (Path.ofNames names).hasNul = false :=
    Path.hasNul_ofNames fun name hname => (hnames name hname).nul_notMem
  rw [access_eq_ok_iff, Path.join_of_isAbsolute habsolute]
  simp only [hne, hnul, ne_eq, not_false_eq_true, true_and]

theorem access_ofNames_iff {tree : FileTree} {lookup : Lookup} {folder : Path}
    {names found : List Path} (hne : names ≠ []) (hnames : ∀ name ∈ names, IsName name) :
    tree.access lookup folder (Path.ofNames names) = .ok found ↔
      (lookup = .whole → (Path.ofNames names).bytes.length ≤ maxPath) ∧
        found = names ∧ (tree.at? names).isSome := by
  rw [access_ofNames_eq_ok_iff hnames]
  refine and_congr_right fun _ => ⟨eq_of_resolve_ofNames hne hnames, ?_⟩
  rintro ⟨rfl, h⟩
  exact resolve_ofNames hne hnames h

end Concordance.FileTree
