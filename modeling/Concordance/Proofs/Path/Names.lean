import Concordance.Path
import Concordance.Proofs.Text.Lines

namespace Concordance.Path

theorem slash_notMem_of_mem_components {path part : Path} (h : part ∈ path.components) :
    slash ∉ part.bytes := by
  obtain ⟨piece, hpiece, rfl⟩ := List.mem_map.mp h
  exact Text.separator_notMem_of_mem_splitOn hpiece

theorem mem_bytes_of_mem_components {path part : Path} {b : UInt8} (h : part ∈ path.components)
    (hb : b ∈ part.bytes) : b ∈ path.bytes := by
  obtain ⟨piece, hpiece, rfl⟩ := List.mem_map.mp h
  exact Text.mem_of_mem_splitOn hpiece hb

-- A path to which names are added one after another.
def below (path : Path) (names : List Path) : Path := names.foldl add path

theorem ofNames_eq_below {names : List Path} (h : names ≠ []) : ofNames names = below "" names := by
  cases names with
  | nil => exact absurd rfl h
  | cons name names => rfl

theorem below_append_singleton (path : Path) (names : List Path) (name : Path) :
    below path (names ++ [name]) = (below path names).add name := by
  rw [below, List.foldl_append]
  rfl

-- What is added stands behind the path that it is added to.
theorem bytes_below_append (before : List UInt8) (path : Path) (names : List Path) :
    (below ⟨before ++ path.bytes⟩ names).bytes = before ++ (below path names).bytes := by
  induction names generalizing path with
  | nil => rfl
  | cons name names ih =>
    have hadd : (⟨before ++ path.bytes⟩ : Path).add name = ⟨before ++ (path.add name).bytes⟩ := by
      simp only [add, List.append_assoc]
    rw [below, List.foldl_cons, hadd]
    exact ih (path.add name)

theorem bytes_below_cons (path name : Path) (names : List Path) :
    (below path (name :: names)).bytes = path.bytes ++ slash :: (below name names).bytes := by
  have hadd : path.add name = ⟨(path.bytes ++ [slash]) ++ name.bytes⟩ := by
    simp only [add, List.append_assoc, List.singleton_append]
  rw [below, List.foldl_cons, hadd]
  refine (bytes_below_append (path.bytes ++ [slash]) name names).trans ?_
  rw [List.append_assoc, List.singleton_append]

theorem components_below {path : Path} {names : List Path} (hpath : slash ∉ path.bytes)
    (h : ∀ name ∈ names, slash ∉ name.bytes) :
    (below path names).components = path :: names := by
  induction names generalizing path with
  | nil =>
    rw [components, Text.splitOn_eq, below, List.foldl_nil, List.splitOn_eq_singleton hpath]
    rfl
  | cons name names ih =>
    obtain ⟨hname, hnames⟩ := List.forall_mem_cons.mp h
    have hrest := ih hname hnames
    rw [components, Text.splitOn_eq] at hrest ⊢
    rw [bytes_below_cons, List.splitOn_append_cons_self_of_not_mem hpath, List.map_cons, hrest]

-- A path over names is taken apart into the same names, after the empty part before its
-- first slash.
theorem components_ofNames {names : List Path} (hne : names ≠ [])
    (h : ∀ name ∈ names, slash ∉ name.bytes) :
    (ofNames names).components = ("" : Path) :: names := by
  rw [ofNames_eq_below hne]
  exact components_below List.not_mem_nil h

theorem isAbsolute_ofNames (names : List Path) : (ofNames names).isAbsolute = true := by
  cases names with
  | nil => rfl
  | cons name names =>
    rw [ofNames_eq_below (List.cons_ne_nil name names), isAbsolute, bytes_below_cons]
    rfl

theorem join_of_isAbsolute {path : Path} (h : path.isAbsolute = true) (folder : Path) :
    join folder path = path := by
  rw [join, if_pos (by rw [h]; rfl)]

theorem ofNames_append_singleton {names : List Path} (hne : names ≠ []) (name : Path) :
    ofNames (names ++ [name]) = (ofNames names).add name := by
  have hlonger : names ++ [name] ≠ [] := by simp
  rw [ofNames_eq_below hlonger, below_append_singleton, ← ofNames_eq_below hne]

theorem getLast?_ofNames {names : List Path} (hne : names ≠ [])
    (h : ∀ name ∈ names, name ≠ "" ∧ slash ∉ name.bytes) :
    (ofNames names).bytes.getLast? ≠ some slash := by
  rcases List.eq_nil_or_concat names with rfl | ⟨init, last, rfl⟩
  · exact absurd rfl hne
  · rw [List.concat_eq_append] at h ⊢
    obtain ⟨hlast, hslash⟩ := h last (by simp)
    have hbytes : last.bytes ≠ [] := fun hnil => hlast (congrArg Path.mk hnil)
    intro hend
    rw [ofNames_eq_below (by simp), below_append_singleton, add, List.getLast?_append,
      List.getLast?_cons_of_ne_nil hbytes, List.getLast?_eq_some_getLast hbytes,
      Option.some_or] at hend
    exact hslash (Option.some.inj hend ▸ List.getLast_mem hbytes)

-- A relative path that is seen from the folder under names is the path over one name more.
theorem join_ofNames {names : List Path} (h : ∀ name ∈ names, name ≠ "" ∧ slash ∉ name.bytes)
    {name : Path} (hname : name.isAbsolute = false) :
    join (ofNames names) name = ofNames (names ++ [name]) := by
  by_cases hne : names = []
  · subst hne
    rw [join, hname]
    rfl
  · have hfolder : (ofNames names).bytes.isEmpty = false := by
      have habsolute := isAbsolute_ofNames names
      cases hbytes : (ofNames names).bytes with
      | nil => simp [isAbsolute, hbytes] at habsolute
      | cons b bs => rfl
    rw [join, hname, hfolder, if_neg (by simp), if_neg (getLast?_ofNames hne h),
      ofNames_append_singleton hne, add]

theorem mem_bytes_below {path : Path} {names : List Path} {b : UInt8} (hb : b ≠ slash)
    (h : b ∈ (below path names).bytes) : b ∈ path.bytes ∨ ∃ name ∈ names, b ∈ name.bytes := by
  induction names generalizing path with
  | nil => exact Or.inl h
  | cons name names ih =>
    rw [bytes_below_cons, List.mem_append, List.mem_cons] at h
    rcases h with hpath | rfl | hrest
    · exact Or.inl hpath
    · exact absurd rfl hb
    · rcases ih hrest with hname | ⟨other, hother, hmem⟩
      · exact Or.inr ⟨name, List.mem_cons_self, hname⟩
      · exact Or.inr ⟨other, List.mem_cons_of_mem name hother, hmem⟩

theorem hasNul_ofNames {names : List Path} (h : ∀ name ∈ names, 0 ∉ name.bytes) :
    (ofNames names).hasNul = false := by
  rw [hasNul, Bool.eq_false_iff, ne_eq, List.contains_iff_mem]
  intro hnul
  by_cases hne : names = []
  · subst hne
    revert hnul
    decide
  · rw [ofNames_eq_below hne] at hnul
    rcases mem_bytes_below (by decide) hnul with hempty | ⟨name, hname, hmem⟩
    · exact absurd hempty List.not_mem_nil
    · exact h name hname hmem

-- The test for an absolute path is made twice on the way, and to no other end.
theorem resolve_eq_join (root path : Path) : resolve root path = join root path := by
  unfold resolve join
  by_cases h : path.isAbsolute = true
  · simp [h]
  · rw [if_neg h]

end Concordance.Path
