import Mathlib.Data.List.Chain
import Concordance.Proofs.Json.Encoding

namespace Concordance.Branch

mutual

-- The items of a branch, each before those that stand below it.
def items : Branch → List Item
  | mk item children => item :: itemsOfAll children

def itemsOfAll : List Branch → List Item
  | [] => []
  | b :: bs => b.items ++ itemsOfAll bs

end

-- Reads rows from the last one up. A row takes the deeper ones that are read so far, up to the
-- first that is not, for its own children.
def grow : List (Nat × Item) → List (Nat × Branch)
  | [] => []
  | (depth, item) :: rows =>
    let below := (grow rows).takeWhile (fun r => depth < r.1)
    (depth, mk item (below.map Prod.snd)) :: (grow rows).dropWhile (fun r => depth < r.1)

-- The forest that rows were made of, by their depths alone.
def ofRows (rows : List (Nat × Item)) : List Branch := (grow rows).map Prod.snd

-- Rows that come after all that stands below a depth.
def After {α : Type} (depth : Nat) (rows : List (Nat × α)) : Prop :=
  ∀ r ∈ rows.head?, r.1 ≤ depth

theorem after_nil {α : Type} (depth : Nat) : After depth ([] : List (Nat × α)) :=
  fun _ hr => nomatch hr

theorem After.mono {α : Type} {depth depth' : Nat} {rows : List (Nat × α)}
    (h : After depth rows) (hle : depth ≤ depth') : After depth' rows :=
  fun r hr => (h r hr).trans hle

theorem After.grown {depth : Nat} {rows : List (Nat × Item)} (h : After depth rows) :
    After depth (grow rows) := by
  cases rows with
  | nil => exact after_nil depth
  | cons row rows =>
    intro r hr
    cases hr
    exact h row rfl

theorem After.takeWhile_eq_nil {α : Type} {depth : Nat} {rows : List (Nat × α)}
    (h : After depth rows) : rows.takeWhile (fun r => depth < r.1) = [] := by
  cases rows with
  | nil => rfl
  | cons row rows =>
    have hrow : ¬ depth < row.1 := Nat.not_lt.mpr (h row rfl)
    exact List.takeWhile_cons_of_neg (by simpa using hrow)

theorem After.dropWhile_eq {α : Type} {depth : Nat} {rows : List (Nat × α)}
    (h : After depth rows) : rows.dropWhile (fun r => depth < r.1) = rows := by
  have hall := @List.takeWhile_append_dropWhile _ (fun r => decide (depth < r.1)) rows
  rwa [h.takeWhile_eq_nil, List.nil_append] at hall

theorem after_rowsOfAll_append (depth : Nat) (bs : List Branch) {rest : List (Nat × Item)}
    (h : After depth rest) : After depth (rowsOfAll depth bs ++ rest) := by
  cases bs with
  | nil => exact h
  | cons b bs =>
    cases b
    intro r hr
    cases hr
    exact Nat.le_refl depth

theorem after_rowsOfAll (depth : Nat) (bs : List Branch) : After depth (rowsOfAll depth bs) := by
  have h := after_rowsOfAll_append depth bs (after_nil depth)
  rwa [List.append_nil] at h

-- A row of this depth over the branches of the next one, before rows that come after them.
theorem grow_cons_of_children {depth : Nat} (item : Item) {rows rest : List (Nat × Item)}
    {children : List Branch} (h : After depth rest)
    (hrows : grow rows = children.map (fun b => (depth + 1, b)) ++ grow rest) :
    grow ((depth, item) :: rows) = (depth, mk item children) :: grow rest := by
  have hdeeper : ∀ r ∈ children.map (fun b => (depth + 1, b)), decide (depth < r.1) = true := by
    intro r hr
    obtain ⟨b, -, rfl⟩ := List.mem_map.mp hr
    exact decide_eq_true (Nat.lt_succ_self depth)
  have hsnd : (children.map fun b => (depth + 1, b)).map Prod.snd = children := by
    rw [List.map_map]
    exact List.map_id children
  rw [grow, hrows, List.takeWhile_append_of_pos hdeeper,
    List.dropWhile_append_of_pos hdeeper, h.grown.takeWhile_eq_nil, h.grown.dropWhile_eq,
    List.append_nil, hsnd]

mutual

-- The induction goes over the branches, with any rows after those of the branches: what is read
-- of these does not reach into them, as they start no deeper than the branches do.
theorem grow_rows_append (depth : Nat) (b : Branch) {rest : List (Nat × Item)}
    (h : After depth rest) : grow (rows depth b ++ rest) = (depth, b) :: grow rest := by
  obtain ⟨item, children⟩ := b
  have hbelow := grow_rowsOfAll_append (depth + 1) children (h.mono (Nat.le_succ depth))
  exact grow_cons_of_children item h hbelow

theorem grow_rowsOfAll_append (depth : Nat) (bs : List Branch) {rest : List (Nat × Item)}
    (h : After depth rest) :
    grow (rowsOfAll depth bs ++ rest) = bs.map (fun b => (depth, b)) ++ grow rest := by
  match bs with
  | [] => rfl
  | b :: bs =>
    have hfirst := grow_rows_append depth b (after_rowsOfAll_append depth bs h)
    have hothers := grow_rowsOfAll_append depth bs h
    rw [rowsOfAll, List.append_assoc, hfirst, hothers]
    rfl

end

theorem ofRows_rowsOfAll (bs : List Branch) : ofRows (rowsOfAll 0 bs) = bs := by
  have hgrow := grow_rowsOfAll_append 0 bs (after_nil 0)
  rw [List.append_nil] at hgrow
  rw [ofRows, hgrow, grow, List.append_nil, List.map_map]
  exact List.map_id bs

mutual

theorem map_snd_rows (depth : Nat) (b : Branch) : (rows depth b).map Prod.snd = b.items := by
  obtain ⟨item, children⟩ := b
  rw [rows, List.map_cons, map_snd_rowsOfAll (depth + 1) children, items]

theorem map_snd_rowsOfAll (depth : Nat) (bs : List Branch) :
    (rowsOfAll depth bs).map Prod.snd = itemsOfAll bs := by
  match bs with
  | [] => rfl
  | b :: bs =>
    rw [rowsOfAll, List.map_append, map_snd_rows depth b, map_snd_rowsOfAll depth bs, itemsOfAll]

end

mutual

theorem le_of_mem_rows {depth : Nat} {b : Branch} {r : Nat × Item} (h : r ∈ rows depth b) :
    depth ≤ r.1 := by
  obtain ⟨item, children⟩ := b
  rcases List.mem_cons.mp h with rfl | hbelow
  · exact Nat.le_refl depth
  · exact Nat.le_of_succ_le (le_of_mem_rowsOfAll hbelow)

theorem le_of_mem_rowsOfAll {depth : Nat} {bs : List Branch} {r : Nat × Item}
    (h : r ∈ rowsOfAll depth bs) : depth ≤ r.1 := by
  match bs with
  | [] => exact absurd h List.not_mem_nil
  | b :: bs =>
    rcases List.mem_append.mp h with hfirst | hothers
    · exact le_of_mem_rows hfirst
    · exact le_of_mem_rowsOfAll hothers

end

theorem rowsOfAll_eq_flatMap (depth : Nat) (bs : List Branch) :
    rowsOfAll depth bs = bs.flatMap (rows depth) := by
  induction bs with
  | nil => rfl
  | cons b bs ih => rw [rowsOfAll, ih, List.flatMap_cons]

-- The rows of a branch are its own and those below it, which are deeper.
theorem exists_rows_eq (depth : Nat) (b : Branch) :
    ∃ below, rows depth b = (depth, b.item) :: below ∧ ∀ r ∈ below, depth < r.1 := by
  obtain ⟨item, children⟩ := b
  exact ⟨rowsOfAll (depth + 1) children, rfl, fun r hr => le_of_mem_rowsOfAll hr⟩

-- A row and the one before it: the depth grows by one level at most.
def Follows (above below : Nat × Item) : Prop := below.1 ≤ above.1 + 1

mutual

theorem isChain_rows (depth : Nat) (b : Branch) : (rows depth b).IsChain Follows := by
  obtain ⟨item, children⟩ := b
  refine List.isChain_cons.mpr ⟨?_, isChain_rowsOfAll (depth + 1) children⟩
  exact fun r hr => after_rowsOfAll (depth + 1) children r hr

theorem isChain_rowsOfAll (depth : Nat) (bs : List Branch) :
    (rowsOfAll depth bs).IsChain Follows := by
  match bs with
  | [] => exact .nil
  | b :: bs =>
    refine (isChain_rows depth b).append (isChain_rowsOfAll depth bs) ?_
    intro last hlast next hnext
    -- the next branch starts at this depth again, and no row so far is above it
    have hdepth : depth ≤ last.1 := le_of_mem_rows (List.mem_of_getLast? hlast)
    have hstart : next.1 ≤ depth := after_rowsOfAll depth bs next hnext
    exact (hstart.trans hdepth).trans (Nat.le_succ last.1)

end

-- The rows of a forest are its items in order. Each root starts at depth zero, where no other row
-- is, and a row is at most one level deeper than the one before it. The depths give the forest
-- back, so that two forests have the same rows exactly when they are the same as JSON.
theorem rows_determine (bs : List Branch) :
    (rowsOfAll 0 bs).map Prod.snd = itemsOfAll bs ∧
    rowsOfAll 0 bs = bs.flatMap (rows 0) ∧
    (∀ b, ∃ below, rows 0 b = (0, b.item) :: below ∧ ∀ r ∈ below, 0 < r.1) ∧
    (rowsOfAll 0 bs).IsChain Follows ∧
    ofRows (rowsOfAll 0 bs) = bs ∧
    ∀ bs', rowsOfAll 0 bs' = rowsOfAll 0 bs ↔ jsonOfAll bs' = jsonOfAll bs := by
  refine ⟨map_snd_rowsOfAll 0 bs, rowsOfAll_eq_flatMap 0 bs, exists_rows_eq 0,
    isChain_rowsOfAll 0 bs, ofRows_rowsOfAll bs, fun bs' => ⟨fun hrows => ?_, fun hjson => ?_⟩⟩
  · have hforest := congrArg ofRows hrows
    rw [ofRows_rowsOfAll, ofRows_rowsOfAll] at hforest
    rw [hforest]
  · rw [eq_of_jsonOfAll_eq hjson]

end Concordance.Branch
