namespace Concordance

-- Puts an entry where its key belongs; an entry of the same key gives way.
def putEntry (key value : String) : List (String × String) → List (String × String)
  | [] => [(key, value)]
  | entry :: rest =>
    if key < entry.1 then (key, value) :: entry :: rest
    else if entry.1 < key then entry :: putEntry key value rest
    else (key, value) :: rest

-- Texts by key, in ascending order of the keys.
structure Fields where
  entries : List (String × String)
  ascending : entries.Pairwise (fun a b => a.1 < b.1)
deriving DecidableEq, Repr

theorem mem_putEntry {key value : String} {entry : String × String}
    {entries : List (String × String)} (h : entry ∈ putEntry key value entries) :
    entry = (key, value) ∨ entry ∈ entries := by
  induction entries with
  | nil => simpa [putEntry] using h
  | cons first rest ih =>
    simp only [putEntry] at h
    split at h
    · simpa using h
    · split at h
      · cases List.mem_cons.mp h with
        | inl hf => exact Or.inr (by simp [hf])
        | inr hr => exact (ih hr).imp id (List.mem_cons_of_mem _)
      · cases List.mem_cons.mp h with
        | inl hf => exact Or.inl hf
        | inr hr => exact Or.inr (List.mem_cons_of_mem _ hr)

-- Keys that are not below one another are the same key.
private theorem key_eq {a b : String} (hab : ¬ a < b) (hba : ¬ b < a) : a = b :=
  String.le_antisymm (String.not_lt.mp hba) (String.not_lt.mp hab)

theorem putEntry_ascending (key value : String) {entries : List (String × String)}
    (h : entries.Pairwise (fun a b => a.1 < b.1)) :
    (putEntry key value entries).Pairwise (fun a b => a.1 < b.1) := by
  induction entries with
  | nil => simp [putEntry]
  | cons first rest ih =>
    obtain ⟨hfirst, hrest⟩ := List.pairwise_cons.mp h
    simp only [putEntry]
    split
    · next hlt =>
      refine List.pairwise_cons.mpr ⟨fun entry he => ?_, h⟩
      cases List.mem_cons.mp he with
      | inl hf => rw [hf]; exact hlt
      | inr hr => exact String.lt_trans hlt (hfirst entry hr)
    · next hnlt =>
      split
      · next hgt =>
        refine List.pairwise_cons.mpr ⟨fun entry he => ?_, ih hrest⟩
        cases mem_putEntry he with
        | inl hf => rw [hf]; exact hgt
        | inr hr => exact hfirst entry hr
      · next hngt =>
        refine List.pairwise_cons.mpr ⟨fun entry he => ?_, hrest⟩
        rw [show key = first.1 from key_eq hnlt hngt]
        exact hfirst entry he

namespace Fields

def empty : Fields := ⟨[], List.Pairwise.nil⟩

def insert (fields : Fields) (key value : String) : Fields :=
  ⟨putEntry key value fields.entries, putEntry_ascending key value fields.ascending⟩

def get? (fields : Fields) (key : String) : Option String :=
  fields.entries.lookup key

def isEmpty (fields : Fields) : Bool := fields.entries.isEmpty

def ofList (entries : List (String × String)) : Fields :=
  entries.foldl (fun fields entry => fields.insert entry.1 entry.2) empty

end Fields

end Concordance
