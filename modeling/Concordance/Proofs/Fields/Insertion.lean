import Mathlib.Data.List.Nodup
import Concordance.Fields

namespace Concordance

section

variable {key key' value value' : String} {entry : String × String}
  {entries : List (String × String)}

theorem key_cases (key key' : String) : key < key' ∨ key = key' ∨ key' < key := by
  by_cases hlt : key < key'
  · exact Or.inl hlt
  · by_cases hgt : key' < key
    · exact Or.inr (Or.inr hgt)
    · exact Or.inr (Or.inl (String.le_antisymm (String.not_lt.mp hgt) (String.not_lt.mp hlt)))

theorem putEntry_of_lt (h : key < entry.1) :
    putEntry key value (entry :: entries) = (key, value) :: entry :: entries := if_pos h

theorem putEntry_of_eq (h : key = entry.1) :
    putEntry key value (entry :: entries) = (key, value) :: entries := by
  subst h
  rw [putEntry, if_neg (String.lt_irrefl _), if_neg (String.lt_irrefl _)]

theorem putEntry_of_gt (h : entry.1 < key) :
    putEntry key value (entry :: entries) = entry :: putEntry key value entries := by
  rw [putEntry, if_neg (String.lt_asymm h), if_pos h]

theorem putEntry_comm_of_lt (h : key < key') :
    putEntry key' value' (putEntry key value entries) =
      putEntry key value (putEntry key' value' entries) := by
  induction entries with
  | nil =>
    have hbehind : putEntry key' value' [(key, value)] = [(key, value), (key', value')] :=
      putEntry_of_gt h
    exact hbehind.trans (putEntry_of_lt h).symm
  | cons entry entries ih =>
    rcases key_cases key entry.1 with hlt | heq | hgt
    · rw [putEntry_of_lt hlt, putEntry_of_gt h]
      rcases key_cases key' entry.1 with hlt' | heq' | hgt'
      · rw [putEntry_of_lt hlt', putEntry_of_lt h]
      · rw [putEntry_of_eq heq', putEntry_of_lt h]
      · rw [putEntry_of_gt hgt', putEntry_of_lt hlt]
    · have hbehind : entry.1 < key' := heq ▸ h
      rw [putEntry_of_eq heq, putEntry_of_gt h, putEntry_of_gt hbehind, putEntry_of_eq heq]
    · have hbehind : entry.1 < key' := String.lt_trans hgt h
      rw [putEntry_of_gt hgt, putEntry_of_gt hbehind, putEntry_of_gt hbehind,
        putEntry_of_gt hgt, ih]

-- Entries of different keys may be put in either order.
theorem putEntry_comm (h : key ≠ key') :
    putEntry key' value' (putEntry key value entries) =
      putEntry key value (putEntry key' value' entries) := by
  rcases key_cases key key' with hlt | heq | hgt
  · exact putEntry_comm_of_lt hlt
  · exact absurd heq h
  · exact (putEntry_comm_of_lt hgt).symm

theorem putEntry_of_last (h : ∀ entry ∈ entries, entry.1 < key) :
    putEntry key value entries = entries ++ [(key, value)] := by
  induction entries with
  | nil => rfl
  | cons entry entries ih =>
    obtain ⟨hfirst, hrest⟩ := List.forall_mem_cons.mp h
    rw [putEntry_of_gt hfirst, ih hrest, List.cons_append]

end

namespace Fields

theorem ext_entries {fields fields' : Fields} (h : fields.entries = fields'.entries) :
    fields = fields' := by
  cases fields
  cases fields'
  cases h
  rfl

-- The texts in an order that puts each one last come out in this order.
theorem foldl_insert_entries (fields : Fields) {entries : List (String × String)}
    (h : (fields.entries ++ entries).Pairwise fun a b => a.1 < b.1) :
    (entries.foldl (fun fields entry => fields.insert entry.1 entry.2) fields).entries =
      fields.entries ++ entries := by
  induction entries generalizing fields with
  | nil => exact (List.append_nil _).symm
  | cons entry entries ih =>
    obtain ⟨-, -, hbefore⟩ := List.pairwise_append.mp h
    have hlast : (fields.insert entry.1 entry.2).entries = fields.entries ++ [entry] :=
      putEntry_of_last fun other hother => hbefore other hother entry List.mem_cons_self
    have hnext := ih (fields.insert entry.1 entry.2) (by rwa [hlast, ← List.append_cons])
    rw [List.foldl_cons, hnext, hlast, ← List.append_cons]

theorem ofList_entries (fields : Fields) : ofList fields.entries = fields :=
  ext_entries (foldl_insert_entries empty fields.ascending)

theorem eq_of_mem_entries {fields : Fields} {a b : String × String} (ha : a ∈ fields.entries)
    (hb : b ∈ fields.entries) (hkey : a.1 = b.1) : a = b := by
  have hdistinct : (fields.entries.map Prod.fst).Nodup := by
    rw [List.Nodup, List.pairwise_map]
    exact fields.ascending.imp String.ne_of_lt
  exact List.inj_on_of_nodup_map hdistinct ha hb hkey

-- Texts are put together from their entries in any order.
theorem ofList_of_perm {fields : Fields} {entries : List (String × String)}
    (h : entries.Perm fields.entries) : ofList entries = fields := by
  have hcomm : ∀ a ∈ entries, ∀ b ∈ entries, ∀ fs : Fields,
      (fs.insert a.1 a.2).insert b.1 b.2 = (fs.insert b.1 b.2).insert a.1 a.2 := by
    intro a ha b hb fs
    by_cases hkey : a.1 = b.1
    · rw [eq_of_mem_entries (h.mem_iff.mp ha) (h.mem_iff.mp hb) hkey]
    · exact ext_entries (putEntry_comm hkey)
  rw [ofList, h.foldl_eq' hcomm, ← ofList, ofList_entries]

end Fields

end Concordance
