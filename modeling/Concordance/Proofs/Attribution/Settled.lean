import Concordance.Proofs.Attribution.Cases

namespace Concordance

namespace Occurrence

-- The table of its file, where the file has one, has nothing more to say of an occurrence,
-- whatever was known of it before.
inductive Settled (o : Occurrence) : Option (List Declaration) → Prop
  | untabled : Settled o none
  | inside {ds : List Declaration} {d : Declaration} (h : Declaration.FirstAround ds o.line d)
      (henclosing : o.enclosing = some d.name) (hkind : o.kind = d.kind)
      (hname : d.name = o.tag → o.relation = .definition) : Settled o (some ds)
  | outside {ds : List Declaration} (h : ∀ d ∈ ds, ¬ d.Around o.line)
      (hrelation : o.relation = .definition ∨
        o.enclosing ≠ some o.tag ∧ o.relation = .other) : Settled o (some ds)

theorem assign_settled (ds : List Declaration) (o : Occurrence) :
    (o.assign ds).Settled (some ds) := by
  rcases Declaration.firstAround_or_outside ds o.line with ⟨d, h⟩ | h
  · rw [assign_of_firstAround h]
    exact .inside h rfl rfl fun hname => if_pos (Or.inr hname)
  · rw [assign_of_outside h]
    refine .outside h ?_
    by_cases hdef : o.relation = .definition ∨ o.enclosing = some o.tag
    · exact Or.inl (if_pos hdef)
    · exact Or.inr ⟨fun hname => hdef (Or.inr hname), if_neg hdef⟩

theorem assign_of_settled {ds : List Declaration} {o : Occurrence} (h : o.Settled (some ds)) :
    o.assign ds = o := by
  obtain ⟨tag, line, filename, content, relation, enclosing, kind⟩ := o
  cases h with
  | inside h henclosing hkind hname =>
    rw [assign_of_firstAround h]
    dsimp only at henclosing hkind hname ⊢
    rw [← henclosing, ← hkind]
    split
    · rename_i hdef
      rw [hdef.elim id hname]
    · rfl
  | outside h hrelation =>
    rw [assign_of_outside h]
    dsimp only at hrelation ⊢
    rcases hrelation with hdef | ⟨hname, hother⟩
    · rw [if_pos (Or.inl hdef), hdef]
    · rw [if_neg, hother]
      rintro (hdef | htag)
      · exact Relation.noConfusion (hother.symm.trans hdef)
      · exact hname htag

theorem assignIn_filename (tables : Tables) (o : Occurrence) :
    (o.assignIn tables).filename = o.filename := by
  unfold assignIn
  cases tables.lookup o.filename with
  | none => rfl
  | some ds => exact assign_filename ds o

theorem assignIn_settled (tables : Tables) (o : Occurrence) :
    (o.assignIn tables).Settled (tables.lookup o.filename) := by
  unfold assignIn
  cases tables.lookup o.filename with
  | none => exact .untabled
  | some ds => exact assign_settled ds o

theorem assignIn_of_settled {tables : Tables} {o : Occurrence}
    (h : o.Settled (tables.lookup o.filename)) : o.assignIn tables = o := by
  unfold assignIn
  cases htable : tables.lookup o.filename with
  | none => rfl
  | some ds => exact assign_of_settled (htable ▸ h)

end Occurrence

theorem assignAll_settled (tables : Tables) (os : List Occurrence) :
    ∀ o ∈ assignAll tables os, o.Settled (tables.lookup o.filename) := by
  intro o' ho'
  obtain ⟨o, -, rfl⟩ := List.mem_map.mp ho'
  rw [Occurrence.assignIn_filename]
  exact Occurrence.assignIn_settled tables o

theorem assignAll_of_settled {tables : Tables} {os : List Occurrence}
    (h : ∀ o ∈ os, o.Settled (tables.lookup o.filename)) : assignAll tables os = os := by
  have hmap := List.map_congr_left fun o ho => Occurrence.assignIn_of_settled (h o ho)
  exact hmap.trans (List.map_id _)

-- One pass settles every occurrence, whatever an earlier one left in it, and so a second
-- pass by the same tables changes nothing.
theorem assignAll_idempotent (tables : Tables) (os : List Occurrence) :
    (∀ o ∈ assignAll tables os, o.Settled (tables.lookup o.filename)) ∧
      assignAll tables (assignAll tables os) = assignAll tables os := by
  have hsettled := assignAll_settled tables os
  exact ⟨hsettled, assignAll_of_settled hsettled⟩

end Concordance
