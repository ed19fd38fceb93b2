import Concordance.Attribution

namespace Concordance

namespace Declaration

variable {ds : List Declaration} {line : UInt32} {d e : Declaration}

-- The lines of a span lie between its ends, so that one that ends before it starts has none.
def Around (d : Declaration) (line : UInt32) : Prop := d.startLine ≤ line ∧ line ≤ d.endLine

instance (d : Declaration) (line : UInt32) : Decidable (d.Around line) :=
  inferInstanceAs (Decidable (_ ∧ _))

-- Of the declarations around a line, the one that the tagging tool gave first.
def FirstAround (ds : List Declaration) (line : UInt32) (d : Declaration) : Prop :=
  ∃ before after, ds = before ++ d :: after ∧ d.Around line ∧ ∀ e ∈ before, ¬ e.Around line

theorem contains_iff : d.contains line = true ↔ d.Around line := by
  simp [contains, Around]

theorem enclosing?_eq_some_iff : enclosing? ds line = some d ↔ FirstAround ds line d := by
  unfold enclosing? FirstAround
  rw [List.find?_eq_some_iff_append, contains_iff]
  constructor
  · rintro ⟨haround, before, after, hds, hbefore⟩
    refine ⟨before, after, hds, haround, fun e he hline => ?_⟩
    have hnot := hbefore e he
    rw [contains_iff.mpr hline] at hnot
    exact Bool.false_ne_true hnot
  · rintro ⟨before, after, hds, haround, hbefore⟩
    refine ⟨haround, before, after, hds, fun e he => ?_⟩
    rw [Bool.not_eq_true', ← Bool.not_eq_true, contains_iff]
    exact hbefore e he

theorem enclosing?_eq_none_iff : enclosing? ds line = none ↔ ∀ d ∈ ds, ¬ d.Around line := by
  simp only [enclosing?, List.find?_eq_none, contains_iff]

theorem FirstAround.unique (hd : FirstAround ds line d) (he : FirstAround ds line e) : d = e := by
  rw [← enclosing?_eq_some_iff] at hd he
  exact Option.some.inj (hd.symm.trans he)

theorem FirstAround.mem (h : FirstAround ds line d) : d ∈ ds := by
  obtain ⟨before, after, rfl, -, -⟩ := h
  exact List.mem_append_right before List.mem_cons_self

theorem FirstAround.around (h : FirstAround ds line d) : d.Around line := by
  obtain ⟨before, after, -, haround, -⟩ := h
  exact haround

theorem FirstAround.exists_around (h : FirstAround ds line d) : ∃ e ∈ ds, e.Around line :=
  ⟨d, h.mem, h.around⟩

-- Either a line has a first declaration around it or there is none at all.
theorem firstAround_or_outside (ds : List Declaration) (line : UInt32) :
    (∃ d, FirstAround ds line d) ∨ ∀ d ∈ ds, ¬ d.Around line := by
  cases h : enclosing? ds line with
  | some d => exact Or.inl ⟨d, enclosing?_eq_some_iff.mp h⟩
  | none => exact Or.inr (enclosing?_eq_none_iff.mp h)

end Declaration

namespace Occurrence

variable {ds : List Declaration} {d : Declaration} {o : Occurrence}

theorem assign_of_firstAround (h : Declaration.FirstAround ds o.line d) :
    o.assign ds =
      { o with
        enclosing := some d.name
        kind := d.kind
        relation :=
          if o.relation = .definition ∨ d.name = o.tag then .definition else o.relation } := by
  unfold assign reclassify
  rw [Declaration.enclosing?_eq_some_iff.mpr h]
  by_cases hdef : o.relation = .definition
  · simp [hdef]
  · by_cases hname : d.name = o.tag
    · simp [hdef, hname]
    · simp [hdef, hname]

-- An enclosing name that was there before still counts: it is not taken away.
theorem assign_of_outside (h : ∀ d ∈ ds, ¬ d.Around o.line) :
    o.assign ds =
      { o with
        relation :=
          if o.relation = .definition ∨ o.enclosing = some o.tag then .definition else .other } := by
  unfold assign reclassify
  rw [Declaration.enclosing?_eq_none_iff.mpr h]
  by_cases hdef : o.relation = .definition
  · simp [← hdef]
  · by_cases hname : o.enclosing = some o.tag
    · simp [hdef, hname]
    · simp [hdef, hname]

theorem assign_filename (ds : List Declaration) (o : Occurrence) :
    (o.assign ds).filename = o.filename := by
  rcases Declaration.firstAround_or_outside ds o.line with ⟨d, h⟩ | h
  · rw [assign_of_firstAround h]
  · rw [assign_of_outside h]

theorem relation_assign_of_definition (ds : List Declaration) (h : o.relation = .definition) :
    (o.assign ds).relation = .definition := by
  rcases Declaration.firstAround_or_outside ds o.line with ⟨d, hd⟩ | hnone
  · rw [assign_of_firstAround hd]
    exact if_pos (Or.inl h)
  · rw [assign_of_outside hnone]
    exact if_pos (Or.inl h)

end Occurrence

end Concordance
