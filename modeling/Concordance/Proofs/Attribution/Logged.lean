import Concordance.Expansion
import Concordance.Proofs.Attribution.Declared
import Concordance.Proofs.Tagging.Log

namespace Concordance

-- The first declaration around an occurrence in what the tagging tool gave for its file.
def TagLog.FirstAround (log : TagLog) (o : Occurrence) (d : Declaration) : Prop :=
  ∃ output, (o.filename, .ok output) ∈ log ∧
    Declaration.FirstAround (Declaration.ofOutput output) o.line d

theorem TagLog.FirstAround.unique {log : TagLog} {o : Occurrence} {d e : Declaration}
    (hdistinct : log.Distinct) (hd : log.FirstAround o d) (he : log.FirstAround o e) : d = e := by
  obtain ⟨output, hlog, hfirst⟩ := hd
  obtain ⟨other, hother, hsecond⟩ := he
  cases hdistinct.eq_of_mem hlog hother
  exact hfirst.unique hsecond

namespace Occurrence

variable {log : TagLog} {ds : List Declaration} {d : Declaration} {o : Occurrence}

theorem label_of_fresh (h : o.Fresh) : o.label = o.tag := by
  unfold label
  rw [h.1]

theorem label_assign_iff (hfresh : o.Fresh) :
    (o.assign ds).label = o.tag ↔
      ∀ d, Declaration.FirstAround ds o.line d →
        d.name = o.tag ∨ d.kind = "enum" ∨ d.kind = "struct" := by
  rcases Declaration.firstAround_or_outside ds o.line with ⟨d, hd⟩ | hnone
  · have hlabel : (o.assign ds).label =
        if d.kind = "enum" ∨ d.kind = "struct" then o.tag else d.name := by
      rw [assign_of_firstAround hd, label]
      simp only [Bool.or_eq_true, decide_eq_true_eq]
    rw [hlabel]
    constructor
    · intro htag e he
      rw [← hd.unique he]
      by_cases hkind : d.kind = "enum" ∨ d.kind = "struct"
      · exact Or.inr hkind
      · rw [if_neg hkind] at htag
        exact Or.inl htag
    · intro hall
      by_cases hkind : d.kind = "enum" ∨ d.kind = "struct"
      · rw [if_pos hkind]
      · rw [if_neg hkind]
        exact (hall d hd).resolve_right hkind
  · have hlabel : (o.assign ds).label = o.tag := by
      rw [assign_of_outside hnone, label, hfresh.1]
    refine ⟨fun _ d hd => ?_, fun _ => hlabel⟩
    obtain ⟨e, he, haround⟩ := hd.exists_around
    exact absurd haround (hnone e he)

theorem relation_assignIn_of_definition (tables : Tables) (h : o.relation = .definition) :
    (o.assignIn tables).relation = .definition := by
  unfold assignIn
  cases tables.lookup o.filename with
  | none => exact h
  | some ds => exact relation_assign_of_definition ds h

-- Only what is said of the declaration around an occurrence changes.
theorem exists_assignIn_eq (tables : Tables) (o : Occurrence) :
    ∃ relation enclosing kind,
      o.assignIn tables = { o with relation := relation, enclosing := enclosing, kind := kind } := by
  unfold assignIn
  cases tables.lookup o.filename with
  | none => exact ⟨_, _, _, rfl⟩
  | some ds =>
    rcases Declaration.firstAround_or_outside ds o.line with ⟨d, hd⟩ | hnone
    · exact ⟨_, _, _, assign_of_firstAround hd⟩
    · exact ⟨_, _, _, assign_of_outside hnone⟩

-- An occurrence is looked up in what the tagging tool gave for its file, if it gave anything.
theorem assignIn_cache (hdistinct : log.Distinct) (hfile : o.filename ∈ log.map Prod.fst) :
    (∃ ds, o.assignIn log.cache.tables = o.assign ds ∧
      ∀ d, log.FirstAround o d ↔ Declaration.FirstAround ds o.line d) ∨
    (o.assignIn log.cache.tables = o ∧ ∀ d, ¬ log.FirstAround o d) := by
  obtain ⟨⟨filename, reply⟩, hlog, hname⟩ := List.mem_map.mp hfile
  cases hname
  rw [TagLog.assignIn_cache_of_mem hdistinct hlog]
  cases reply with
  | ok output =>
    refine Or.inl ⟨Declaration.ofOutput output, rfl, fun d => ⟨?_, fun hd => ⟨output, hlog, hd⟩⟩⟩
    rintro ⟨other, hother, hd⟩
    cases hdistinct.eq_of_mem hlog hother
    exact hd
  | error failure =>
    refine Or.inr ⟨rfl, ?_⟩
    rintro d ⟨other, hother, -⟩
    cases hdistinct.eq_of_mem hlog hother

theorem label_assignIn_iff (hdistinct : log.Distinct) (hfile : o.filename ∈ log.map Prod.fst)
    (hfresh : o.Fresh) :
    (o.assignIn log.cache.tables).label = o.tag ↔
      ∀ d, log.FirstAround o d → d.name = o.tag ∨ d.kind = "enum" ∨ d.kind = "struct" := by
  rcases assignIn_cache hdistinct hfile with ⟨ds, hassign, hfirst⟩ | ⟨hassign, hnone⟩
  · rw [hassign, label_assign_iff hfresh]
    simp only [hfirst]
  · rw [hassign]
    exact ⟨fun _ d hd => absurd hd (hnone d), fun _ => label_of_fresh hfresh⟩

theorem label_assignIn_of_name (hdistinct : log.Distinct)
    (hfile : o.filename ∈ log.map Prod.fst) (hfresh : o.Fresh) (hd : log.FirstAround o d)
    (hname : d.name = o.tag) : (o.assignIn log.cache.tables).label = o.tag := by
  rw [label_assignIn_iff hdistinct hfile hfresh]
  intro e he
  rw [← hd.unique hdistinct he]
  exact Or.inl hname

theorem relation_assignIn_iff (hdistinct : log.Distinct) (hfile : o.filename ∈ log.map Prod.fst)
    (hfresh : o.Fresh) (huse : o.relation ≠ .definition) :
    (o.assignIn log.cache.tables).relation = .definition ↔
      ∃ d, log.FirstAround o d ∧ d.name = o.tag := by
  rcases assignIn_cache hdistinct hfile with ⟨ds, hassign, hfirst⟩ | ⟨hassign, hnone⟩
  · rw [hassign, assign_definition_iff ds hfresh huse]
    simp only [hfirst]
  · rw [hassign]
    exact ⟨fun hdefinition => absurd hdefinition huse, fun ⟨d, hd, _⟩ => absurd hd (hnone d)⟩

end Occurrence

end Concordance
