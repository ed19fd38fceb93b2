import Concordance.Proofs.Attribution.Fresh

namespace Concordance

-- A declaration declares its name on the line on which it starts.
def Declaration.Declares (d : Declaration) (o : Occurrence) : Prop :=
  d.name = o.tag ∧ d.startLine = o.line

namespace Occurrence

-- A use would become a definition only on a line that declares its tag, and further down in a
-- declaration of that name, as in a recursive call, it would stay a use.
structure DeclaredOnly (ds : List Declaration) (o : Occurrence) : Prop where
  declared : (o.assign ds).relation = .definition → ∃ d ∈ ds, d.Declares o
  kept : ∀ d ∈ ds, d.name = o.tag → d.startLine < o.line → o.line ≤ d.endLine →
    (∀ e ∈ ds, ¬ e.Declares o) → (o.assign ds).relation = o.relation

variable {ds : List Declaration} {d : Declaration} {o : Occurrence}

theorem relation_assign_of_firstAround (huse : o.relation ≠ .definition)
    (h : Declaration.FirstAround ds o.line d) :
    (o.assign ds).relation = if d.name = o.tag then .definition else o.relation := by
  rw [assign_of_firstAround h]
  simp only [huse, false_or]

theorem relation_assign_of_outside (hfresh : o.Fresh) (huse : o.relation ≠ .definition)
    (h : ∀ d ∈ ds, ¬ d.Around o.line) : (o.assign ds).relation = .other := by
  have hnone : o.enclosing ≠ some o.tag := by simp [hfresh.1]
  rw [assign_of_outside h]
  simp only [huse, hnone, or_self, if_false]

theorem assign_definition_iff (ds : List Declaration) (hfresh : o.Fresh)
    (huse : o.relation ≠ .definition) :
    (o.assign ds).relation = .definition ↔
      ∃ d, Declaration.FirstAround ds o.line d ∧ d.name = o.tag := by
  rcases Declaration.firstAround_or_outside ds o.line with ⟨d, hd⟩ | hnone
  · rw [relation_assign_of_firstAround huse hd]
    constructor
    · intro hdefinition
      by_cases hname : d.name = o.tag
      · exact ⟨d, hd, hname⟩
      · rw [if_neg hname] at hdefinition
        exact absurd hdefinition huse
    · rintro ⟨e, he, hname⟩
      rw [hd.unique he, if_pos hname]
  · rw [relation_assign_of_outside hfresh huse hnone]
    constructor
    · intro hother
      cases hother
    · rintro ⟨d, hd, -⟩
      obtain ⟨e, he, haround⟩ := hd.exists_around
      exact absurd haround (hnone e he)

-- The first declaration around a use decides what becomes of it, by its name alone: it makes a
-- definition of each use of that name, wherever in its span this is and so also of a recursive
-- call, and leaves all others as they are. A use outside of every declaration is one of none.
theorem promoted_iff (ds : List Declaration) {o : Occurrence} (hfresh : o.Fresh)
    (huse : o.relation ≠ .definition) :
    ((o.assign ds).relation = .definition ↔
        ∃ d, Declaration.FirstAround ds o.line d ∧ d.name = o.tag) ∧
      (∀ d, Declaration.FirstAround ds o.line d → d.name ≠ o.tag →
        (o.assign ds).relation = o.relation) ∧
      ((∀ d ∈ ds, ¬ d.Around o.line) → (o.assign ds).relation = .other) ∧
      (o.DeclaredOnly ds ↔
        ∀ d, Declaration.FirstAround ds o.line d → d.name = o.tag → ∃ e ∈ ds, e.Declares o) := by
  have hpromoted := assign_definition_iff ds hfresh huse
  have hkept : ∀ d, Declaration.FirstAround ds o.line d → d.name ≠ o.tag →
      (o.assign ds).relation = o.relation := by
    intro d hd hname
    rw [relation_assign_of_firstAround huse hd, if_neg hname]
  refine ⟨hpromoted, hkept, relation_assign_of_outside hfresh huse,
    fun h d hd hname => h.declared (hpromoted.mpr ⟨d, hd, hname⟩), fun h => ?_⟩
  constructor
  · intro hdefinition
    obtain ⟨d, hd, hname⟩ := hpromoted.mp hdefinition
    exact h d hd hname
  · intro d hmem hname hstart hend hundeclared
    rcases Declaration.firstAround_or_outside ds o.line with ⟨e, he⟩ | hnone
    · refine hkept e he fun htag => ?_
      obtain ⟨f, hf, hdeclares⟩ := h e he htag
      exact hundeclared f hf hdeclares
    · exact absurd ⟨UInt32.le_of_lt hstart, hend⟩ (hnone d hmem)

def factorial : Declaration :=
  ⟨"fact", "fact.c", "function", 1, 4, "int fact(int n) \x7b", Fields.empty⟩

def recursiveCall : Occurrence :=
  ⟨"fact", 3, "fact.c", "  return n * fact(n - 1);", .referencedBy, none, ""⟩

theorem promoted_iff_recursiveCall :
    (recursiveCall.Fresh ∧ recursiveCall.relation ≠ .definition) ∧
      (recursiveCall.assign [factorial]).relation = .definition ∧
        ¬ recursiveCall.DeclaredOnly [factorial] := by
  have hfresh : recursiveCall.Fresh := by decide
  have huse : recursiveCall.relation ≠ .definition := by decide
  have hfirst : Declaration.FirstAround [factorial] recursiveCall.line factorial :=
    Declaration.enclosing?_eq_some_iff.mp rfl
  obtain ⟨hpromoted, -, -, honly⟩ := promoted_iff [factorial] hfresh huse
  refine ⟨⟨hfresh, huse⟩, hpromoted.mpr ⟨factorial, hfirst, rfl⟩, fun h => ?_⟩
  obtain ⟨e, he, -, hline⟩ := honly.mp h factorial hfirst rfl
  cases List.mem_singleton.mp he
  revert hline
  decide

-- A recursive call becomes a definition.
theorem recursiveCall_not_declaredOnly :
    ¬ ∀ (ds : List Declaration) (o : Occurrence),
      o.Fresh → o.relation ≠ .definition → o.DeclaredOnly ds := by
  intro h
  have hcall := h [factorial] recursiveCall (by decide) (by decide)
  obtain ⟨d, hd, -, hline⟩ := hcall.declared (by decide)
  cases List.mem_singleton.mp hd
  revert hline
  decide

end Occurrence

end Concordance
