import Concordance.Proofs.Attribution.Cases

namespace Concordance

namespace Declaration

variable {ds ds' : List Declaration} {line : UInt32} {d : Declaration}

-- All declarations around a line have one name and one kind.
def Agree (ds : List Declaration) (line : UInt32) : Prop :=
  ∀ d ∈ ds, ∀ e ∈ ds, d.Around line → e.Around line → d.name = e.name ∧ d.kind = e.kind

-- A table with more declarations in it, anywhere, none of which is around the line.
inductive Padded (line : UInt32) : List Declaration → List Declaration → Prop
  | nil : Padded line [] []
  | kept (d : Declaration) {ds ds' : List Declaration} (rest : Padded line ds ds') :
      Padded line (d :: ds) (d :: ds')
  | added {d : Declaration} {ds ds' : List Declaration} (hd : ¬ d.Around line)
      (rest : Padded line ds ds') : Padded line ds (d :: ds')

theorem agree_of_countP_le_one (h : ds.countP (fun d => d.contains line) ≤ 1) : Agree ds line := by
  intro d hd e he hdline heline
  have hmem {x : Declaration} (hx : x ∈ ds) (hline : x.Around line) :
      x ∈ ds.filter fun d => d.contains line :=
    List.mem_filter.mpr ⟨hx, contains_iff.mpr hline⟩
  have hd' := hmem hd hdline
  have he' := hmem he heline
  rw [List.countP_eq_length_filter] at h
  generalize ds.filter (fun d => d.contains line) = around at h hd' he'
  rcases around with _ | ⟨x, _ | ⟨y, rest⟩⟩
  · exact absurd hd' List.not_mem_nil
  · rw [List.mem_singleton] at hd' he'
    rw [hd', he']
    exact ⟨rfl, rfl⟩
  · simp at h

theorem enclosing?_of_padded (h : Padded line ds ds') :
    enclosing? ds' line = enclosing? ds line := by
  induction h with
  | nil => rfl
  | kept d rest ih =>
    unfold enclosing? at ih ⊢
    rw [List.find?_cons, List.find?_cons, ih]
  | added hd rest ih =>
    unfold enclosing? at ih ⊢
    rw [← ih]
    exact List.find?_cons_of_neg (mt contains_iff.mp hd)

theorem firstAround_cons (h : d.Around line) (ds : List Declaration) :
    FirstAround (d :: ds) line d :=
  ⟨[], ds, rfl, h, fun _ he => absurd he List.not_mem_nil⟩

end Declaration

namespace Occurrence

variable {ds ds' : List Declaration} {o : Occurrence}

theorem assign_of_perm (hperm : ds'.Perm ds) (h : Declaration.Agree ds o.line) :
    o.assign ds' = o.assign ds := by
  rcases Declaration.firstAround_or_outside ds o.line with ⟨d, hd⟩ | hnone
  · rcases Declaration.firstAround_or_outside ds' o.line with ⟨e, he⟩ | hnone'
    · obtain ⟨hname, hkind⟩ :=
        h e (hperm.mem_iff.mp he.mem) d hd.mem he.around hd.around
      rw [assign_of_firstAround hd, assign_of_firstAround he, hname, hkind]
    · exact absurd hd.around (hnone' d (hperm.mem_iff.mpr hd.mem))
  · have hnone' : ∀ e ∈ ds', ¬ e.Around o.line := fun e he => hnone e (hperm.mem_iff.mp he)
    rw [assign_of_outside hnone, assign_of_outside hnone']

-- Any declaration around the line can come first, and then it gives its name and its kind.
theorem agree_of_assign_perm (h : ∀ ds', ds'.Perm ds → o.assign ds' = o.assign ds) :
    Declaration.Agree ds o.line := by
  have hgiven {x : Declaration} (hx : x ∈ ds) (hline : x.Around o.line) :
      (o.assign ds).enclosing = some x.name ∧ (o.assign ds).kind = x.kind := by
    have hperm := (List.perm_cons_erase hx).symm
    rw [← h _ hperm, assign_of_firstAround (Declaration.firstAround_cons hline _)]
    exact ⟨rfl, rfl⟩
  intro d hd e he hdline heline
  obtain ⟨hdname, hdkind⟩ := hgiven hd hdline
  obtain ⟨hename, hekind⟩ := hgiven he heline
  exact ⟨Option.some.inj (hdname.symm.trans hename), hdkind.symm.trans hekind⟩

theorem assign_of_padded (h : Declaration.Padded o.line ds ds') : o.assign ds' = o.assign ds := by
  unfold assign
  rw [Declaration.enclosing?_of_padded h]

-- The order of a table shows in an occurrence exactly where declarations around its line differ
-- in name or kind, and never where there is at most one. Declarations elsewhere do not show at
-- all.
theorem assign_order (ds : List Declaration) (o : Occurrence) :
    ((∀ ds', ds'.Perm ds → o.assign ds' = o.assign ds) ↔ Declaration.Agree ds o.line) ∧
      (ds.countP (fun d => d.contains o.line) ≤ 1 → Declaration.Agree ds o.line) ∧
      ∀ ds', Declaration.Padded o.line ds ds' → o.assign ds' = o.assign ds :=
  ⟨⟨agree_of_assign_perm, fun h _ hperm => assign_of_perm hperm h⟩,
    Declaration.agree_of_countP_le_one, fun _ => assign_of_padded⟩

-- A function with a macro in it. The line below the macro is in the function only.
def area : Declaration := ⟨"area", "area.c", "function", 10, 13, "int area(int r)", Fields.empty⟩

def pi : Declaration := ⟨"PI", "area.c", "macro", 11, 11, "#define PI 3", Fields.empty⟩

def useOfPi : Occurrence := ⟨"PI", 12, "area.c", "  return PI * r * r;", .referencedBy, none, ""⟩

theorem assign_order_localMacro :
    [pi, area].Perm [area, pi] ∧
      [area, pi].countP (fun d => d.contains useOfPi.line) ≤ 1 ∧
      useOfPi.assign [pi, area] = useOfPi.assign [area, pi] ∧
      Declaration.Padded useOfPi.line [area] [area, pi] ∧
      useOfPi.assign [area, pi] = useOfPi.assign [area] ∧
      ¬ Declaration.Agree [area, pi] 11 := by
  have hperm : [pi, area].Perm [area, pi] := List.Perm.swap area pi []
  have hcount : [area, pi].countP (fun d => d.contains useOfPi.line) ≤ 1 := by decide
  have hpadded : Declaration.Padded useOfPi.line [area] [area, pi] :=
    .kept area (.added (by decide) .nil)
  obtain ⟨hiff, hagree, -⟩ := assign_order [area, pi] useOfPi
  obtain ⟨-, -, hpad⟩ := assign_order [area] useOfPi
  refine ⟨hperm, hcount, hiff.mpr (hagree hcount) _ hperm, hpadded, hpad _ hpadded, fun h => ?_⟩
  have hname := (h area (by simp) pi (by simp) (by decide) (by decide)).1
  exact absurd hname (by decide)

end Occurrence

end Concordance
