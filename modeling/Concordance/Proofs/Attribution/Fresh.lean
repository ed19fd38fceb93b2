import Mathlib.Data.List.Forall2
import Concordance.Proofs.Attribution.Cases

namespace Concordance

namespace Occurrence

-- Nothing is known yet of the declaration around the line.
def Fresh (o : Occurrence) : Prop := o.enclosing = none ∧ o.kind = ""

instance (o : Occurrence) : Decidable o.Fresh := inferInstanceAs (Decidable (_ ∧ _))

-- What becomes of a fresh occurrence by the table of its file, where the file has one. Its
-- tag, its place and its text always stay.
inductive Attributed (o : Occurrence) : Option (List Declaration) → Occurrence → Prop
  | untabled : Attributed o none o
  | inside {ds : List Declaration} {d : Declaration} (h : Declaration.FirstAround ds o.line d) :
      Attributed o (some ds)
        { o with
          enclosing := some d.name
          kind := d.kind
          relation :=
            if o.relation = .definition ∨ d.name = o.tag then .definition else o.relation }
  | outside {ds : List Declaration} (h : ∀ d ∈ ds, ¬ d.Around o.line) :
      Attributed o (some ds)
        { o with
          enclosing := none
          kind := ""
          relation := if o.relation = .definition then .definition else .other }

theorem Attributed.unique {o a b : Occurrence} {table : Option (List Declaration)}
    (ha : o.Attributed table a) (hb : o.Attributed table b) : a = b := by
  cases ha with
  | untabled =>
    cases hb with
    | untabled => rfl
  | inside hd =>
    cases hb with
    | inside he => rw [hd.unique he]
    | outside hnone =>
      obtain ⟨e, he, haround⟩ := hd.exists_around
      exact absurd haround (hnone e he)
  | outside hnone =>
    cases hb with
    | inside hd =>
      obtain ⟨e, he, haround⟩ := hd.exists_around
      exact absurd haround (hnone e he)
    | outside _ => rfl

theorem assign_attributed (ds : List Declaration) {o : Occurrence} (h : o.Fresh) :
    o.Attributed (some ds) (o.assign ds) := by
  rcases Declaration.firstAround_or_outside ds o.line with ⟨d, hd⟩ | hnone
  · rw [assign_of_firstAround hd]
    exact .inside hd
  · have hout := Attributed.outside hnone
    rw [assign_of_outside hnone]
    simpa [h.1, h.2] using hout

theorem assignIn_attributed (tables : Tables) {o : Occurrence} (h : o.Fresh) :
    o.Attributed (tables.lookup o.filename) (o.assignIn tables) := by
  unfold assignIn
  cases tables.lookup o.filename with
  | none => exact .untabled
  | some ds => exact assign_attributed ds h

end Occurrence

-- Attribution of fresh occurrences gives each its due, one by one and in their order, and
-- nothing else is due to them.
theorem eq_assignAll_iff_attributed (tables : Tables) {os os' : List Occurrence}
    (h : ∀ o ∈ os, o.Fresh) :
    os' = assignAll tables os ↔
      List.Forall₂ (fun o o' => o.Attributed (tables.lookup o.filename) o') os os' := by
  constructor
  · rintro rfl
    rw [assignAll, List.forall₂_map_right_iff, List.forall₂_same]
    intro o ho
    exact Occurrence.assignIn_attributed tables (h o ho)
  · intro hall
    induction hall with
    | nil => rfl
    | @cons o o' os os' ho _ ih =>
      have hfresh := h o List.mem_cons_self
      have hhead := ho.unique (Occurrence.assignIn_attributed tables hfresh)
      have htail := ih fun o ho => h o (List.mem_cons_of_mem _ ho)
      rw [hhead, htail]
      rfl

-- A span that ends before it starts, a structure, and a member inside of it.
def pointTables : Tables :=
  [("point.h",
    [⟨"POINT_H", "point.h", "macro", 5, 2, "#define POINT_H", Fields.empty⟩,
      ⟨"point", "point.h", "struct", 1, 5, "struct point \x7b", Fields.empty⟩,
      ⟨"x", "point.h", "member", 2, 2, "  int x;", Fields.empty⟩])]

def pointOccurrences : List Occurrence :=
  [⟨"x", 2, "point.h", "  int x;", .referencedBy, none, ""⟩,
    ⟨"point", 3, "point.h", "  struct point *next;", .other, none, ""⟩,
    ⟨"x", 9, "point.h", "#define FIRST x", .symbol, none, ""⟩,
    ⟨"x", 2, "main.c", "  p.x = 0;", .referencedBy, none, ""⟩]

theorem pointOccurrences_attributed :
    (∀ o ∈ pointOccurrences, o.Fresh) ∧
      List.Forall₂ (fun o o' => o.Attributed (pointTables.lookup o.filename) o') pointOccurrences
        [⟨"x", 2, "point.h", "  int x;", .referencedBy, some "point", "struct"⟩,
          ⟨"point", 3, "point.h", "  struct point *next;", .definition, some "point", "struct"⟩,
          ⟨"x", 9, "point.h", "#define FIRST x", .other, none, ""⟩,
          ⟨"x", 2, "main.c", "  p.x = 0;", .referencedBy, none, ""⟩] := by
  have hfresh : ∀ o ∈ pointOccurrences, o.Fresh := by decide
  exact ⟨hfresh, (eq_assignAll_iff_attributed pointTables hfresh).mp (by decide)⟩

end Concordance
