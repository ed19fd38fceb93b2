import Concordance.Json.Encoding
import Concordance.Proofs.Text.Number

namespace Concordance

namespace Json

theorem word_inj {n n' : UInt32} : word n = word n' ↔ n = n' := by
  rw [← Text.toDigits_line_inj]
  simp only [word, nat, number.injEq, Nat.toString_eq_repr, Nat.toList_repr]

theorem text_map_inj {s s' : Option String} : s.map text = s'.map text ↔ s = s' :=
  Option.map_inj_right fun _ _ => text.inj

@[simp] theorem mem_optional {name name' : String} {value : Option Json} {json : Json} :
    (name', json) ∈ optional name value ↔ name' = name ∧ value = some json := by
  cases value <;> simp [optional, eq_comm]

-- A member that may be left out can be told by its name from those that follow it.
theorem optional_append_inj {name : String} {value value' : Option Json}
    {rest rest' : List (String × Json)} (h : ∀ json, (name, json) ∉ rest)
    (h' : ∀ json, (name, json) ∉ rest') :
    optional name value ++ rest = optional name value' ++ rest' ↔
      value = value' ∧ rest = rest' := by
  have hhead {json : Json} {before after : List (String × Json)}
      (hbefore : ∀ json, (name, json) ∉ before) : before ≠ (name, json) :: after := by
    rintro rfl
    exact hbefore json List.mem_cons_self
  cases value with
  | none =>
    cases value' with
    | none => simp [optional]
    | some json => simpa [optional] using hhead h
  | some json =>
    cases value' with
    | none => simpa [optional] using (hhead h').symm
    | some json' => simp [optional]

end Json

theorem Position.json_inj {p p' : Position} : p.json = p'.json ↔ p = p' := by
  cases p
  cases p'
  simp [json, Json.word_inj]

theorem TextRange.json_inj {r r' : TextRange} : r.json = r'.json ↔ r = r' := by
  cases r
  cases r'
  simp [json, Position.json_inj]

theorem Location.json_inj {l l' : Location} : l.json = l'.json ↔ l = l' := by
  cases l
  cases l'
  simp [json, TextRange.json_inj]

theorem Location.map_json_inj {l l' : Option Location} : l.map json = l'.map json ↔ l = l' :=
  Option.map_inj_right fun _ _ => json_inj.mp

theorem Collapsible.text_inj {c c' : Collapsible} : c.text = c'.text ↔ c = c' := by
  cases c <;> cases c' <;> decide

namespace Branch

-- The children of a branch as the value of its last member, which is left out when there are none.
def childrenJson? (children : List Branch) : Option Json :=
  if children.isEmpty then none else some (.array (jsonOfAll children))

theorem json_eq (item : Item) (children : List Branch) :
    (mk item children).json =
      .object (item.members ++ Json.optional "children" (childrenJson? children)) := by
  cases children with
  | nil => simp [json, childrenJson?, Json.optional]
  | cons child others => rfl

theorem jsonOfAll_eq_of_childrenJson? {children children' : List Branch}
    (h : childrenJson? children = childrenJson? children') :
    jsonOfAll children = jsonOfAll children' := by
  cases children with
  | nil =>
    cases children' with
    | nil => rfl
    | cons child others => cases h
  | cons child others =>
    cases children' with
    | nil => cases h
    | cons child' others' => exact Json.array.inj (Option.some.inj h)

-- Members are read off one after another. None of those that may be left out goes by the name of
-- one that follows it.
theorem members_append_inj {item item' : Item} {value value' : Option Json} :
    item.members ++ Json.optional "children" value =
        item'.members ++ Json.optional "children" value' ↔
      item = item' ∧ value = value' := by
  refine ⟨fun h => ?_, fun ⟨hitem, hvalue⟩ => by rw [hitem, hvalue]⟩
  cases item
  cases item'
  simp only [Item.members, List.append_assoc, List.cons_append, List.nil_append] at h
  obtain ⟨hlabel, h⟩ := List.cons.inj h
  obtain ⟨hdescription, h⟩ := (Json.optional_append_inj (by simp) (by simp)).mp h
  obtain ⟨htooltip, h⟩ := (Json.optional_append_inj (by simp) (by simp)).mp h
  simp only [List.cons.injEq] at h
  obtain ⟨hcollapsible, hremovable, hicon, hcolor, h⟩ := h
  obtain ⟨hcommand, h⟩ := (Json.optional_append_inj (by simp) (by simp)).mp h
  have hvalue : value = value' := by
    rw [← List.append_nil (Json.optional _ value), ← List.append_nil (Json.optional _ value')] at h
    exact ((Json.optional_append_inj (by simp) (by simp)).mp h).1
  refine ⟨?_, hvalue⟩
  rw [Json.text_map_inj] at hdescription htooltip
  rw [Location.map_json_inj] at hcommand
  simp only [Prod.mk.injEq, Json.text.injEq, Json.bool.injEq, Collapsible.text_inj, true_and]
    at hlabel hcollapsible hremovable hicon hcolor
  rw [Item.mk.injEq]
  exact ⟨hlabel, hdescription, htooltip, hcollapsible, hremovable, hicon, hcolor, hcommand⟩

mutual

theorem eq_of_json_eq {b b' : Branch} (h : b.json = b'.json) : b = b' := by
  obtain ⟨item, children⟩ := b
  obtain ⟨item', children'⟩ := b'
  rw [json_eq, json_eq, Json.object.injEq, members_append_inj] at h
  obtain ⟨rfl, hchildren⟩ := h
  rw [eq_of_jsonOfAll_eq (jsonOfAll_eq_of_childrenJson? hchildren)]

theorem eq_of_jsonOfAll_eq {bs bs' : List Branch} (h : jsonOfAll bs = jsonOfAll bs') :
    bs = bs' := by
  match bs, bs' with
  | [], [] => rfl
  | [], b' :: bs' => cases h
  | b :: bs, [] => cases h
  | b :: bs, b' :: bs' =>
    obtain ⟨hfirst, hothers⟩ := List.cons.inj h
    rw [eq_of_json_eq hfirst, eq_of_jsonOfAll_eq hothers]

end

end Branch

end Concordance
