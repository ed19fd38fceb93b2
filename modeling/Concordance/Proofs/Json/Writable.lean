import Concordance.Proofs.Branch.Rows
import Concordance.Proofs.Path.Text

namespace Concordance

namespace Json

theorem writable_array_iff {items : List Json} :
    (array items).writable = true ↔ ∀ item ∈ items, item.writable = true := by
  rw [writable]
  induction items with
  | nil => simp [allWritable]
  | cons item items ih => simp [allWritable, ih]

theorem writable_object_iff {members : List (String × Json)} :
    (object members).writable = true ↔ ∀ member ∈ members, member.2.writable = true := by
  rw [writable]
  induction members with
  | nil => simp [allMembersWritable]
  | cons member members ih => simp [allMembersWritable, ih]

theorem writable_optional_iff {name : String} {value : Option Json} :
    (∀ member ∈ optional name value, member.2.writable = true) ↔
      ∀ json, value = some json → json.writable = true := by
  cases value <;> simp [optional]

theorem writable_texts (texts : List String) : (array (texts.map text)).writable = true := by
  rw [writable_array_iff]
  intro item hitem
  obtain ⟨s, -, rfl⟩ := List.mem_map.mp hitem
  rfl

end Json

theorem Occurrence.writable_json (o : Occurrence) : o.json.writable = true := by
  obtain ⟨tag, line, filename, content, relation, enclosing, kind⟩ := o
  cases enclosing <;> rfl

theorem OutlineEntry.writable_json (e : OutlineEntry) : e.json.writable = true := by
  obtain ⟨name, detail, category, kind, range⟩ := e
  cases category <;> rfl

theorem Finding.writable_json (f : Finding) : f.json.writable = true := rfl

theorem Position.writable_json (p : Position) : p.json.writable = true := rfl

theorem TextRange.writable_json (r : TextRange) : r.json.writable = true := rfl

theorem Category.writable_json (c : Category) : c.json.writable = true := rfl

theorem Location.writable_json_iff {l : Location} : l.json.writable = true ↔ l.path.IsText := by
  rw [json, Json.writable_object_iff]
  simp [Json.writable, Path.isSome_text?_iff, l.range.writable_json]

theorem SymbolHit.writable_json_iff {hit : SymbolHit} :
    hit.json.writable = true ↔ hit.path.IsText := by
  rw [json, Json.writable_object_iff]
  simp only [List.forall_mem_append, Json.writable_optional_iff]
  simp [Json.writable, Path.isSome_text?_iff, hit.position.writable_json, Category.writable_json]

-- What opening a row shows has a path that is a text, if it shows anything.
def Item.OpensText (item : Item) : Prop := ∀ l, item.command = some l → l.path.IsText

theorem Item.writable_members_iff {item : Item} :
    (∀ member ∈ item.members, member.2.writable = true) ↔ item.OpensText := by
  simp only [members, List.forall_mem_append, Json.writable_optional_iff]
  simp [Json.writable, Location.writable_json_iff, OpensText]

namespace Branch

theorem writable_childrenJson?_iff {children : List Branch} :
    (∀ json, childrenJson? children = some json → json.writable = true) ↔
      ∀ json ∈ jsonOfAll children, json.writable = true := by
  cases children with
  | nil => simp [childrenJson?, jsonOfAll]
  | cons child others => simp [childrenJson?, Json.writable_array_iff]

mutual

theorem writable_json_iff (b : Branch) :
    b.json.writable = true ↔ ∀ item ∈ b.items, item.OpensText := by
  obtain ⟨item, children⟩ := b
  rw [json_eq, Json.writable_object_iff, List.forall_mem_append, Item.writable_members_iff,
    Json.writable_optional_iff, writable_childrenJson?_iff, writable_jsonOfAll_iff children, items,
    List.forall_mem_cons]

theorem writable_jsonOfAll_iff (bs : List Branch) :
    (∀ json ∈ jsonOfAll bs, json.writable = true) ↔ ∀ item ∈ itemsOfAll bs, item.OpensText := by
  match bs with
  | [] => simp [jsonOfAll, itemsOfAll]
  | b :: bs =>
    rw [jsonOfAll, itemsOfAll, List.forall_mem_cons, List.forall_mem_append, writable_json_iff b,
      writable_jsonOfAll_iff bs]

end

end Branch

end Concordance
