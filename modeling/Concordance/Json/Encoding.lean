import Concordance.Branch
import Concordance.Health.Finding
import Concordance.Json.Printer
import Concordance.Roots
namespace Concordance

-- A member that is left out when it has no value.
def Json.optional (name : String) (value : Option Json) : List (String × Json) :=
  (value.map (fun json => (name, json))).toList

def Relation.json (r : Relation) : Json := .text r.text

def Occurrence.json (o : Occurrence) : Json :=
  .object
    ([("tag", .text o.tag), ("line", .word o.line), ("filename", .text o.filename),
        ("content", .text o.content), ("relation", o.relation.json)]
      ++ Json.optional "enclosingSymbol" (o.enclosing.map .text)
      ++ [("kind", .text o.kind)])

def Fields.json (fields : Fields) : Json :=
  .object (fields.entries.map (fun entry => (entry.1, .text entry.2)))

def Declaration.json (d : Declaration) : Json :=
  .object
    ([("name", .text d.name), ("path", .text d.path), ("kind", .text d.kind),
        ("startLine", .word d.startLine), ("endLine", .word d.endLine),
        ("declarationText", .text d.text)]
      ++ Json.optional "fields" (if d.fields.isEmpty then none else some d.fields.json))

def Position.json (p : Position) : Json :=
  .object [("line", .word p.line), ("character", .word p.character)]

def TextRange.json (r : TextRange) : Json :=
  .object [("start", r.start.json), ("end", r.stop.json)]

def Location.json (l : Location) : Json :=
  .object [("path", .path l.path), ("range", l.range.json)]

def Category.json (c : Category) : Json := .text c.text

def SymbolHit.json (s : SymbolHit) : Json :=
  .object
    ([("name", .text s.name)] ++ Json.optional "category" (s.category.map Category.json)
      ++ [("container", .text s.container), ("path", .path s.path),
        ("position", s.position.json)])

def OutlineEntry.json (e : OutlineEntry) : Json :=
  .object
    ([("name", .text e.name), ("detail", .text e.detail)]
      ++ Json.optional "category" (e.category.map Category.json)
      ++ [("kind", .text e.kind), ("range", e.range.json)])

def Node.json (n : Node) : Json :=
  .object
    [("label", .text n.label), ("filename", .text n.filename), ("line", .word n.line),
      ("relation", n.relation.json), ("tag", .text n.tag), ("content", .text n.content),
      ("isRoot", .bool n.isRoot), ("initiallyExpanded", .bool n.initiallyExpanded),
      ("kind", .text n.kind)]

namespace Item

def members (i : Item) : List (String × Json) :=
  [("label", .text i.label)]
    ++ Json.optional "description" (i.description.map .text)
    ++ Json.optional "tooltip" (i.tooltip.map .text)
    ++ [("collapsible", .text i.collapsible.text), ("removable", .bool i.removable),
      ("icon", .text i.icon), ("color", .text i.color)]
    ++ Json.optional "command" (i.command.map Location.json)

def json (i : Item) : Json := .object i.members

end Item

namespace Branch

mutual

-- The members of an item, and its children if it has any.
def json : Branch → Json
  | mk item children =>
    match children with
    | [] => .object item.members
    | child :: others =>
      .object (item.members ++ [("children", .array (child.json :: jsonOfAll others))])

def jsonOfAll : List Branch → List Json
  | [] => []
  | b :: bs => b.json :: jsonOfAll bs

end

end Branch

def Change.json : Change → Json
  | .rootsAdded count =>
    .object [("event", .text "RootsAdded"), ("data", .object [("count", .nat count)])]
  | .rootRemoved => .object [("event", .text "RootRemoved")]
  | .cleared => .object [("event", .text "Cleared")]

def Config.json (c : Config) : Json :=
  .object
    [("indexer", .text c.indexer), ("tagger", .text c.tagger), ("completion", .bool c.completion),
      ("suppress_warnings", .bool c.suppressWarnings),
      ("fuzzy_enrich_limit", .nat c.fuzzyEnrichLimit),
      ("fuzzy_min_query", .nat c.fuzzyMinQuery)]

def Finding.json (f : Finding) : Json :=
  .object [("name", .text f.name), ("ok", .bool f.ok), ("detail", .text f.detail)]

end Concordance
