import Concordance.Change
import Concordance.Config
import Concordance.Declaration
import Concordance.Json.Number
import Concordance.Json.Reader
import Concordance.Occurrence
namespace Concordance

namespace Json

def text? : Json → Option String
  | text s => some s
  | _ => none

def bool? : Json → Option Bool
  | bool b => some b
  | _ => none

def isNull : Json → Bool
  | null => true
  | _ => false

-- A whole number from zero to `limit`, written without sign, point or exponent.
def nat? (limit : Nat) : Json → Option Nat
  | number digits =>
    match Text.decimal? digits with
    | some n => if n ≤ limit then some n else none
    | none => none
  | _ => none

def word? (json : Json) : Option UInt32 := (json.nat? Text.maxWord32).map UInt32.ofNat

def count? (json : Json) : Option Nat := json.nat? Text.maxWord64

def optionalText? : Json → Option (Option String)
  | null => some none
  | text s => some (some s)
  | _ => none

def fields? : Json → Option Fields
  | object members => do
    let entries ← members.mapM (fun m => m.2.text?.map (fun s => (m.1, s)))
    some (Fields.ofList entries)
  | _ => none

-- The value of a member, which may be missing but not occur twice.
def single? (members : List (String × Json)) (name : String) : Option (Option Json) :=
  match members.filter (fun m => m.1 = name) with
  | [] => some none
  | [m] => some (some m.2)
  | _ => none

-- The values of a record in the order of the names: the members of an object, where others
-- are passed over, or the items of an array, of which the last may be missing.
def record? (names : List String) : Json → Option (List (Option Json))
  | object members => names.mapM (single? members)
  | array items =>
    if items.length ≤ names.length then
      some (items.map some ++ List.replicate (names.length - items.length) none)
    else none
  | _ => none

-- A word by itself, or as the only member of an object, without a value.
def word1? : Json → Option String
  | text s => some s
  | object [(name, null)] => some name
  | _ => none

-- The value of a setting, or its default where it is missing.
def setting? {α : Type} (read : Json → Option α) (default : α) : Option Json → Option α
  | none => some default
  | some json => read json

mutual

def depth : Json → Nat
  | array items => depthOfItems items + 1
  | object members => depthOfMembers members + 1
  | _ => 0

def depthOfItems : List Json → Nat
  | [] => 0
  | item :: items => max item.depth (depthOfItems items)

def depthOfMembers : List (String × Json) → Nat
  | [] => 0
  | (_, value) :: members => max value.depth (depthOfMembers members)

end

mutual

-- Whether every string and every number in a value has a meaning.
def isSound : Json → Bool
  | malformed => false
  | number digits => (Magnitude.ofDigits digits).fits
  | array items => allSound items
  | object members => allMembersSound members
  | _ => true

def allSound : List Json → Bool
  | [] => true
  | item :: items => item.isSound && allSound items

def allMembersSound : List (String × Json) → Bool
  | [] => true
  | (_, value) :: members => value.isSound && allMembersSound members

end

-- How deep a value may be that has to be kept until its meaning is known.
def maxKeptDepth : Nat := 126

end Json

open Json

def Relation.ofJson? (json : Json) : Option Relation :=
  json.word1?.bind Relation.ofText?

def Occurrence.ofJson? (json : Json) : Option Occurrence := do
  let values ← json.record?
    ["tag", "line", "filename", "content", "relation", "enclosingSymbol", "kind"]
  match values with
  | [some tag, some line, some filename, some content, some relation, enclosing, some kind] =>
    some
      { tag := ← tag.text?
        line := ← line.word?
        filename := ← filename.text?
        content := ← content.text?
        relation := ← Relation.ofJson? relation
        enclosing := ← setting? optionalText? none enclosing
        kind := ← kind.text? }
  | _ => none

def Declaration.ofJson? (json : Json) : Option Declaration := do
  let values ← json.record?
    ["name", "path", "kind", "startLine", "endLine", "declarationText", "fields"]
  match values with
  | [some name, some path, some kind, some startLine, some endLine, some text, fields] =>
    some
      { name := ← name.text?
        path := ← path.text?
        kind := ← kind.text?
        startLine := ← startLine.word?
        endLine := ← endLine.word?
        text := ← text.text?
        fields := ← setting? fields? Fields.empty fields }
  | _ => none

def Config.ofJson? (json : Json) : Option Config := do
  let values ← json.record?
    ["indexer", "tagger", "completion", "suppress_warnings", "fuzzy_enrich_limit",
      "fuzzy_min_query"]
  match values with
  | [indexer, tagger, completion, suppressWarnings, enrichLimit, minQuery] =>
    let default : Config := {}
    some
      { indexer := ← setting? text? default.indexer indexer
        tagger := ← setting? text? default.tagger tagger
        completion := ← setting? bool? default.completion completion
        suppressWarnings := ← setting? bool? default.suppressWarnings suppressWarnings
        fuzzyEnrichLimit := ← setting? count? default.fuzzyEnrichLimit enrichLimit
        fuzzyMinQuery := ← setting? count? default.fuzzyMinQuery minQuery }
  | _ => none

namespace Change

-- A change by its name and its data. Only added roots have data.
def ofParts? (name : String) (data : Option Json) : Option Change :=
  match name with
  | "RootsAdded" =>
    match data with
    | some (.object members) => do
      let count ← single? members "count"
      let count ← count
      (count.count?).map rootsAdded
    | _ => none
  | "RootRemoved" => if (data.map isNull).getD true then some rootRemoved else none
  | "Cleared" => if (data.map isNull).getD true then some cleared else none
  | _ => none

-- Data that stands before the name has to be kept until the name is read.
def keepable (members : List (String × Json)) : Bool :=
  match members.find? (fun m => m.1 = "event" ∨ m.1 = "data") with
  | some ("data", data) => data.isSound && data.depth ≤ maxKeptDepth
  | _ => true

def ofJson? : Json → Option Change
  | .object members => do
    let name ← single? members "event"
    let data ← single? members "data"
    let name ← name
    let name ← name.word1?
    if keepable members then ofParts? name data else none
  | .array [name, data] => do
    let name ← name.word1?
    ofParts? name (some data)
  | _ => none

end Change

end Concordance
