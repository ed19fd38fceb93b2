import Concordance.Health.Finding
import Concordance.Item
namespace Concordance.Report

-- Characters of a source line that a report shows.
def previewWidth : Nat := 80

-- A source line without its indentation, cut short where it is too long.
def preview (content : String) : String :=
  let line := (Text.trim content).toList
  if line.length > previewWidth then String.ofList (line.take (previewWidth - 3)) ++ "..."
  else String.ofList line

-- The number of a line that counts from zero, as the user counts.
def lineNumber (line : UInt32) : String := toString (line + 1).toNat

def spaces (n : Nat) : String := String.ofList (List.replicate n ' ')

def padLeft (width : Nat) (s : String) : String := spaces (width - s.toList.length) ++ s

def padRight (width : Nat) (s : String) : String := s ++ spaces (width - s.toList.length)

-- Where an occurrence is and what it is a part of.
def header (o : Occurrence) : String :=
  o.filename ++ ":" ++ toString o.line.toNat ++ " [" ++ o.relation.text ++ "]"
    ++ (match o.enclosing with
      | some enclosing => " in " ++ enclosing ++ " (" ++ o.kind ++ ")"
      | none => "")

def entry (o : Occurrence) : String :=
  header o ++ "\n   " ++ preview o.content ++ "\n"

def occurrences (title : String) (os : List Occurrence) : String :=
  if os.isEmpty then "No references found for '" ++ title ++ "'\n"
  else
    "Found " ++ toString os.length ++ " matches for '" ++ title ++ "'\n\n"
      ++ String.join (os.map entry)

def location (l : Location) : String :=
  l.path.display ++ ":" ++ lineNumber l.range.start.line ++ ":" ++ lineNumber l.range.start.character
    ++ "\n"

def locations (title : String) (ls : List Location) : String :=
  if ls.isEmpty then "No definition found for '" ++ title ++ "'\n"
  else String.join (ls.map location)

def outlineEntry (e : OutlineEntry) : String :=
  padLeft 6 (lineNumber e.range.start.line) ++ "  " ++ padRight 10 e.kind ++ " " ++ e.name
    ++ "\n"

def outline (es : List OutlineEntry) : String := String.join (es.map outlineEntry)

def symbolHit (s : SymbolHit) : String :=
  s.name ++ "  " ++ s.path.display ++ ":" ++ lineNumber s.position.line ++ "\n"

def symbolHits (title : String) (ss : List SymbolHit) : String :=
  if ss.isEmpty then "No symbols found for '" ++ title ++ "'\n"
  else String.join (ss.map symbolHit)

-- A row of the tree, two spaces deeper for each level.
def row (r : Nat × Item) : String :=
  spaces (2 * r.1) ++ r.2.label
    ++ (match r.2.description with
      | some description => "  " ++ description
      | none => "")
    ++ "\n"

def rows (rs : List (Nat × Item)) : String := String.join (rs.map row)

def finding (f : Finding) : String :=
  padRight 8 f.name ++ " " ++ padRight 5 (if f.ok then "ok" else "FAIL") ++ " " ++ f.detail
    ++ "\n"

def findings (fs : List Finding) : String := String.join (fs.map finding)

def tags (ts : List String) : String := String.join (ts.map (fun t => t ++ "\n"))

end Concordance.Report
