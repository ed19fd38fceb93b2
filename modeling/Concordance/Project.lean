import Concordance.Category
import Concordance.Config
import Concordance.Occurrence.Line
import Concordance.Path
import Concordance.Pattern
import Concordance.Tagging
import Concordance.TextRange
namespace Concordance

structure Location where
  path : Path
  range : TextRange
deriving DecidableEq, Repr

-- A hit of a search over all files.
structure SymbolHit where
  name : String
  category : Option Category
  container : String
  path : Path
  position : Position
deriving DecidableEq, Repr

structure OutlineEntry where
  name : String
  -- the text of the declaring line
  detail : String
  category : Option Category
  kind : String
  range : TextRange
deriving DecidableEq, Repr

-- The range of the tag on its line, and whether it stands there.
def Occurrence.range (o : Occurrence) : TextRange × Bool :=
  TextRange.locate o.content o.tag o.line

-- A tag that is missing from its own line shows that the index is old.
def Occurrence.staleNotices (o : Occurrence) : List Notice :=
  if o.range.2 then [] else [.staleIndex]

def Declaration.outlineEntry (d : Declaration) : OutlineEntry :=
  { name := d.name
    detail := d.text
    category := Category.ofKind? d.kind
    kind := d.kind
    range := (TextRange.locate d.text d.name d.startLine).1 }

-- A source tree with its settings.
structure Project where
  config : Config
  root : Path
deriving DecidableEq, Repr

namespace Project

variable (p : Project)

def resolve (filename : String) : Path := Path.resolve p.root filename

-- Asks the indexer and reads its answer.
def query (q : IndexerQuery) (relation : Relation) : Dialogue (List Occurrence) := do
  let output ← Dialogue.ask ⟨p.config.indexer, q.args⟩
  pure (Occurrence.ofOutput relation output)

-- Assigns each occurrence to the declaration around it.
def enrich (os : List Occurrence) : Dialogue (List Occurrence) := do
  let tables ← buildTables p.config.tagger (os.map (fun o => o.filename))
  pure (assignAll tables os)

def definitionLines (symbol : String) : Dialogue (List Occurrence) :=
  p.query (.definitions symbol) .definition

-- What follows the definitions: the references of a defined symbol, and for any other the
-- lines that mention it.
def followUp (symbol : String) (definitions : List Occurrence) : IndexerQuery :=
  if definitions.isEmpty then .symbols symbol else .references symbol

-- All that is known of a symbol: its definitions, then its uses.
def references (symbol : String) : Dialogue (List Occurrence) := do
  let definitions ← p.definitionLines symbol
  let uses ← p.query (followUp symbol definitions) .referencedBy
  p.enrich (definitions ++ uses)

def location (o : Occurrence) : Location :=
  ⟨p.resolve o.filename, o.range.1⟩

def definitions (symbol : String) : Dialogue (List Location) := do
  let os ← p.definitionLines symbol
  Dialogue.notifyAll (os.flatMap Occurrence.staleNotices)
  pure (os.map p.location)

def fileSymbols (filename : String) : Dialogue (List Occurrence) := do
  let os ← p.query (.fileSymbols filename) .definition
  p.enrich os

-- The declarations of a file without the members of structures.
def outline (filename : String) : Dialogue (List OutlineEntry) := do
  let output ← Dialogue.ask ⟨p.config.tagger, taggingArgs filename⟩
  let ds := (Declaration.ofOutput output).filter (fun d => !d.isMember)
  pure (ds.map Declaration.outlineEntry)

-- Definitions whose names hold the letters of a query. Too many of them stay as they are.
def search (query : String) : Dialogue (List Occurrence) :=
  match Pattern.ofQuery? query p.config.fuzzyMinQuery with
  | none => pure []
  | some pattern => do
    let os ← p.query (.fuzzy pattern) .definition
    if os.length < p.config.fuzzyEnrichLimit then p.enrich os else pure os

def symbolHit (o : Occurrence) : SymbolHit :=
  { name := o.tag
    category := Category.ofKind? o.kind
    container := "line " ++ toString o.line.toNat
    path := p.resolve o.filename
    position := ⟨zeroBased o.line, (column? o.content o.tag).getD 0⟩ }

def symbolHits (query : String) : Dialogue (List SymbolHit) := do
  let os ← p.search query
  pure (os.map p.symbolHit)

end Project

end Concordance
