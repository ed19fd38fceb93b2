import Concordance.Declaration
import Concordance.Text.Blank
import Concordance.Text.Lines
import Concordance.Text.Number
namespace Concordance.Declaration

open Concordance.Text

-- The columns of a tag line: NAME, PATH, the excerpt between its marks, KIND, and the
-- extension fields.
structure Columns where
  name : List Char
  path : List Char
  excerpt : List Char
  kind : List Char
  tail : List Char
deriving DecidableEq, Repr

-- The mark at the end of an excerpt: an optional dollar, then slash, semicolon, quote
-- and tab, with a kind right behind it. Gives the text from the kind on.
def afterMark? (cs : List Char) : Option (List Char) :=
  let unanchored := match cs with
    | '$' :: rest => rest
    | _ => cs
  match unanchored with
  | '/' :: ';' :: '"' :: '\t' :: c :: rest => if isBlank c then none else some (c :: rest)
  | _ => none

-- The excerpt ends at the first mark. Gives the excerpt and the text from the kind on.
def excerpt? (cs : List Char) : Option (List Char × List Char) :=
  match afterMark? cs with
  | some rest => some ([], rest)
  | none =>
    match cs with
    | [] => none
    | c :: cs => (excerpt? cs).map (fun (excerpt, rest) => (c :: excerpt, rest))

def columns? (line : List Char) : Option Columns :=
  let (name, afterName) := word line
  match afterName with
  | '\t' :: fromPath =>
    let (path, afterPath) := fromPath.span (· ≠ '\t')
    match afterPath with
    | '\t' :: '/' :: '^' :: fromExcerpt =>
      if name.isEmpty || path.isEmpty || fromExcerpt.contains '\n' then none
      else
        (excerpt? fromExcerpt).map fun (excerpt, fromKind) =>
          let (kind, afterKind) := word fromKind
          let tail := match afterKind with
            | '\t' :: rest => rest
            | _ => afterKind
          ⟨name, path, excerpt, kind, tail⟩
    | _ => none
  | _ => none

-- What the extension fields say.
structure Extension where
  startLine : Option UInt32
  endLine : Option UInt32
  fields : Fields
deriving DecidableEq, Repr

namespace Extension

def empty : Extension := ⟨none, none, Fields.empty⟩

-- Adds one item, a key and a value around the first colon. Other items say nothing,
-- and neither does one whose key or value is empty. The last of equal keys counts.
def add (e : Extension) (item : List Char) : Extension :=
  match splitOnce? ':' item with
  | none => e
  | some (key, value) =>
    if key.isEmpty || value.isEmpty then e
    else if key = ['l', 'i', 'n', 'e'] then { e with startLine := line? value }
    else if key = ['e', 'n', 'd'] then { e with endLine := line? value }
    else { e with fields := e.fields.insert (String.ofList key) (String.ofList value) }

def read (tail : List Char) : Extension :=
  (splitOn '\t' tail).foldl add empty

end Extension

-- Reads one line; a line of any other form, or without a line number, is no declaration.
def ofLine? (line : String) : Option Declaration :=
  match columns? line.toList with
  | none => none
  | some columns =>
    let extension := Extension.read columns.tail
    extension.startLine.map fun startLine =>
      { name := String.ofList columns.name
        path := String.ofList columns.path
        kind := String.ofList columns.kind
        startLine
        endLine := extension.endLine.getD startLine
        text := String.ofList columns.excerpt
        fields := extension.fields }

-- Reads the output of the tagging tool in its order; lines of another form are passed over.
def ofOutput (output : String) : List Declaration :=
  (lines output).filterMap ofLine?

end Concordance.Declaration
