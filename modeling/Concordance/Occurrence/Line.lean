import Concordance.Occurrence
import Concordance.Text.Blank
import Concordance.Text.Lines
import Concordance.Text.Number
namespace Concordance.Occurrence

open Concordance.Text

-- The columns of a cross-reference line: TAG, blanks, LINE, blanks, FILENAME,
-- one space, CONTENT.
structure Columns where
  tag : List Char
  digits : List Char
  filename : List Char
  content : List Char
deriving DecidableEq, Repr

-- Cuts a line into its columns. Three words in a row are never empty when the last
-- one is not, but for the first, which may be missing before a blank.
def columns? (line : List Char) : Option Columns :=
  let (tag, afterTag) := word line
  let (digits, afterDigits) := word (gap afterTag).2
  let (filename, afterName) := word (gap afterDigits).2
  match afterName with
  | ' ' :: content =>
    if tag.isEmpty || filename.isEmpty || content.contains '\n' then none
    else some ⟨tag, digits, filename, content⟩
  | _ => none

-- A line number is written in decimal digits alone and fits into 32 bits.
def lineNumber? (digits : List Char) : Option UInt32 :=
  match decimal? digits with
  | some n => if n ≤ maxWord32 then some (UInt32.ofNat n) else none
  | none => none

-- Reads one line; a line of any other form is no occurrence.
def ofLine? (relation : Relation) (line : String) : Option Occurrence :=
  match columns? line.toList with
  | none => none
  | some columns =>
    (lineNumber? columns.digits).map fun n =>
      { tag := String.ofList columns.tag
        line := n
        filename := String.ofList columns.filename
        content := String.ofList columns.content
        relation }

-- Reads the output of the indexer; lines of another form are passed over.
def ofOutput (relation : Relation) (output : String) : List Occurrence :=
  (lines output).filterMap (ofLine? relation)

end Concordance.Occurrence
