namespace Concordance

structure Invocation where
  program : String
  args : List String
deriving DecidableEq, Repr

inductive IndexerQuery where
  | definitions (symbol : String)
  | references (symbol : String)
  -- the symbol anywhere, which also finds names that are only used
  | symbols (symbol : String)
  -- definitions by a pattern, upper and lower case alike
  | fuzzy (pattern : String)
  | fileSymbols (filename : String)
  -- the names of all tags
  | completions
deriving DecidableEq, Repr

def IndexerQuery.args : IndexerQuery → List String
  | definitions symbol => ["-x", symbol]
  | references symbol => ["-rx", symbol]
  | symbols symbol => ["-sx", symbol]
  | fuzzy pattern => ["-ix", pattern]
  | fileSymbols filename => ["-xf", filename]
  | completions => ["-cT"]

-- Asks the tagging tool for the declarations of one file, in the order of the file.
def taggingArgs (filename : String) : List String :=
  ["--fields=+neK", "-o", "-", "--sort=no", filename]

-- What a tool is asked can be told from its arguments: the query with its operand, or the file.
theorem IndexerQuery.args_inj {q q' : IndexerQuery} : q.args = q'.args ↔ q = q' := by
  cases q <;> cases q' <;> simp [args]

theorem taggingArgs_inj {filename filename' : String} :
    taggingArgs filename = taggingArgs filename' ↔ filename = filename' := by
  simp [taggingArgs]

-- A query never looks like the request for the declarations of a file.
theorem IndexerQuery.args_ne_taggingArgs (q : IndexerQuery) (filename : String) :
    q.args ≠ taggingArgs filename := by
  cases q <;> simp [args, taggingArgs]

-- Why a tool gave no output.
inductive ToolFailure where
  | notStarted (program cause : String)
  -- the code is missing when a signal ended the program
  | exited (program : String) (code : Option Int) (stderr : String)
deriving DecidableEq, Repr

namespace ToolFailure

def codeText : Option Int → String
  | some code => "Some(" ++ toString code ++ ")"
  | none => "None"

def message : ToolFailure → String
  | notStarted program cause => "Failed to start " ++ program ++ ": " ++ cause
  | exited program code stderr =>
    program ++ " exited with code " ++ codeText code ++ ": " ++ stderr

end ToolFailure

-- What a tool run to its end answers.
abbrev Reply := Except ToolFailure String

-- A tool run whose output was taken line by line: the lines in the batches in which they
-- came, what was left after the last newline, and how the tool ended.
structure Listing where
  batches : List (List String)
  trailing : Option String
  code : Option Int
  stderr : String
deriving DecidableEq, Repr

namespace Listing

def succeeded (l : Listing) : Bool := l.code = some 0

def lines (l : Listing) : List String := l.batches.flatten

end Listing

abbrev ListingReply := Except ToolFailure Listing

end Concordance
