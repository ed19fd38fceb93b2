namespace Concordance.Text

-- What stands before each newline of a text, and what follows the last one.
def cut : List Char → List (List Char) × List Char
  | [] => ([], [])
  | c :: cs =>
    let (done, rest) := cut cs
    if c = '\n' then ([] :: done, rest)
    else
      match done with
      | [] => ([], c :: rest)
      | first :: others => ((c :: first) :: others, rest)

-- A line without the carriage return that may precede its newline.
def dropReturn (line : List Char) : List Char :=
  if line.getLast? = some '\r' then line.dropLast else line

-- The lines of a text. Newline and carriage return newline end a line alike;
-- what follows the last newline is a line if it is not empty.
def splitLines (text : List Char) : List (List Char) :=
  let (done, rest) := cut text
  done.map dropReturn ++ (if rest.isEmpty then [] else [rest])

def lines (text : String) : List String :=
  (splitLines text.toList).map String.ofList

-- Each piece of a list between two occurrences of `separator`; always at least one.
def splitOn {α : Type} [DecidableEq α] (separator : α) : List α → List (List α)
  | [] => [[]]
  | c :: cs =>
    if c = separator then [] :: splitOn separator cs
    else
      match splitOn separator cs with
      | [] => [[c]]
      | first :: others => (c :: first) :: others

-- A text cut at the first occurrence of `separator`, which belongs to neither part.
def splitOnce? (separator : Char) : List Char → Option (List Char × List Char)
  | [] => none
  | c :: cs =>
    if c = separator then some ([], cs)
    else (splitOnce? separator cs).map (fun (before, after) => (c :: before, after))

end Concordance.Text
