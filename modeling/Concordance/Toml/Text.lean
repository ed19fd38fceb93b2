import Concordance.Toml.Number
namespace Concordance.Toml

def isSpace (c : Char) : Bool := c = ' ' || c = '\t'

-- A character that may stand in a comment: no control character but the tab.
def isPlain (c : Char) : Bool :=
  c = '\t' || (0x20 ≤ c.toNat && c.toNat ≤ 0x7E) || 0x80 ≤ c.toNat

def newline? : List Char → Option (Unit × List Char)
  | '\n' :: rest => some ((), rest)
  | '\r' :: '\n' :: rest => some ((), rest)
  | _ => none

def scalar? (count : Nat) (cs : List Char) : Option (Char × List Char) := do
  let ds ← (cs.take count).mapM hexDigit?
  let n := valueOf 16 ds
  if ds.length = count ∧ n.isValidChar then some (Char.ofNat n, cs.drop count) else none

-- What stands behind a backslash.
def escape? : List Char → Option (Char × List Char)
  | 'b' :: rest => some (Char.ofNat 8, rest)
  | 't' :: rest => some ('\t', rest)
  | 'n' :: rest => some ('\n', rest)
  | 'f' :: rest => some (Char.ofNat 12, rest)
  | 'r' :: rest => some ('\r', rest)
  | '"' :: rest => some ('"', rest)
  | '\\' :: rest => some ('\\', rest)
  | 'u' :: rest => scalar? 4 rest
  | 'U' :: rest => scalar? 8 rest
  | _ => none

-- The rest of a string on one line, up to its closing quote.
def basic? : Nat → List Char → Option (List Char × List Char)
  | 0, _ => none
  | _ + 1, [] => none
  | fuel + 1, c :: cs =>
    if c = '"' then some ([], cs)
    else if c = '\\' then do
      let (e, rest) ← escape? cs
      let (text, rest) ← basic? fuel rest
      some (e :: text, rest)
    else if isPlain c then do
      let (text, rest) ← basic? fuel cs
      some (c :: text, rest)
    else none

-- The rest of a string without escapes, up to its closing quote.
def literalText? : List Char → Option (List Char × List Char)
  | [] => none
  | c :: cs =>
    if c = '\'' then some ([], cs)
    else if isPlain c then (literalText? cs).map (fun (text, rest) => (c :: text, rest))
    else none

-- The quotes at the start of a text: how many of the same kind there are.
def quotes (quote : Char) (cs : List Char) : Nat := (cs.takeWhile (· = quote)).length

-- Three quotes end a string of several lines, and up to two before them belong to it.
def closing? (quote : Char) (cs : List Char) : Option (List Char × List Char) :=
  let n := min (quotes quote cs) 5
  if 3 ≤ n then some (List.replicate (n - 3) quote, cs.drop n) else none

-- Passes over spaces and whole line ends. A carriage return by itself is none.
def skipLines : List Char → List Char
  | '\n' :: rest => skipLines rest
  | '\r' :: '\n' :: rest => skipLines rest
  | c :: rest => if isSpace c then skipLines rest else c :: rest
  | [] => []

-- What follows a backslash at the end of a line, from the next character that is no space.
def joined? (cs : List Char) : Option (List Char) := do
  let (_, rest) ← newline? (cs.dropWhile isSpace)
  some (skipLines rest)

-- The rest of a string of several lines. Every line end in it is a single newline.
def multiline? (quote : Char) : Nat → List Char → Option (List Char × List Char)
  | 0, _ => none
  | _ + 1, [] => none
  | fuel + 1, c :: cs =>
    match closing? quote (c :: cs) with
    | some r => some r
    | none =>
      match newline? (c :: cs) with
      | some (_, rest) =>
        (multiline? quote fuel rest).map (fun (text, rest) => ('\n' :: text, rest))
      | none =>
        if c = '\\' ∧ quote = '"' then
          match joined? cs with
          | some rest => multiline? quote fuel rest
          | none => do
            let (e, rest) ← escape? cs
            let (text, rest) ← multiline? quote fuel rest
            some (e :: text, rest)
        else if isPlain c then
          (multiline? quote fuel cs).map (fun (text, rest) => (c :: text, rest))
        else none

-- A line end right after the opening quotes is no part of the string.
def openedLines? (quote : Char) (cs : List Char) : Option (List Char × List Char) :=
  let body := match newline? cs with
    | some (_, rest) => rest
    | none => cs
  multiline? quote (body.length + 1) body

def text? : List Char → Option (List Char × List Char)
  | '"' :: '"' :: '"' :: rest => openedLines? '"' rest
  | '"' :: rest => basic? (rest.length + 1) rest
  | '\'' :: '\'' :: '\'' :: rest => openedLines? '\'' rest
  | '\'' :: rest => literalText? rest
  | _ => none

end Concordance.Toml
