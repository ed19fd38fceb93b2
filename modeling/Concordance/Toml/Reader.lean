import Concordance.Toml.Basic
import Concordance.Toml.Text
namespace Concordance.Toml

-- How deep values may be nested, and how many parts a key may have.
def maxDepth : Nat := 80

def isBare (c : Char) : Bool := c.isAlphanum || c = '_' || c = '-'

def simpleKey? : List Char → Option (String × List Char)
  | '"' :: rest => (basic? (rest.length + 1) rest).map (fun (s, rest) => (String.ofList s, rest))
  | '\'' :: rest => (literalText? rest).map (fun (s, rest) => (String.ofList s, rest))
  | cs =>
    match cs.span isBare with
    | ([], _) => none
    | (s, rest) => some (String.ofList s, rest)

def skipSpaces (cs : List Char) : List Char := cs.dropWhile isSpace

def keyParts? : Nat → List Char → Option (List String × List Char)
  | 0, _ => none
  | fuel + 1, cs => do
    let (part, rest) ← simpleKey? (skipSpaces cs)
    match skipSpaces rest with
    | '.' :: rest => do
      let (parts, rest) ← keyParts? fuel rest
      some (part :: parts, rest)
    | rest => some ([part], rest)

def key? (cs : List Char) : Option (List String × List Char) := keyParts? (maxDepth - 1) cs

def skipComment : List Char → List Char
  | '#' :: rest => rest.dropWhile isPlain
  | cs => cs

-- Spaces, line ends and comments inside an array.
def skipFiller : Nat → List Char → List Char
  | 0, cs => cs
  | fuel + 1, cs =>
    match skipSpaces cs with
    | '#' :: rest =>
      match newline? (rest.dropWhile isPlain) with
      | some (_, rest) => skipFiller fuel rest
      | none => '#' :: rest
    | rest =>
      match newline? rest with
      | some (_, rest) => skipFiller fuel rest
      | none => rest

def filler (cs : List Char) : List Char := skipFiller (cs.length + 1) cs

-- The part of a text that was read.
def written (cs rest : List Char) : List Char := cs.take (cs.length - rest.length)

def atom? (cs : List Char) : Option (Value × List Char) :=
  match cs with
  | 't' :: 'r' :: 'u' :: 'e' :: rest => some (.bool true, rest)
  | 'f' :: 'a' :: 'l' :: 's' :: 'e' :: rest => some (.bool false, rest)
  | '"' :: _ => (text? cs).map (fun (s, rest) => (.text (String.ofList s), rest))
  | '\'' :: _ => (text? cs).map (fun (s, rest) => (.text (String.ofList s), rest))
  | _ =>
    match moment? cs with
    | some (_, rest) => some (.moment (written cs rest), rest)
    | none =>
      match float? cs with
      | some (_, rest) => some (.float (written cs rest), rest)
      | none => (integer? cs).map (fun (n, rest) => (.integer n, rest))

mutual

-- A value so many levels deep.
def value? (level : Nat) : Nat → List Char → Option (Value × List Char)
  | 0, _ => none
  | fuel + 1, cs =>
    match cs with
    | '[' :: rest =>
      if maxDepth ≤ level + 1 then none
      else do
        let (items, rest) ← items? (level + 1) fuel rest
        some (.array items, rest)
    | c :: rest =>
      if c.toNat = 123 then
        if maxDepth ≤ level + 1 then none
        else
          match skipSpaces rest with
          | [] => none
          | d :: afterBrace =>
            if d.toNat = 125 then some (.table .inline [], afterBrace)
            else do
              let (members, rest) ← members? (level + 1) fuel [] rest
              some (.table .inline members, rest)
      else atom? (c :: rest)
    | [] => none

-- The items of an array up to its closing bracket. A comma may follow the last one.
def items? (level : Nat) : Nat → List Char → Option (List Value × List Char)
  | 0, _ => none
  | fuel + 1, cs =>
    match filler cs with
    | ']' :: rest => some ([], rest)
    | cs => do
      let (item, rest) ← value? level fuel cs
      match filler rest with
      | ']' :: rest => some ([item], rest)
      | ',' :: rest => do
        let (items, rest) ← items? level fuel rest
        some (item :: items, rest)
      | _ => none

-- The members of a table written as a value, up to its closing brace.
def members? (level : Nat) : Nat → Members → List Char → Option (Members × List Char)
  | 0, _, _ => none
  | fuel + 1, members, cs => do
    let (key, rest) ← key? cs
    let (_, rest) ← literal? '=' rest
    let (value, rest) ← value? level fuel (skipSpaces rest)
    let last ← key.getLast?
    let members ← put? value key.dropLast last true members
    match skipSpaces rest with
    | ',' :: rest => members? level fuel members rest
    | c :: rest => if c.toNat = 125 then some (members, rest) else none
    | [] => none

end

-- The end of a line after its content: spaces, a comment, and the line end or the end of
-- the text.
def lineEnd? (cs : List Char) : Option (List Char) :=
  match skipComment (skipSpaces cs) with
  | [] => some []
  | rest => (newline? rest).map Prod.snd

-- A settings file while it is read: its tables, and the header the next keys belong to.
structure Document where
  members : Members
  header : List String

def Document.empty : Document := ⟨[], []⟩

def Document.add? (d : Document) (key : List String) (value : Value) : Option Document := do
  let last ← key.getLast?
  let members ← within? (put? value key.dropLast last true) d.header d.members
  some { d with members }

def Document.open? (d : Document) (key : List String)
    (change : String → Members → Option Members) : Option Document := do
  let last ← key.getLast?
  let members ← within? (change last) key.dropLast d.members
  some ⟨members, key⟩

-- A line with a key and a value, which may go over several lines itself.
def keyLine? (d : Document) (cs : List Char) : Option (Document × List Char) := do
  let (key, rest) ← key? cs
  let (_, rest) ← literal? '=' rest
  let (value, rest) ← value? 0 (2 * cs.length + 2) (skipSpaces rest)
  let rest ← lineEnd? rest
  let d ← d.add? key value
  some (d, rest)

def tableLine? (d : Document) (cs : List Char) : Option (Document × List Char) := do
  let (key, rest) ← key? cs
  let (_, rest) ← literal? ']' rest
  let rest ← lineEnd? rest
  let d ← d.open? key openTable?
  some (d, rest)

def itemLine? (d : Document) (cs : List Char) : Option (Document × List Char) := do
  let (key, rest) ← key? cs
  let (_, rest) ← literal? ']' rest
  let (_, rest) ← literal? ']' rest
  let rest ← lineEnd? rest
  let d ← d.open? key openItem?
  some (d, rest)

def lines? : Nat → Document → List Char → Option Document
  | 0, _, _ => none
  | fuel + 1, d, cs =>
    match skipSpaces cs with
    | [] => some d
    | '#' :: rest => do
      let rest ← lineEnd? ('#' :: rest)
      lines? fuel d rest
    | '[' :: '[' :: rest => do
      let (d, rest) ← itemLine? d rest
      lines? fuel d rest
    | '[' :: rest => do
      let (d, rest) ← tableLine? d rest
      lines? fuel d rest
    | rest =>
      match newline? rest with
      | some (_, rest) => lines? fuel d rest
      | none => do
        let (d, rest) ← keyLine? d rest
        lines? fuel d rest

-- Reads a settings file; a byte order mark may stand before it.
def read? (text : String) : Option Members :=
  let cs := match text.toList with
    | c :: rest => if c.toNat = 0xFEFF then rest else c :: rest
    | [] => []
  (lines? (cs.length + 1) Document.empty cs).map (fun d => d.members)

end Concordance.Toml
