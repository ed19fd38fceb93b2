import Concordance.Json.Basic
namespace Concordance.Json

def hexDigit (n : Nat) : Char :=
  if n < 10 then Char.ofNat (48 + n) else Char.ofNat (87 + n)

-- A character inside a string. Quotes, backslashes and control characters are escaped;
-- all others stand for themselves.
def escaped (c : Char) : List Char :=
  if c = '"' then ['\\', '"']
  else if c = '\\' then ['\\', '\\']
  else if c = '\n' then ['\\', 'n']
  else if c = '\r' then ['\\', 'r']
  else if c = '\t' then ['\\', 't']
  else if c.toNat = 8 then ['\\', 'b']
  else if c.toNat = 12 then ['\\', 'f']
  else if c.toNat < 32 then
    ['\\', 'u', '0', '0', hexDigit (c.toNat / 16), hexDigit (c.toNat % 16)]
  else [c]

def quoted (s : String) : List Char :=
  '"' :: s.toList.flatMap escaped ++ ['"']

-- A new line, two spaces deeper for each level.
def newline (level : Nat) : List Char :=
  '\n' :: List.replicate (2 * level) ' '

mutual

-- A value on several lines; an array or object without content stays on one.
def pretty (level : Nat) : Json → List Char
  | null => ['n', 'u', 'l', 'l']
  | bool true => ['t', 'r', 'u', 'e']
  | bool false => ['f', 'a', 'l', 's', 'e']
  | number digits => digits
  | text s => quoted s
  | path p => quoted p.display
  | malformed => ['"', '"']
  | array [] => ['[', ']']
  | array (item :: items) =>
    '[' :: newline (level + 1) ++ pretty (level + 1) item
      ++ prettyItems (level + 1) items ++ newline level ++ [']']
  | object [] => [Char.ofNat 123, Char.ofNat 125]
  | object ((name, value) :: members) =>
    Char.ofNat 123 :: newline (level + 1) ++ quoted name ++ [':', ' ']
      ++ pretty (level + 1) value ++ prettyMembers (level + 1) members
      ++ newline level ++ [Char.ofNat 125]

def prettyItems (level : Nat) : List Json → List Char
  | [] => []
  | item :: items => ',' :: newline level ++ pretty level item ++ prettyItems level items

def prettyMembers (level : Nat) : List (String × Json) → List Char
  | [] => []
  | (name, value) :: members =>
    ',' :: newline level ++ quoted name ++ [':', ' '] ++ pretty level value
      ++ prettyMembers level members

end

mutual

-- Whether every path in a value is a text.
def writable : Json → Bool
  | path p => p.text?.isSome
  | array items => allWritable items
  | object members => allMembersWritable members
  | _ => true

def allWritable : List Json → Bool
  | [] => true
  | item :: items => item.writable && allWritable items

def allMembersWritable : List (String × Json) → Bool
  | [] => true
  | (_, value) :: members => value.writable && allMembersWritable members

end

-- The text of a value, which it has only if all paths in it are texts.
def render? (json : Json) : Option String :=
  if json.writable then some (String.ofList (pretty 0 json)) else none

def unwritable : String :=
  "\x7b\"error\": \"Failed to serialize results: path contains invalid UTF-8 characters\"\x7d"

-- The text of a value, or in its place that of an error.
def format (json : Json) : String := json.render?.getD unwritable

-- A value on one line. The line ends inside a value are spaces of its layout, as those in
-- its strings are escaped.
def line (json : Json) : String :=
  String.ofList ((pretty 0 json).map (fun c => if c = '\n' then ' ' else c))

end Concordance.Json
