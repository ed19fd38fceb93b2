import Concordance.Path
namespace Concordance

inductive Json where
  | null
  | bool (b : Bool)
  -- a number as it is written
  | number (digits : List Char)
  | text (s : String)
  -- a string that is a path, which may be no text
  | path (p : Path)
  -- a string whose escapes name no character, or an object with such a name; it may stand
  -- where nobody reads it
  | malformed
  | array (items : List Json)
  -- the members in the order in which they are written
  | object (members : List (String × Json))

namespace Json

def nat (n : Nat) : Json := number (toString n).toList

def word (n : UInt32) : Json := nat n.toNat

end Json

end Concordance
