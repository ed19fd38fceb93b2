namespace Concordance.Text

-- The number of characters before the first occurrence of `needle`.
def find? (needle : List Char) : List Char → Option Nat
  | [] => if needle.isEmpty then some 0 else none
  | c :: cs =>
    if needle.isPrefixOf (c :: cs) then some 0
    else (find? needle cs).map (· + 1)

def contains (text needle : String) : Bool :=
  (find? needle.toList text.toList).isSome

def startsWith (text start : String) : Bool :=
  start.toList.isPrefixOf text.toList

end Concordance.Text
