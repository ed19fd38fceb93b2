namespace Concordance.Pattern

-- The characters of a query that count.
def letters (query : String) : List Char :=
  query.toList.filter Char.isAlphanum

-- Letters with a gap of any length between them, as a regular expression.
def gapped : List Char → List Char
  | [] => []
  | [c] => [c]
  | c :: d :: cs => c :: '.' :: '*' :: gapped (d :: cs)

-- The loose pattern of a query: its ASCII letters and digits in order, anything in
-- between. A query of fewer than `least` characters, or without any that count, has none.
def ofQuery? (query : String) (least : Nat) : Option String :=
  if query.toList.length < least then none
  else
    match letters query with
    | [] => none
    | c :: cs => some (String.ofList (gapped (c :: cs)))

end Concordance.Pattern
