namespace Concordance

-- How an occurrence of a tag relates to the symbol it names.
inductive Relation where
  | definition
  | referencedBy
  -- a use outside of every declaration
  | other
  -- the stand-in for a symbol without a definition
  | symbol
deriving DecidableEq, Repr

namespace Relation

def all : List Relation := [definition, referencedBy, other, symbol]

def text : Relation → String
  | definition => "definition"
  | referencedBy => "referencedBy"
  | other => "other"
  | symbol => "symbol"

def ofText? (s : String) : Option Relation :=
  all.find? (fun r => r.text = s)

theorem ofText?_text (r : Relation) : ofText? r.text = some r := by
  cases r <;> decide

end Relation

end Concordance
