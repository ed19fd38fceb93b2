import Concordance.Relation
namespace Concordance

-- One line of a source file on which a tag occurs.
structure Occurrence where
  tag : String
  -- counted from one
  line : UInt32
  -- relative to the root of the project, or absolute
  filename : String
  -- the source text of the line
  content : String
  relation : Relation
  -- the declaration around the line, once it is known
  enclosing : Option String := none
  -- the kind of that declaration, empty until it is known
  kind : String := ""
deriving DecidableEq, Repr

-- Whether a declaration around the line was found.
def Occurrence.assigned (o : Occurrence) : Bool := o.enclosing.isSome

end Concordance
