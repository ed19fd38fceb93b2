import Concordance.Fields
namespace Concordance

structure Declaration where
  name : String
  -- the file, as the tagging tool wrote it
  path : String
  kind : String
  startLine : UInt32
  -- the start line again where no end is known
  endLine : UInt32
  -- the text of the declaring line
  text : String
  -- what else is known, such as the scope or the type
  fields : Fields := Fields.empty
deriving DecidableEq, Repr

namespace Declaration

-- Whether a line lies in the span of a declaration; both ends belong to it.
def contains (d : Declaration) (line : UInt32) : Bool :=
  d.startLine ≤ line && line ≤ d.endLine

-- Whether the declaration is a member of a structure.
def isMember (d : Declaration) : Bool := (d.fields.get? "struct").isSome

-- The first declaration around a line, in the order of the tagging tool. Of nested or
-- overlapping spans that order alone decides.
def enclosing? (ds : List Declaration) (line : UInt32) : Option Declaration :=
  ds.find? (fun d => d.contains line)

end Declaration

end Concordance
