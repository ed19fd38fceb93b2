namespace Concordance

inductive Category where
  | function
  | var
  | enum
  | enumMember
  | struct
  | constant
  | string
deriving DecidableEq, Repr

namespace Category

def text : Category → String
  | function => "function"
  | var => "variable"
  | enum => "enum"
  | enumMember => "enumMember"
  | struct => "struct"
  | constant => "constant"
  | string => "string"

-- The category of a kind of declaration. A symbol outside of every declaration has the
-- empty kind.
def ofKind? : String → Option Category
  | "function" => some function
  | "variable" => some var
  | "enum" => some enum
  | "member" => some enumMember
  | "struct" => some struct
  | "typedef" => some constant
  | "macro" => some constant
  | "" => some string
  | _ => none

end Category

end Concordance
