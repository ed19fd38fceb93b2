import Concordance.Node
import Concordance.Text.Blank
namespace Concordance

inductive Collapsible where
  | none
  | collapsed
  | expanded
deriving DecidableEq, Repr

def Collapsible.text : Collapsible → String
  | none => "none"
  | collapsed => "collapsed"
  | expanded => "expanded"

structure Item where
  label : String
  description : Option String
  tooltip : Option String
  collapsible : Collapsible
  -- whether the user can take the row away
  removable : Bool
  icon : String
  color : String
  -- what opening the row shows
  command : Option Location
deriving DecidableEq, Repr

def Node.collapsible (n : Node) : Collapsible :=
  if n.relation = .other then .none
  else if n.initiallyExpanded then .expanded
  else .collapsed

def iconOfKind : String → String
  | "variable" => "symbol-variable"
  | "enum" => "symbol-enum"
  | "member" => "symbol-enum-member"
  | "struct" => "symbol-struct"
  | "typedef" => "symbol-interface"
  | "macro" => "symbol-constant"
  | _ => "symbol-method"

def Relation.color : Relation → String
  | .definition => "symbolIcon.methodForeground"
  | .referencedBy => "symbolIcon.fieldForeground"
  | .other => "titleBar.inactiveForeground"
  | .symbol => "titleBar.inactiveForeground"

namespace Node

def lineText (n : Node) : String := toString n.line.toNat

def description (n : Node) : String :=
  (((n.filename : Path).baseName?.map Path.display).getD n.filename) ++ ":" ++ n.lineText

def tooltip (n : Node) : String :=
  n.label ++ " [" ++ n.relation.text ++ "]\n\n" ++ n.filename ++ "\n"
    ++ n.lineText ++ ":" ++ Text.trim n.content ++ "\n"

-- The item of a node; relative filenames are seen from `root`.
def item (root : Path) (n : Node) : Item :=
  { label := n.label
    description := if n.line = 0 then none else some n.description
    tooltip := if n.line = 0 then none else some n.tooltip
    collapsible := n.collapsible
    removable := n.isRoot
    icon := iconOfKind n.kind
    color := n.relation.color
    command :=
      if n.hasLocation then some ⟨Path.join root n.filename, n.range.1⟩ else none }

def itemNotices (n : Node) : List Notice :=
  if n.hasLocation then n.staleNotices else []

end Node

end Concordance
