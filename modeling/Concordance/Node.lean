import Concordance.Project
namespace Concordance

structure Node where
  -- what the node is shown as, and the symbol that its children refer to
  label : String
  filename : String
  -- counted from one; zero for a placeholder
  line : UInt32
  relation : Relation
  tag : String
  content : String
  isRoot : Bool
  initiallyExpanded : Bool
  kind : String
deriving DecidableEq, Repr

namespace Node

def placeholderKind : String := "macro"

def ofOccurrence (o : Occurrence) (label : String) (isRoot initiallyExpanded : Bool) : Node :=
  { label, isRoot, initiallyExpanded
    filename := o.filename
    line := o.line
    relation := o.relation
    tag := o.tag
    content := o.content
    kind := o.kind }

-- The root that stands for a symbol without a definition.
def placeholder (symbol : String) : Node :=
  { label := symbol
    filename := ""
    line := 0
    relation := .symbol
    tag := symbol
    content := ""
    isRoot := true
    initiallyExpanded := true
    kind := placeholderKind }

def isPlaceholder (n : Node) : Bool := n.line = 0 && n.relation = .symbol

def isAt (n : Node) (filename : String) (line : UInt32) : Bool :=
  n.filename = filename && n.line = line

-- What tells one root from another: its place and, as placeholders have none, their label.
structure Key where
  filename : String
  line : UInt32
  placeholder : Option String
deriving DecidableEq, Repr

def key (n : Node) : Key :=
  ⟨n.filename, n.line, if n.isPlaceholder then some n.label else none⟩

-- Whether there is a line to open.
def hasLocation (n : Node) : Bool := n.line ≠ 0 && n.content ≠ ""

-- The range of the tag on its line, and whether it stands there.
def range (n : Node) : TextRange × Bool :=
  TextRange.locate n.content n.tag n.line

def staleNotices (n : Node) : List Notice :=
  if n.range.2 then [] else [.staleIndex]

end Node

end Concordance
