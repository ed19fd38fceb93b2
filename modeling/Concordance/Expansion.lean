import Concordance.Node
namespace Concordance

-- What is expanded: a symbol that the user named, perhaps with wildcards, or a node.
inductive Target where
  | symbol (name : String)
  | node (n : Node)
deriving DecidableEq, Repr

-- Whether a symbol is a pattern of names.
def hasWildcard (symbol : String) : Bool :=
  symbol.toList.any (fun c => c = '*' || c = '?')

-- An occurrence goes by the declaration around it. The members of an enumeration or a
-- structure keep their own names, which say more.
def Occurrence.label (o : Occurrence) : String :=
  match o.enclosing with
  | none => o.tag
  | some enclosing => if o.kind = "enum" || o.kind = "struct" then o.tag else enclosing

namespace Target

def name : Target → String
  | symbol name => name
  | node n => n.label

-- Whether an occurrence is the expanded node itself.
def isSelf (t : Target) (o : Occurrence) : Bool :=
  match t with
  | symbol _ => false
  | node n => n.isAt o.filename o.line

-- The occurrences that are shown. The roots of a symbol are its definitions.
def kept (t : Target) (os : List Occurrence) (isRoot : Bool) : List Occurrence :=
  (os.filter (fun o => !isRoot || o.relation = .definition)).filter (fun o => !t.isSelf o)

-- The nodes of an expansion. A root without a definition is a placeholder, and a single
-- root of an exact name is shown open.
def nodes (t : Target) (symbol : String) (os : List Occurrence) (isRoot : Bool) : List Node :=
  if isRoot && !os.any (fun o => o.relation = .definition) then [Node.placeholder symbol]
  else
    let shown := t.kept os isRoot
    let expanded := isRoot && !hasWildcard symbol && shown.length = 1
    shown.map (fun o => Node.ofOccurrence o o.label isRoot expanded)

end Target

def Project.expand (p : Project) (t : Target) (isRoot : Bool) : Dialogue (List Node) := do
  let os ← p.references t.name
  pure (t.nodes t.name os isRoot)

-- The nodes one level below a node.
def Project.children (p : Project) (n : Node) : Dialogue (List Node) :=
  p.expand (.node n) false

end Concordance
