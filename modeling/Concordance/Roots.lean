import Concordance.Branch
import Concordance.Change
namespace Concordance

inductive TrackOutcome where
  -- new roots, now at the front of the list
  | added (nodes : List Node)
  | alreadyTracked
  | noReferences
deriving DecidableEq, Repr

-- The node to show after tracking a symbol.
def TrackOutcome.first? : TrackOutcome → Option Node
  | added nodes => nodes.head?
  | alreadyTracked => none
  | noReferences => none

-- The tracked nodes, the latest ones first.
abbrev Roots := List Node

-- What an operation comes to: its result, the roots after it, and what it tells the others.
structure Update (α : Type) where
  value : α
  roots : Roots
  changes : List Change
deriving DecidableEq, Repr

def Update.map {α β : Type} (f : α → β) (u : Update α) : Update β :=
  ⟨f u.value, u.roots, u.changes⟩

namespace Roots

def tracks (roots : Roots) (key : Node.Key) : Bool :=
  roots.any (fun n => n.key = key)

-- Puts the nodes that are not tracked yet in front.
def commit (roots : Roots) (nodes : List Node) : Update TrackOutcome :=
  if nodes.isEmpty then ⟨.noReferences, roots, []⟩
  else
    let fresh := nodes.filter (fun n => !roots.tracks n.key)
    if fresh.isEmpty then ⟨.alreadyTracked, roots, []⟩
    else ⟨.added fresh, fresh ++ roots, [.rootsAdded fresh.length]⟩

-- What tracking comes to when the expansion has ended. After a failure all is as it was.
def settle (roots : Roots) :
    Except ToolFailure (List Node) → Update (Except ToolFailure TrackOutcome)
  | .ok nodes => (roots.commit nodes).map .ok
  | .error failure => ⟨.error failure, roots, []⟩

-- Tracks a symbol. The tools run before the list is looked at.
def track (p : Project) (roots : Roots) (symbol : String) :
    Dialogue (Update (Except ToolFailure TrackOutcome)) := do
  let ended ← (p.expand (.symbol symbol) true).attempt
  pure (roots.settle ended)

-- Looks at what is below a node, which leaves the roots as they are.
def look {α : Type} (roots : Roots) (d : Dialogue α) :
    Dialogue (Update (Except ToolFailure α)) := do
  let ended ← d.attempt
  pure ⟨ended, roots, []⟩

def children (p : Project) (roots : Roots) (n : Node) :
    Dialogue (Update (Except ToolFailure (List Node))) :=
  roots.look (p.children n)

-- Draws what is below a node of the tree, so many levels deep.
def render (p : Project) (roots : Roots) (depth : Nat) (n : Node) :
    Dialogue (Update (Except ToolFailure Branch)) :=
  roots.look (p.render p.root depth n)

-- Takes away every root of this key and says how many there were.
def untrack (roots : Roots) (key : Node.Key) : Update Nat :=
  let left := roots.filter (fun n => n.key ≠ key)
  ⟨roots.length - left.length, left, [.rootRemoved]⟩

def clear : Update Unit := ⟨(), [], [.cleared]⟩

end Roots

end Concordance
