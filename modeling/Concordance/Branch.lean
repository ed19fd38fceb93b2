import Concordance.Expansion
import Concordance.Item
namespace Concordance

inductive Branch where
  | mk (item : Item) (children : List Branch)

namespace Branch

def item : Branch → Item
  | mk item _ => item

def children : Branch → List Branch
  | mk _ children => children

mutual

-- The rows of a branch from above, each with its depth.
def rows (depth : Nat) : Branch → List (Nat × Item)
  | mk item children => (depth, item) :: rowsOfAll (depth + 1) children

def rowsOfAll (depth : Nat) : List Branch → List (Nat × Item)
  | [] => []
  | b :: bs => rows depth b ++ rowsOfAll depth bs

end

end Branch

-- Draws a node and so many levels below it. References can lead back to the node, so the
-- depth alone ends the walk.
def Project.render (p : Project) (root : Path) : Nat → Node → Dialogue Branch
  | 0, n => do
    Dialogue.notifyAll n.itemNotices
    pure (.mk (n.item root) [])
  | depth + 1, n => do
    Dialogue.notifyAll n.itemNotices
    if n.collapsible = .none then pure (.mk (n.item root) [])
    else
      let nodes ← p.children n
      let branches ← Dialogue.forEach (p.render root depth) nodes
      pure (.mk (n.item root) branches)

end Concordance
