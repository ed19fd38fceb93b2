import Concordance.FileTree
namespace Concordance

-- The tree that the tools work in.
structure Workspace where
  root : Path
  -- whether the tag files of the indexer are there
  indexed : Bool
deriving DecidableEq, Repr

structure NoWorkspace where
  path : Path
deriving DecidableEq, Repr

def NoWorkspace.message (e : NoWorkspace) : String := "Workspace not found: " ++ e.path.display

namespace Workspace

def indexFile : Path := "GTAGS"

-- A place and all those above it, the nearest first.
def upward (names : List Path) : List (List Path) :=
  (List.range (names.length + 1)).map (fun n => names.take (names.length - n))

def holdsIndex (tree : FileTree) (names : List Path) : Bool :=
  match tree.at? (names ++ [indexFile]) with
  | some found => found.isFile
  | none => false

-- The nearest folder with an index, from a place upward.
def nearest? (tree : FileTree) (names : List Path) : Option (List Path) :=
  (upward names).find? (holdsIndex tree)

-- The workspace around a folder: the nearest indexed one, else the folder itself.
def detect (tree : FileTree) (folder start : Path) : Except NoWorkspace Workspace :=
  match tree.access .byParts folder start with
  | .error _ => .error ⟨start⟩
  | .ok names =>
    match tree.at? names with
    | some (.folder _) =>
      match nearest? tree names with
      | some root => .ok ⟨Path.ofNames root, true⟩
      | none => .ok ⟨Path.ofNames names, false⟩
    | _ => .error ⟨Path.ofNames names⟩

def resolve (w : Workspace) (filename : String) : Path := Path.resolve w.root filename

end Workspace

end Concordance
