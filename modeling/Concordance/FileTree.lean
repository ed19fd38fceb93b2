import Concordance.Path
import Concordance.SystemFault
namespace Concordance

-- The files of a system, without their contents.
inductive FileTree where
  | file
  | folder (entries : List (Path × FileTree))

namespace FileTree

def empty : FileTree := folder []

def isFolder : FileTree → Bool
  | file => false
  | folder _ => true

def isFile : FileTree → Bool
  | file => true
  | folder _ => false

-- What stands below a tree under these names.
def at? (tree : FileTree) : List Path → Option FileTree
  | [] => some tree
  | name :: names =>
    match tree with
    | file => none
    | folder entries => (entries.lookup name).bind (fun child => child.at? names)

def putEntry (name : Path) (child : FileTree) :
    List (Path × FileTree) → List (Path × FileTree)
  | [] => [(name, child)]
  | entry :: entries =>
    if entry.1 = name then (name, child) :: entries else entry :: putEntry name child entries

-- Puts a tree under these names, with the folders above it. What is there already stays.
def put (leaf : FileTree) : List Path → FileTree → FileTree
  | [], tree => tree
  | _ :: _, file => file
  | name :: names, folder entries =>
    let start := if names.isEmpty then leaf else empty
    folder (putEntry name (put leaf names ((entries.lookup name).getD start)) entries)

-- Follows the parts of a path from the folder under the names `here`, makes the folders on
-- the way, and puts a tree at its end.
def make (leaf : FileTree) : List Path → List Path → FileTree → FileTree
  | here, [], tree => put leaf here tree
  | here, part :: parts, tree =>
    if part = "" || part = "." then make leaf here parts tree
    else if part = ".." then make leaf here.dropLast parts (put empty here tree)
    else make leaf (here ++ [part]) parts tree

def create (leaf : FileTree) (path : Path) (tree : FileTree) : FileTree :=
  make leaf [] path.components tree

-- The longest name, in bytes.
def maxName : Nat := 255

-- Follows the parts of a path from the folder under the names `here`.
def walk (tree : FileTree) : List Path → List Path → Except SystemFault (List Path)
  | here, [] => .ok here
  | here, part :: parts =>
    match tree.at? here with
    | none => .error .missing
    | some file => .error .notFolder
    | some (folder entries) =>
      if part = "" || part = "." then walk tree here parts
      else if part = ".." then walk tree here.dropLast parts
      else if maxName < part.bytes.length then .error .nameTooLong
      else if (entries.lookup part).isSome then walk tree (here ++ [part]) parts
      else .error .missing

-- The names under which an absolute path is found.
def resolve (tree : FileTree) (path : Path) : Except SystemFault (List Path) :=
  walk tree [] path.components

-- How a path is put to the system: as a whole, or, where its canonical form is asked for,
-- one part after another.
inductive Lookup where
  | whole
  | byParts
deriving DecidableEq, Repr

-- The longest path that the system takes as a whole, in bytes. What is looked up by parts
-- may be longer, as a path that goes back and forth is.
def maxPath : Nat := 4095

-- What the system finds at a path that is seen from a folder.
def access (tree : FileTree) (lookup : Lookup) (folder path : Path) :
    Except SystemFault (List Path) :=
  if path = "" then .error .missing
  else if (Path.join folder path).hasNul then .error .nulInPath
  else if lookup = .whole ∧ maxPath < path.bytes.length then .error .nameTooLong
  else tree.resolve (Path.join folder path)

end FileTree

end Concordance
