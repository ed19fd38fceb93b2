import Concordance.Text.Lines
import Concordance.Text.Utf8
namespace Concordance

-- A path, or a name in one, as the system has it: bytes, which need not be a text.
structure Path where
  bytes : List UInt8
deriving DecidableEq, Repr

namespace Path

def ofText (text : String) : Path := ⟨Text.Utf8.encode text.toList⟩

instance : Coe String Path := ⟨ofText⟩

-- The text of a path, if it is one.
def text? (path : Path) : Option String := (Text.Utf8.decode? path.bytes).map String.ofList

-- A path as people are shown it, with a replacement for what is no text.
def display (path : Path) : String := String.ofList (Text.Utf8.decodeLossy path.bytes)

def slash : UInt8 := 0x2F

def isAbsolute (path : Path) : Bool := path.bytes.head? = some slash

def hasNul (path : Path) : Bool := path.bytes.contains 0

-- A path seen from a folder. An absolute path is the same from everywhere, and no
-- part of a relative one is interpreted.
def join (folder path : Path) : Path :=
  if path.isAbsolute || folder.bytes.isEmpty then path
  else if folder.bytes.getLast? = some slash then ⟨folder.bytes ++ path.bytes⟩
  else ⟨folder.bytes ++ slash :: path.bytes⟩

-- A path that the tools gave, seen from the root of the project.
def resolve (root path : Path) : Path :=
  if path.isAbsolute then path else join root path

def components (path : Path) : List Path :=
  (Text.splitOn slash path.bytes).map Path.mk

-- The last name in a path. A path that ends in two dots, or holds no name, has none.
def baseName? (path : Path) : Option Path :=
  match (path.components.filter (fun name : Path => name ≠ "" && name ≠ ".")).getLast? with
  | some name => if name = ".." then none else some name
  | none => none

-- A path with one name more.
def add (path name : Path) : Path := ⟨path.bytes ++ slash :: name.bytes⟩

-- The absolute path over these names.
def ofNames : List Path → Path
  | [] => "/"
  | names => names.foldl add ""

end Path

end Concordance
