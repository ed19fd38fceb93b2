import Concordance.Text.Search
namespace Concordance

-- A place in a text. Lines and characters count from zero.
structure Position where
  line : UInt32
  character : UInt32
deriving DecidableEq, Repr

structure TextRange where
  start : Position
  stop : Position
deriving DecidableEq, Repr

-- The zero-based number of a line counted from one.
def zeroBased (line : UInt32) : UInt32 := if line = 0 then 0 else line - 1

-- The column of the first occurrence of `needle`, in characters.
def column? (content needle : String) : Option UInt32 :=
  (Text.find? needle.toList content.toList).map UInt32.ofNat

-- The range of `needle` on a line with this content, and whether it was found there.
-- A needle that does not occur is taken to stand at the start of the line.
def TextRange.locate (content needle : String) (line : UInt32) : TextRange × Bool :=
  let column := column? content needle
  let start := column.getD 0
  let stop := start + UInt32.ofNat needle.toList.length
  (⟨⟨zeroBased line, start⟩, ⟨zeroBased line, stop⟩⟩, column.isSome)

end Concordance
