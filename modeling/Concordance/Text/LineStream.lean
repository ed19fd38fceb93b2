import Concordance.Text.Lines
import Concordance.Text.Utf8
namespace Concordance.Text

-- A stream of text cut into lines while it arrives. What follows the last newline
-- is carried over, and so are the bytes of a character whose end is still to come.
structure LineStream where
  carry : List Char
  held : List UInt8
deriving DecidableEq, Repr

namespace LineStream

def empty : LineStream := ⟨[], []⟩

-- The text after the last newline.
def pending (s : LineStream) : String := String.ofList s.carry

-- Takes a piece of text and hands out every line that it completes.
-- A blank line is no line of the stream.
def push (s : LineStream) (text : List Char) : List String × LineStream :=
  let (done, rest) := cut (s.carry ++ text)
  (((done.map dropReturn).filter (fun line => !line.isEmpty)).map String.ofList,
    { s with carry := rest })

-- Decodes a chunk. The incomplete end of a chunk that is sound up to there is held
-- back; a chunk with a broken sequence is decoded to its very end.
def decodeChunk (bytes : List UInt8) : List Char × List UInt8 :=
  let reading := Utf8.scan [] bytes
  if reading.broken then (reading.close.chars, []) else (reading.chars, reading.held)

def pushBytes (s : LineStream) (chunk : List UInt8) : List String × LineStream :=
  let (text, held) := decodeChunk (s.held ++ chunk)
  LineStream.push { s with held := held } text

def pushAll (s : LineStream) : List (List UInt8) → List (List String) × LineStream
  | [] => ([], s)
  | chunk :: chunks =>
    let (lines, s') := s.pushBytes chunk
    let (batches, s'') := s'.pushAll chunks
    (lines :: batches, s'')

-- The end of the stream: what is left is its last line, unless nothing but
-- carriage returns is left.
def finish (s : LineStream) : Option String :=
  let rest := (s.carry ++ Utf8.decodeLossy s.held).reverse.dropWhile (· = '\r')
  if rest.isEmpty then none else some (String.ofList rest.reverse)

end LineStream

end Concordance.Text
