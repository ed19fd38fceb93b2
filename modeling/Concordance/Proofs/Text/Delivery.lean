import Mathlib.Data.List.DropRight
import Concordance.Proofs.Text.Chunking
import Concordance.Proofs.Text.Utf8.Encoding

namespace Concordance.Text

-- The lines of a text that a newline ends, seen with the whole text at hand.
def terminatedLines (text : List Char) : List String :=
  (((text.splitOn '\n').dropLast.map withoutReturn).filter (fun line => line ≠ [])).map String.ofList

-- The last line of a text, which no newline ends.
def unterminatedLine? (text : List Char) : Option String :=
  let line := ((text.splitOn '\n').getLastD []).rdropWhile (· = '\r')
  if line = [] then none else some (String.ofList line)

namespace LineStream

open Utf8

theorem endedLines_cut (text : List Char) : endedLines (cut text).1 = terminatedLines text := by
  have hreturn : dropReturn = withoutReturn := funext dropReturn_eq_withoutReturn
  have hempty : (fun line : List Char => !line.isEmpty) = fun line => decide (line ≠ []) := by
    funext line
    cases line <;> rfl
  rw [endedLines, terminatedLines, splitOn_newline, List.dropLast_concat, hreturn, hempty]

theorem openLine_cut (text : List Char) : openLine? (cut text).2 = unterminatedLine? text := by
  have hlast : (text.splitOn '\n').getLastD [] = (cut text).2 := by
    rw [splitOn_newline, List.getLastD_concat]
  simp only [openLine?, unterminatedLine?, hlast, List.rdropWhile, List.isEmpty_iff,
    List.reverse_eq_nil_iff]

-- An encoded text holds no broken sequence, so no chunk of it ever gives anything up.
theorem steady_encode (text : List Char) : Steady (encode text) := by
  intro before after hbytes hb
  have hscan := scan_append [] before after
  rw [hbytes, scan_encode] at hscan
  have hsound := congrArg Reading.broken hscan
  simp [Reading.andThen, hb] at hsound

theorem received_encode (text : List Char) (chunks : List (List UInt8))
    (h : chunks.flatten = encode text) : received [] chunks = text := by
  have hwhole : torn [] chunks = false := (steady_iff _).mp (steady_encode text) chunks h
  rw [received_of_not_torn [] chunks open_nil hwhole, h, lossyFrom, scan_encode]
  rfl

-- However the bytes of a text are cut into chunks, a stream hands out the ended lines of the
-- text as they are completed, and its last line at the end.
theorem pushAll_utf8 (text : String) (chunks : List (List UInt8))
    (h : chunks.flatten.toByteArray = text.toUTF8) :
    (empty.pushAll chunks).1.flatten = terminatedLines text.toList ∧
    (empty.pushAll chunks).2.finish = unterminatedLine? text.toList := by
  rw [← toByteArray_encode, List.toByteArray_inj] at h
  obtain ⟨hlines, hlast⟩ := pushAll_received empty chunks empty_settled
  have htext : empty.carry ++ received empty.held chunks = text.toList :=
    received_encode text.toList chunks h
  rw [hlines, hlast, htext, endedLines_cut, openLine_cut]
  exact ⟨rfl, rfl⟩

-- The cuts fall inside an accented letter and between the two characters of a line end.
theorem pushAll_utf8_torn_newline :
    ([[110, 97, 195], [175, 13], [10, 13, 10], [98, 13, 13]] :
      List (List UInt8)).flatten.toByteArray = "naï\r\n\r\nb\r\r".toUTF8 ∧
    (empty.pushAll [[110, 97, 195], [175, 13], [10, 13, 10], [98, 13, 13]]).1.flatten =
      terminatedLines "naï\r\n\r\nb\r\r".toList ∧
    (empty.pushAll [[110, 97, 195], [175, 13], [10, 13, 10], [98, 13, 13]]).2.finish =
      unterminatedLine? "naï\r\n\r\nb\r\r".toList ∧
    terminatedLines "naï\r\n\r\nb\r\r".toList = ["naï"] ∧
    unterminatedLine? "naï\r\n\r\nb\r\r".toList = some "b" := by
  have h : ([[110, 97, 195], [175, 13], [10, 13, 10], [98, 13, 13]] :
      List (List UInt8)).flatten.toByteArray = "naï\r\n\r\nb\r\r".toUTF8 := by decide
  obtain ⟨hlines, hlast⟩ := pushAll_utf8 "naï\r\n\r\nb\r\r" _ h
  exact ⟨h, hlines, hlast, by decide, by decide⟩

end LineStream

end Concordance.Text
