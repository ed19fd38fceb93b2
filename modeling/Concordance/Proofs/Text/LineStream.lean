import Concordance.Text.LineStream
import Concordance.Proofs.Text.Lines
import Concordance.Proofs.Text.Utf8.Reading

namespace Concordance.Text.LineStream

open Utf8

-- The lines in the ended segments of a text.
def endedLines (segments : List (List Char)) : List String :=
  ((segments.map dropReturn).filter (fun line => !line.isEmpty)).map String.ofList

-- The line that nothing ends, unless it is blank.
def openLine? (segment : List Char) : Option String :=
  let line := segment.reverse.dropWhile (· = '\r')
  if line.isEmpty then none else some (String.ofList line.reverse)

-- All that a stream hands out when it takes these chunks and then ends.
def delivered (chunks : List (List UInt8)) : List String :=
  (empty.pushAll chunks).1.flatten ++ (empty.pushAll chunks).2.finish.toList

-- The text that a stream reads out of the held bytes, the chunks and the end.
def received (held : List UInt8) : List (List UInt8) → List Char
  | [] => decodeLossy held
  | chunk :: chunks =>
    (decodeChunk (held ++ chunk)).1 ++ received (decodeChunk (held ++ chunk)).2 chunks

theorem endedLines_append (a b : List (List Char)) :
    endedLines (a ++ b) = endedLines a ++ endedLines b := by
  simp [endedLines]

theorem pushBytes_eq (s : LineStream) (chunk : List UInt8) :
    s.pushBytes chunk =
      (endedLines (cut (s.carry ++ (decodeChunk (s.held ++ chunk)).1)).1,
        ⟨(cut (s.carry ++ (decodeChunk (s.held ++ chunk)).1)).2,
          (decodeChunk (s.held ++ chunk)).2⟩) :=
  rfl

theorem pushAll_cons (s : LineStream) (chunk : List UInt8) (chunks : List (List UInt8)) :
    s.pushAll (chunk :: chunks) =
      ((s.pushBytes chunk).1 :: ((s.pushBytes chunk).2.pushAll chunks).1,
        ((s.pushBytes chunk).2.pushAll chunks).2) :=
  rfl

theorem finish_eq (s : LineStream) : s.finish = openLine? (s.carry ++ decodeLossy s.held) := rfl

theorem decodeChunk_open (bytes : List UInt8) : Open (decodeChunk bytes).2 := by
  unfold decodeChunk
  dsimp only
  split
  · exact open_nil
  · exact scan_open [] bytes open_nil

-- The invariant of a stream between two chunks.
structure Settled (s : LineStream) : Prop where
  carry : '\n' ∉ s.carry
  held : Open s.held

theorem empty_settled : empty.Settled := ⟨List.not_mem_nil, open_nil⟩

theorem pushBytes_settled (s : LineStream) (chunk : List UInt8) : (s.pushBytes chunk).2.Settled := by
  rw [pushBytes_eq]
  exact ⟨not_mem_cut_snd _, decodeChunk_open _⟩

-- However the bytes arrive, the lines are those of the text that is read out of them.
-- The induction keeps the stream settled, so that the carried text cuts to itself.
theorem pushAll_received (s : LineStream) (chunks : List (List UInt8)) (h : s.Settled) :
    (s.pushAll chunks).1.flatten = endedLines (cut (s.carry ++ received s.held chunks)).1 ∧
    (s.pushAll chunks).2.finish = openLine? (cut (s.carry ++ received s.held chunks)).2 := by
  induction chunks generalizing s with
  | nil =>
    have hmem : '\n' ∉ s.carry ++ decodeLossy s.held := by
      rw [List.mem_append, not_or]
      exact ⟨h.carry, decodeLossy_open_newline h.held⟩
    rw [received, cut_of_not_mem hmem]
    exact ⟨rfl, finish_eq s⟩
  | cons chunk chunks ih =>
    obtain ⟨hlines, hlast⟩ := ih _ (pushBytes_settled s chunk)
    rw [received, ← List.append_assoc, cut_append, endedLines_append, pushAll_cons,
      List.flatten_cons, hlines, hlast, pushBytes_eq]
    exact ⟨rfl, rfl⟩

theorem delivered_eq (chunks : List (List UInt8)) :
    delivered chunks =
      endedLines (cut (received [] chunks)).1 ++ (openLine? (cut (received [] chunks)).2).toList := by
  obtain ⟨hlines, hlast⟩ := pushAll_received empty chunks empty_settled
  rw [delivered, hlines, hlast]
  rfl

end Concordance.Text.LineStream
