import Mathlib.Data.List.Forall2
import Concordance.Proofs.Text.LineStream
import Concordance.Proofs.Text.Utf8.Ascii

namespace Concordance.Text

-- The bytes before a newline, without one carriage return at their end.
def endedSegment (bytes : List UInt8) : List UInt8 :=
  if bytes.getLast? = some 0x0D then bytes.dropLast else bytes

-- The segments of some bytes between the newlines that hold more than the end of a line. Where no
-- newline follows, all carriage returns at the end belong to it.
def segments (bytes : List UInt8) : List (List UInt8) :=
  let pieces := bytes.splitOn 0x0A
  (pieces.dropLast.map endedSegment ++ [(pieces.getLastD []).rdropWhile (· = 0x0D)]).filter
    (· ≠ [])

-- A line that was made of a segment. Whatever became of the other bytes, it is one line, and all
-- ASCII characters of the segment are in it, in their order, and no others.
structure Carries (segment : List UInt8) (line : String) : Prop where
  ne_empty : line ≠ ""
  newline_notMem : '\n' ∉ line.toList
  ascii : line.toList.filter Utf8.isAscii = Utf8.asciiOf segment

theorem splitOn_append_of_notMem {α : Type} [BEq α] [LawfulBEq α] {separator : α} {run : List α}
    (h : separator ∉ run) (rest : List α) :
    (run ++ rest).splitOn separator = (rest.splitOn separator).modifyHead (run ++ ·) := by
  induction run with
  | nil =>
    rw [List.nil_append]
    cases rest.splitOn separator <;> rfl
  | cons a run ih =>
    obtain ⟨ha, hrun⟩ := not_or.mp (mt List.mem_cons.mpr h)
    rw [List.cons_append, List.splitOn_cons_eq_if_modifyHead, if_neg (by simpa using Ne.symm ha),
      ih hrun, List.modifyHead_modifyHead]
    rfl

namespace Utf8

namespace ReadAs

variable {bytes : List UInt8} {text : List Char}

theorem endedSegment (h : ReadAs bytes text) : ReadAs (endedSegment bytes) (dropReturn text) := by
  have hreturn : (0x0D : UInt8).toNat < 0x80 := by decide
  have hlast : bytes.getLast? = some 0x0D ↔ text.getLast? = some '\r' := by
    rw [← List.head?_reverse, ← List.head?_reverse]
    exact h.reverse.head?_eq_iff hreturn
  unfold Text.endedSegment dropReturn
  by_cases hbytes : bytes.getLast? = some 0x0D
  · rw [if_pos hbytes, if_pos (hlast.mp hbytes)]
    have hhead : bytes.reverse.head? = some 0x0D := by rwa [List.head?_reverse]
    have hfront := (h.reverse.tail hreturn hhead).reverse
    rwa [List.tail_reverse, List.tail_reverse, List.reverse_reverse, List.reverse_reverse] at hfront
  · rwa [if_neg hbytes, if_neg (mt hlast.mpr hbytes)]

end ReadAs

-- The newlines cut the bytes where they cut the text.
def CutAlike (bytes : List UInt8) (text : List Char) : Prop :=
  ∃ pieces last, bytes.splitOn 0x0A = pieces ++ [last] ∧
    List.Forall₂ ReadAs pieces (cut text).1 ∧ ReadAs last (cut text).2

-- What holds no newline goes to the first piece.
theorem CutAlike.prepend {run bytes : List UInt8} {c : Char} {text : List Char}
    (h : CutAlike bytes text) (hrun : 0x0A ∉ run) (hc : c ≠ '\n')
    (hreads : ∀ {piece line}, ReadAs piece line → ReadAs (run ++ piece) (c :: line)) :
    CutAlike (run ++ bytes) (c :: text) := by
  obtain ⟨pieces, last, hsplit, hpieces, hlast⟩ := h
  rw [CutAlike, splitOn_append_of_notMem hrun, hsplit]
  cases hcut : (cut text).1 with
  | nil =>
    rw [hcut, List.forall₂_nil_right_iff] at hpieces
    subst hpieces
    rw [cut_cons_nil hc hcut]
    exact ⟨[], run ++ last, rfl, .nil, hreads hlast⟩
  | cons first others =>
    rw [hcut] at hpieces
    obtain ⟨piece, pieces, hpiece, hothers, rfl⟩ := List.forall₂_cons_right_iff.mp hpieces
    rw [cut_cons_cons hc hcut]
    exact ⟨(run ++ piece) :: pieces, last, rfl, .cons (hreads hpiece) hothers, hlast⟩

-- A newline byte is never part of a character, and no other byte is read as a newline.
theorem ReadAs.cutAlike {bytes : List UInt8} {text : List Char} (h : ReadAs bytes text) :
    CutAlike bytes text := by
  have hnewline : (0x0A : UInt8).toNat < 0x80 := by decide
  induction h with
  | nil => exact ⟨[], [], rfl, .nil, .nil⟩
  | @ascii b bytes text hb rest ih =>
    by_cases hbn : b = 0x0A
    · obtain ⟨pieces, last, hsplit, hpieces, hlast⟩ := ih
      subst hbn
      refine ⟨[] :: pieces, last, ?_, ?_⟩
      · rw [List.splitOn_cons_eq_if_modifyHead, hsplit]
        rfl
      · rw [show Char.ofNat (0x0A : UInt8).toNat = '\n' from rfl, cut_newline]
        exact ⟨.cons .nil hpieces, hlast⟩
    · have hrun : 0x0A ∉ [b] := fun hmem => hbn (List.mem_singleton.mp hmem).symm
      exact ih.prepend hrun (mt (ofNat_eq_iff hb hnewline).mp hbn) (ReadAs.ascii hb)
  | @other run bytes c text hne hrun hc rest ih =>
    have hmem : 0x0A ∉ run := fun hmem => ne_of_high (hrun _ hmem) hnewline rfl
    exact ih.prepend hmem (ne_ofNat_of_high hc hnewline) (ReadAs.other hne hrun hc)

end Utf8

namespace LineStream

open Utf8

theorem decodeChunk_readAs (bytes : List UInt8) :
    ∃ read, bytes = read ++ (decodeChunk bytes).2 ∧ ReadAs read (decodeChunk bytes).1 := by
  have haccounts := scan_accounts bytes begun_nil
  unfold decodeChunk
  dsimp only
  split
  · exact ⟨bytes, (List.append_nil _).symm, haccounts.close⟩
  · exact haccounts.exists_read

-- Whether the stream holds bytes back or gives them up, none of them goes unread.
theorem received_readAs (held : List UInt8) (chunks : List (List UInt8)) :
    ReadAs (held ++ chunks.flatten) (received held chunks) := by
  induction chunks generalizing held with
  | nil =>
    rw [List.flatten_nil, List.append_nil]
    exact decodeLossy_readAs held
  | cons chunk chunks ih =>
    obtain ⟨read, hread, hreads⟩ := decodeChunk_readAs (held ++ chunk)
    have hall := hreads.append (ih (decodeChunk (held ++ chunk)).2)
    rwa [← List.append_assoc, ← hread, List.append_assoc] at hall

theorem carries_of_readAs {segment : List UInt8} {line : List Char} (h : ReadAs segment line)
    (hne : line ≠ []) (hnewline : '\n' ∉ line) : Carries segment (String.ofList line) where
  ne_empty hempty := hne (by simpa using congrArg String.toList hempty)
  newline_notMem := by rwa [String.toList_ofList]
  ascii := by rw [String.toList_ofList, h.filter_isAscii]

theorem endedLines_cons (text : List Char) (texts : List (List Char)) :
    endedLines (text :: texts) =
      if dropReturn text = [] then endedLines texts
      else String.ofList (dropReturn text) :: endedLines texts := by
  by_cases hline : dropReturn text = []
  · simp [endedLines, hline]
  · simp [endedLines, hline]

theorem endedLines_carries {pieces : List (List UInt8)} {texts : List (List Char)}
    (h : List.Forall₂ ReadAs pieces texts) (hnewline : ∀ text ∈ texts, '\n' ∉ text) :
    List.Forall₂ Carries ((pieces.map endedSegment).filter (· ≠ [])) (endedLines texts) := by
  induction h with
  | nil => exact .nil
  | @cons piece text pieces texts hpiece _ ih =>
    obtain ⟨htext, htexts⟩ := List.forall_mem_cons.mp hnewline
    have hended := hpiece.endedSegment
    rw [endedLines_cons, List.map_cons]
    by_cases hline : dropReturn text = []
    · rw [if_pos hline, List.filter_cons_of_neg (by simpa using hended.eq_nil_iff.mpr hline)]
      exact ih htexts
    · have hcarries := carries_of_readAs hended hline (mt mem_of_mem_dropReturn htext)
      rw [if_neg hline, List.filter_cons_of_pos (by simpa using mt hended.eq_nil_iff.mp hline)]
      exact .cons hcarries (ih htexts)

theorem openLine_carries {piece : List UInt8} {text : List Char} (h : ReadAs piece text)
    (hnewline : '\n' ∉ text) :
    List.Forall₂ Carries ([piece.rdropWhile (· = 0x0D)].filter (· ≠ []))
      (openLine? text).toList := by
  have hread : ReadAs (piece.rdropWhile (· = 0x0D)) (text.rdropWhile (· = '\r')) :=
    h.rdropWhile (by decide)
  have hopen : openLine? text = if text.rdropWhile (· = '\r') = [] then none
      else some (String.ofList (text.rdropWhile (· = '\r'))) := by
    simp only [openLine?, List.rdropWhile, List.isEmpty_iff, List.reverse_eq_nil_iff]
  rw [hopen]
  by_cases hline : text.rdropWhile (· = '\r') = []
  · rw [if_pos hline, List.filter_cons_of_neg (by simpa using hread.eq_nil_iff.mpr hline)]
    exact .nil
  · have hmem : '\n' ∉ text.rdropWhile (· = '\r') :=
      fun hmem => hnewline ((List.rdropWhile_prefix _ text).subset hmem)
    rw [if_neg hline, List.filter_cons_of_pos (by simpa using mt hread.eq_nil_iff.mp hline)]
    exact .cons (carries_of_readAs hread hline hmem) .nil

-- What a stream holds between two chunks: text after the last newline, and the beginning of one
-- character.
structure Waiting (s : LineStream) : Prop where
  pending : '\n' ∉ s.pending.toList
  held_length : s.held.length ≤ 3
  held_unfinished : Unfinished s.held

theorem pushBytes_waiting (s : LineStream) (chunk : List UInt8) :
    (s.pushBytes chunk).2.Waiting := by
  have hsettled := pushBytes_settled s chunk
  have hbegun := hsettled.held.begun
  refine ⟨?_, hbegun.length_le, hbegun.unfinished⟩
  rw [LineStream.pending, String.toList_ofList]
  exact hsettled.carry

-- Whatever bytes arrive in whatever chunks, a stream hands out one line for each segment, in
-- their order. What cannot be decoded neither takes a line away nor joins or splits any.
theorem delivered_bySegment (chunks : List (List UInt8)) :
    (∀ (s : LineStream) (chunk : List UInt8), (s.pushBytes chunk).2.Waiting) ∧
      List.Forall₂ Carries (segments chunks.flatten) (delivered chunks) := by
  refine ⟨pushBytes_waiting, ?_⟩
  obtain ⟨pieces, last, hsplit, hpieces, hlast⟩ := (received_readAs [] chunks).cutAlike
  have hended := endedLines_carries hpieces fun _ => not_mem_of_mem_cut_fst
  have hopen := openLine_carries hlast (not_mem_cut_snd _)
  rw [List.nil_append] at hsplit
  rw [delivered_eq, segments, hsplit, List.dropLast_concat, List.getLastD_concat,
    List.filter_append]
  exact List.rel_append hended hopen

-- A letter that is cut between two chunks, and one that never ends.
example : delivered [[0x61, 0xC3], [0xA9, 0x0D], [0x0A, 0x0A, 0x62, 0xE2], [0x0D, 0x0D]] =
    ["aé", "b\uFFFD"] := by
  decide

end LineStream

end Concordance.Text
