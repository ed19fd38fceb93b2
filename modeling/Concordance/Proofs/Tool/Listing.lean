import Mathlib.Data.List.ModifyLast
import Concordance.Proofs.Text.Delivery
import Concordance.Proofs.Text.Utf8.Decoding
import Concordance.Proofs.Text.Words
import Concordance.Tool.Host

namespace Concordance

open Text

namespace Text

-- The lines of a text that is all at hand: no line is empty, and the last one is without
-- carriage returns where no newline ends it.
def tidyLines (text : List Char) : List String :=
  let found := splitLines text
  let tidied :=
    if text.getLast? = some '\n' then found
    else found.modifyLast (fun line => line.rdropWhile (· = '\r'))
  (tidied.filter (fun line => !line.isEmpty)).map String.ofList

theorem toList_openLine (segment : List Char) :
    (LineStream.openLine? segment).toList =
      ([segment.rdropWhile (· = '\r')].filter (fun line => !line.isEmpty)).map String.ofList := by
  rw [LineStream.openLine?, List.rdropWhile]
  cases hline : (segment.reverse.dropWhile (· = '\r')).isEmpty with
  | true => simp [hline]
  | false => simp [hline]

theorem tidyLines_eq (text : List Char) :
    tidyLines text =
      LineStream.endedLines (cut text).1 ++ (LineStream.openLine? (cut text).2).toList := by
  rcases List.eq_nil_or_concat text with rfl | ⟨front, c, rfl⟩
  · rfl
  · rw [List.concat_eq_append]
    by_cases hc : c = '\n'
    · subst hc
      have hopen : LineStream.openLine? [] = none := rfl
      simp only [tidyLines, splitLines, List.getLast?_concat, if_true, cut_concat_newline,
        List.isEmpty_nil, List.append_nil, hopen, Option.toList_none]
      rfl
    · have hlast : (front ++ [c]).getLast? ≠ some '\n' := by simp [hc]
      have hrest : ((cut front).2 ++ [c]).isEmpty = false := by simp
      simp only [tidyLines, splitLines, if_neg hlast, cut_concat front hc, hrest,
        Bool.false_eq_true, if_false, List.modifyLast_concat, List.filter_append,
        List.map_append, toList_openLine]
      rfl

end Text

-- What a listing and a run to the end both say of a tool: that it succeeded and wrote these
-- lines, or that it failed in this way.
inductive Listing.Agrees (l : Listing) : Reply → Prop
  | succeeded {output : String} (hcode : l.code = some 0)
      (hlines : l.lines ++ l.trailing.toList = tidyLines output.toList) : l.Agrees (.ok output)
  | failed {program stderr : String} (hcode : l.code ≠ some 0)
      (hstderr : Text.trim l.stderr = stderr) : l.Agrees (.error (.exited program l.code stderr))

-- A listing that gives the code with which a tool failed, and nothing of what the tool said.
inductive Listing.Mutes (l : Listing) : Reply → Prop
  | intro {program stderr : String} (hcode : l.code ≠ some 0) (hstderr : l.stderr = "")
      (hsaid : Utf8.replacement ∈ stderr.toList) : l.Mutes (.error (.exited program l.code stderr))

theorem Listing.Mutes.not_agrees {l : Listing} {reply : Reply} (h : l.Mutes reply) :
    ¬ l.Agrees reply := by
  intro hagrees
  cases h with
  | intro hcode hstderr hsaid =>
    cases hagrees with
    | failed _ htrim =>
      rw [hstderr] at htrim
      rw [← htrim] at hsaid
      exact absurd hsaid (by decide)

namespace Behaviour

variable {b : Behaviour} {chunks : List (List UInt8)}

theorem lines_listing {output : String} (hstdout : b.stdout.toByteArray = output.toUTF8)
    (hchunks : chunks.flatten = b.stdout) :
    (b.listing chunks).lines ++ (b.listing chunks).trailing.toList = tidyLines output.toList := by
  have hbytes : chunks.flatten = Utf8.encode output.toList := by
    rw [hchunks]
    exact Utf8.decode?_eq_some_iff.mp (Utf8.decode?_eq_some_toList_iff.mpr hstdout)
  have hreceived := LineStream.received_encode output.toList chunks hbytes
  have hbatches : (b.listing chunks).lines = (LineStream.empty.pushAll chunks).1.flatten :=
    List.flatten_filter_not_isEmpty
  have htrailing : (b.listing chunks).trailing = (LineStream.empty.pushAll chunks).2.finish := rfl
  obtain ⟨hlines, hlast⟩ :=
    LineStream.pushAll_received LineStream.empty chunks LineStream.empty_settled
  rw [hbatches, htrailing, hlines, hlast, tidyLines_eq]
  simp only [LineStream.empty, List.nil_append, hreceived]

theorem reply_of_succeeded {output : String} (program : String)
    (hstdout : b.stdout.toByteArray = output.toUTF8) (hstatus : b.status = some 0) :
    b.reply program = .ok output := by
  have hdecoded : Utf8.decodeLossy b.stdout = output.toList :=
    Utf8.decodeLossy_of_decode? (Utf8.decode?_eq_some_toList_iff.mpr hstdout)
  rw [reply, if_pos hstatus, hdecoded, String.ofList_toList]

theorem reply_of_failed (program : String) (hstatus : b.status ≠ some 0) :
    b.reply program = .error (.exited program b.status
      (String.ofList (trimmed (Utf8.decodeLossy b.stderr)))) :=
  if_neg hstatus

theorem agrees_of_succeeded {output : String} (program : String)
    (hstdout : b.stdout.toByteArray = output.toUTF8) (hchunks : chunks.flatten = b.stdout)
    (hstatus : b.status = some 0) : (b.listing chunks).Agrees (b.reply program) := by
  rw [reply_of_succeeded program hstdout hstatus]
  exact .succeeded hstatus (lines_listing hstdout hchunks)

theorem agrees_of_text {text : String} (program : String) (hstatus : b.status ≠ some 0)
    (hstderr : b.stderr.toByteArray = text.toUTF8) :
    (b.listing chunks).Agrees (b.reply program) := by
  have hdecoded := Utf8.decode?_eq_some_toList_iff.mpr hstderr
  rw [reply_of_failed program hstatus, Utf8.decodeLossy_of_decode? hdecoded]
  refine .failed hstatus ?_
  have hsaid : (b.listing chunks).stderr = text := by
    show b.errorText = text
    rw [errorText, hdecoded, Option.getD_some, String.ofList_toList]
  rw [hsaid, trim]

theorem mutes_of_not_text (program : String) (hstatus : b.status ≠ some 0)
    (hstderr : ¬ ∃ text : String, b.stderr.toByteArray = text.toUTF8) :
    (b.listing chunks).Mutes (b.reply program) := by
  have hnone : Utf8.decode? b.stderr = none := by
    rw [Option.eq_none_iff_forall_ne_some]
    intro text htext
    apply hstderr
    refine ⟨String.ofList text, Utf8.decode?_eq_some_toList_iff.mp ?_⟩
    rw [htext, String.toList_ofList]
  rw [reply_of_failed program hstatus]
  refine .intro hstatus ?_ ?_
  · show b.errorText = ""
    rw [errorText, hnone]
    rfl
  · rw [String.toList_ofList]
    exact mem_trimmed (Utf8.replacement_mem_decodeLossy hnone) (by decide)

-- A listing tells of a tool what a run to the end does, however the output arrives, unless the
-- tool fails with an error output that is no text. Then the code is all that is left of it.
theorem listing_agrees_iff {output : String} (hstdout : b.stdout.toByteArray = output.toUTF8)
    (hchunks : chunks.flatten = b.stdout) (program : String) :
    ((b.listing chunks).Agrees (b.reply program) ↔
      b.status = some 0 ∨ ∃ text : String, b.stderr.toByteArray = text.toUTF8) ∧
    ((b.listing chunks).Mutes (b.reply program) ↔
      b.status ≠ some 0 ∧ ¬ ∃ text : String, b.stderr.toByteArray = text.toUTF8) := by
  by_cases hstatus : b.status = some 0
  · have hagrees := agrees_of_succeeded program hstdout hchunks hstatus
    exact ⟨iff_of_true hagrees (Or.inl hstatus),
      iff_of_false (fun h => h.not_agrees hagrees) fun h => h.1 hstatus⟩
  · by_cases hstderr : ∃ text : String, b.stderr.toByteArray = text.toUTF8
    · obtain ⟨text, htext⟩ := hstderr
      have hagrees : (b.listing chunks).Agrees (b.reply program) :=
        agrees_of_text program hstatus htext
      exact ⟨iff_of_true hagrees (Or.inr ⟨text, htext⟩),
        iff_of_false (fun h => h.not_agrees hagrees) fun h => h.2 ⟨text, htext⟩⟩
    · have hmutes : (b.listing chunks).Mutes (b.reply program) :=
        mutes_of_not_text program hstatus hstderr
      exact ⟨iff_of_false hmutes.not_agrees (not_or.mpr ⟨hstatus, hstderr⟩),
        iff_of_true hmutes ⟨hstatus, hstderr⟩⟩

-- The chunks of this output are cut inside an accented letter and between the two characters of a
-- line end.
def tornOutput : Behaviour :=
  ⟨[110, 97, 195, 175, 13, 10, 13, 10, 98, 13, 13], [255], some 0⟩

theorem listing_agrees_iff_tornOutput :
    let chunks : List (List UInt8) := [[110, 97, 195], [175, 13], [10, 13, 10], [98, 13, 13]]
    tornOutput.stdout.toByteArray = "naï\r\n\r\nb\r\r".toUTF8 ∧
      chunks.flatten = tornOutput.stdout ∧
      (tornOutput.listing chunks).Agrees (tornOutput.reply "global") ∧
      (tornOutput.listing chunks).lines = ["naï"] ∧
      (tornOutput.listing chunks).trailing = some "b" := by
  intro chunks
  have hstdout : tornOutput.stdout.toByteArray = "naï\r\n\r\nb\r\r".toUTF8 := by decide
  have hchunks : chunks.flatten = tornOutput.stdout := rfl
  obtain ⟨hagrees, -⟩ := listing_agrees_iff hstdout hchunks "global"
  exact ⟨hstdout, hchunks, hagrees.mpr (Or.inl rfl), by decide, by decide⟩

-- A tool that names a file in another encoding as it fails.
def latinFailure : Behaviour := ⟨[], [99, 97, 102, 233, 46, 99, 10], some 1⟩

theorem listing_not_agrees_latinFailure :
    latinFailure.stdout.toByteArray = "".toUTF8 ∧
      ([] : List (List UInt8)).flatten = latinFailure.stdout ∧
      (latinFailure.listing []).code = some 1 ∧ (latinFailure.listing []).stderr = "" ∧
      latinFailure.reply "global" =
        .error (.exited "global" (some 1) "caf\uFFFD.c") ∧
      ¬ (latinFailure.listing []).Agrees (latinFailure.reply "global") := by
  have hreply : latinFailure.reply "global" =
      .error (.exited "global" (some 1) "caf\uFFFD.c") := by decide
  refine ⟨by decide, rfl, by decide, by decide, hreply, ?_⟩
  rw [hreply]
  intro hagrees
  cases hagrees with
  | failed _ htrim => exact absurd htrim (by decide)

end Behaviour

end Concordance
