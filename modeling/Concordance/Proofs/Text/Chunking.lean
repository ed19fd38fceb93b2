import Mathlib.Algebra.GroupWithZero.Nat
import Mathlib.Tactic.SplitIfs
import Concordance.Proofs.Text.LineStream

namespace Concordance.Text.LineStream

open Utf8

theorem decodeChunk_eq {held : List UInt8} (chunk : List UInt8) (h : Open held) :
    decodeChunk (held ++ chunk) =
      if (scan held chunk).broken then
        ((scan held chunk).chars ++ abandoned (scan held chunk).held, [])
      else ((scan held chunk).chars, (scan held chunk).held) := by
  rw [← close_chars, ← scan_resume held chunk h]
  rfl

-- Whether some chunk holds a broken sequence and ends inside a character that goes on in
-- the next bytes. The stream then gives the character up.
def torn (held : List UInt8) : List (List UInt8) → Bool
  | [] => false
  | chunk :: chunks =>
    let r := scan held chunk
    if r.broken then joins r.held chunks.flatten || torn [] chunks else torn r.held chunks

theorem torn_broken {held chunk : List UInt8} {chunks : List (List UInt8)}
    (h : (scan held chunk).broken = true) :
    torn held (chunk :: chunks) =
      (joins (scan held chunk).held chunks.flatten || torn [] chunks) := by
  simp [torn, h]

theorem torn_sound {held chunk : List UInt8} {chunks : List (List UInt8)}
    (h : (scan held chunk).broken = false) :
    torn held (chunk :: chunks) = torn (scan held chunk).held chunks := by
  simp [torn, h]

theorem received_broken {held chunk : List UInt8} {chunks : List (List UInt8)}
    (hopen : Open held) (h : (scan held chunk).broken = true) :
    received held (chunk :: chunks) =
      (scan held chunk).chars ++ (abandoned (scan held chunk).held ++ received [] chunks) := by
  rw [received, decodeChunk_eq chunk hopen, if_pos h, List.append_assoc]

theorem received_sound {held chunk : List UInt8} {chunks : List (List UInt8)}
    (hopen : Open held) (h : (scan held chunk).broken = false) :
    received held (chunk :: chunks) =
      (scan held chunk).chars ++ received (scan held chunk).held chunks := by
  rw [received, decodeChunk_eq chunk hopen, if_neg (by simp [h])]

-- As long as no character is torn, the chunks are read like the bytes in one piece.
theorem received_of_not_torn (held : List UInt8) (chunks : List (List UInt8)) (hopen : Open held)
    (h : torn held chunks = false) : received held chunks = lossyFrom held chunks.flatten := by
  induction chunks generalizing held with
  | nil => rw [received, decodeLossy_open hopen, List.flatten_nil, lossyFrom_nil]
  | cons chunk chunks ih =>
    rw [List.flatten_cons, lossyFrom_append]
    cases hb : (scan held chunk).broken with
    | true =>
      rw [torn_broken hb, Bool.or_eq_false_iff] at h
      rw [received_broken hopen hb, ih [] open_nil h.2, lossyFrom_of_not_joins h.1]
    | false =>
      rw [torn_sound hb] at h
      rw [received_sound hopen hb, ih _ (scan_open held chunk hopen) h]

theorem not_torn_whole (bytes : List UInt8) : torn [] [bytes] = false := by
  cases hb : (scan [] bytes).broken with
  | true => rw [torn_broken hb]; rfl
  | false => rw [torn_sound hb]; rfl

-- The characters of a text that end no line.
def bodyLength (text : List Char) : Nat := text.countP (fun c => c ≠ '\n' && c ≠ '\r')

@[simp] theorem bodyLength_nil : bodyLength [] = 0 := rfl

theorem bodyLength_append (a b : List Char) :
    bodyLength (a ++ b) = bodyLength a + bodyLength b :=
  List.countP_append

theorem bodyLength_abandoned {held : List UInt8} (h : held ≠ []) :
    bodyLength (abandoned held) = 1 := by
  rw [abandoned, if_neg (by simpa using h)]
  rfl

theorem bodyLength_singleton_le (c : Char) : bodyLength [c] ≤ 1 := List.countP_le_length

-- To give held bytes up never makes the text shorter, and makes it longer when they would
-- have been gone on with: of one character or broken sequence two or more are made.
theorem bodyLength_lossyFrom (held bytes : List UInt8) :
    bodyLength (lossyFrom held bytes) ≤
      bodyLength (abandoned held) + bodyLength (lossyFrom [] bytes) ∧
    (joins held bytes = true → bodyLength (lossyFrom held bytes) <
      bodyLength (abandoned held) + bodyLength (lossyFrom [] bytes)) := by
  induction bytes generalizing held with
  | nil =>
    refine ⟨?_, fun h => by simp [joins] at h⟩
    rw [lossyFrom_nil]
    exact Nat.le_add_right _ _
  | cons b bytes ih =>
    cases hj : joins held (b :: bytes) with
    | false =>
      refine ⟨?_, fun h => by simp at h⟩
      rw [lossyFrom_of_not_joins hj, bodyLength_append]
    | true =>
      have hne : held ≠ [] := by
        rintro rfl
        simp [joins] at hj
      have hafter : bodyLength (lossyFrom [] (b :: bytes)) = 1 + bodyLength (lossyFrom [] bytes) := by
        have hstep : step [] b = ⟨[replacement], [], true⟩ := start_of_joins hj
        rw [lossyFrom_cons, hstep, bodyLength_append]
        rfl
      have hlt : bodyLength (lossyFrom held (b :: bytes)) <
          bodyLength (abandoned held) + bodyLength (lossyFrom [] (b :: bytes)) := by
        rw [bodyLength_abandoned hne, hafter]
        cases hs : shape (held ++ [b]) with
        | whole c =>
          have hc := bodyLength_singleton_le c
          rw [lossyFrom_cons, step_whole hs, bodyLength_append]
          dsimp only
          omega
        | begun =>
          have hrest := (ih (held ++ [b])).1
          rw [bodyLength_abandoned (by simp)] at hrest
          rw [lossyFrom_cons, step_begun hs, List.nil_append]
          dsimp only
          omega
        | broken => simp [joins, hs] at hj
      exact ⟨hlt.le, fun _ => hlt⟩

theorem bodyLength_received (held : List UInt8) (chunks : List (List UInt8)) (hopen : Open held) :
    bodyLength (lossyFrom held chunks.flatten) ≤ bodyLength (received held chunks) ∧
    (torn held chunks = true →
      bodyLength (lossyFrom held chunks.flatten) < bodyLength (received held chunks)) := by
  induction chunks generalizing held with
  | nil =>
    rw [received_of_not_torn held [] hopen rfl]
    exact ⟨Nat.le_refl _, fun h => by simp [torn] at h⟩
  | cons chunk chunks ih =>
    rw [List.flatten_cons, lossyFrom_append, bodyLength_append]
    cases hb : (scan held chunk).broken with
    | true =>
      obtain ⟨hle, hlt⟩ := ih [] open_nil
      obtain ⟨hjoinle, hjoinlt⟩ := bodyLength_lossyFrom (scan held chunk).held chunks.flatten
      rw [received_broken hopen hb, bodyLength_append, bodyLength_append]
      refine ⟨by omega, fun h => ?_⟩
      rw [torn_broken hb, Bool.or_eq_true] at h
      rcases h with hj | ht
      · have := hjoinlt hj
        omega
      · have := hlt ht
        omega
    | false =>
      obtain ⟨hle, hlt⟩ := ih _ (scan_open held chunk hopen)
      rw [received_sound hopen hb, bodyLength_append]
      refine ⟨by omega, fun h => ?_⟩
      rw [torn_sound hb] at h
      have := hlt h
      omega

theorem bodyLength_cons (c : Char) (text : List Char) :
    bodyLength (c :: text) = bodyLength [c] + bodyLength text :=
  bodyLength_append [c] text

theorem bodyLength_cut (text : List Char) :
    bodyLength text = ((cut text).1.map bodyLength).sum + bodyLength (cut text).2 := by
  induction text with
  | nil => rfl
  | cons c text ih =>
    rw [bodyLength_cons c text, ih]
    by_cases hc : c = '\n'
    · subst hc
      rw [cut_newline, List.map_cons, List.sum_cons, bodyLength_nil, Nat.zero_add]
      exact Nat.zero_add _
    · cases h : (cut text).1 with
      | nil =>
        rw [cut_cons_nil hc h, bodyLength_cons c (cut text).2, List.map_nil, List.sum_nil]
        omega
      | cons first others =>
        rw [cut_cons_cons hc h, List.map_cons, List.map_cons, List.sum_cons, List.sum_cons,
          bodyLength_cons c first]
        dsimp only
        omega

theorem bodyLength_dropReturn (line : List Char) : bodyLength (dropReturn line) = bodyLength line := by
  unfold dropReturn
  split_ifs with h
  · obtain ⟨front, rfl⟩ := List.getLast?_eq_some_iff.mp h
    rw [List.dropLast_concat, bodyLength_append]
    rfl
  · rfl

theorem bodyLength_dropWhile_return (line : List Char) :
    bodyLength (line.dropWhile (· = '\r')) = bodyLength line := by
  induction line with
  | nil => rfl
  | cons c line ih =>
    by_cases hc : c = '\r'
    · subst hc
      rw [List.dropWhile_cons_of_pos (by simp), ih]
      rfl
    · rw [List.dropWhile_cons_of_neg (by simpa using hc)]

theorem bodyLength_endedLines (segments : List (List Char)) :
    ((endedLines segments).map (fun line => bodyLength line.toList)).sum =
      (segments.map bodyLength).sum := by
  induction segments with
  | nil => rfl
  | cons segment segments ih =>
    rw [List.map_cons, List.sum_cons, ← ih, ← bodyLength_dropReturn segment]
    cases hs : dropReturn segment with
    | nil => simp [endedLines, hs, bodyLength]
    | cons c rest => simp [endedLines, hs]

theorem bodyLength_openLine (segment : List Char) :
    ((openLine? segment).toList.map (fun line => bodyLength line.toList)).sum =
      bodyLength segment := by
  have h : bodyLength (segment.reverse.dropWhile (· = '\r')) = bodyLength segment := by
    rw [bodyLength_dropWhile_return]
    exact (List.reverse_perm segment).countP_eq _
  unfold openLine?
  dsimp only
  split_ifs with he
  · rw [List.isEmpty_iff.mp he] at h
    exact h
  · simpa [bodyLength] using h

theorem bodyLength_delivered (chunks : List (List UInt8)) :
    ((delivered chunks).map (fun line => bodyLength line.toList)).sum =
      bodyLength (received [] chunks) := by
  rw [delivered_eq, List.map_append, List.sum_append, bodyLength_endedLines, bodyLength_openLine,
    ← bodyLength_cut]

-- A chunking shows in the lines exactly when it tears a character.
theorem delivered_eq_whole_iff (chunks : List (List UInt8)) :
    delivered chunks = delivered [chunks.flatten] ↔ torn [] chunks = false := by
  have hwhole : received [] [chunks.flatten] = lossyFrom [] chunks.flatten := by
    rw [received_of_not_torn [] _ open_nil (not_torn_whole _), List.flatten_cons, List.flatten_nil,
      List.append_nil]
  constructor
  · intro h
    by_contra ht
    have hlt := (bodyLength_received [] chunks open_nil).2 (by simpa using ht)
    rw [← hwhole, ← bodyLength_delivered, ← bodyLength_delivered, h] at hlt
    exact Nat.lt_irrefl _ hlt
  · intro h
    rw [delivered_eq, delivered_eq, hwhole, received_of_not_torn [] chunks open_nil h]

-- Bytes are steady when after a broken sequence no character of several bytes begins, nor a
-- broken sequence of several bytes.
def Steady (bytes : List UInt8) : Prop :=
  ∀ before after, before ++ after = bytes → (scan [] before).broken = true →
    joins (scan [] before).held after = false

-- The induction follows the stream and the bytes side by side: the stream holds what the
-- bytes in one piece would hold, or nothing once it has met a broken sequence.
private theorem not_torn_of_steady (before held : List UInt8) (chunks : List (List UInt8))
    (hopen : Open held) (hsteady : Steady (before ++ chunks.flatten))
    (hheld : held = (scan [] before).held ∨ held = [] ∧ (scan [] before).broken = true) :
    torn held chunks = false := by
  induction chunks generalizing before held with
  | nil => rfl
  | cons chunk chunks ih =>
    rw [List.flatten_cons, ← List.append_assoc] at hsteady
    cases chunk with
    | nil =>
      rw [torn_sound rfl]
      exact ih before held hopen (by rwa [List.append_nil] at hsteady) hheld
    | cons b chunk =>
      have hscan := scan_append [] before (b :: chunk)
      have hsame : (scan held (b :: chunk)).held = (scan [] (before ++ b :: chunk)).held := by
        rw [hscan]
        rcases hheld with rfl | ⟨rfl, hb⟩
        · rfl
        · have hj : joins (scan [] before).held (b :: chunk) = false :=
            hsteady before (b :: chunk ++ chunks.flatten) (by simp) hb
          exact (scan_held_of_not_joins hj).symm
      have hbroken : (scan held (b :: chunk)).broken = true →
          (scan [] (before ++ b :: chunk)).broken = true := by
        intro hb
        rw [hscan]
        rcases hheld with rfl | ⟨-, hbefore⟩
        · simp [Reading.andThen, hb]
        · simp [Reading.andThen, hbefore]
      cases hb : (scan held (b :: chunk)).broken with
      | true =>
        rw [torn_broken hb, hsame, hsteady _ _ rfl (hbroken hb), Bool.false_or]
        exact ih _ [] open_nil hsteady (Or.inr ⟨rfl, hbroken hb⟩)
      | false =>
        rw [torn_sound hb]
        exact ih _ _ (scan_open held _ hopen) hsteady (Or.inl hsame)

theorem steady_iff (bytes : List UInt8) :
    Steady bytes ↔ ∀ chunks : List (List UInt8), chunks.flatten = bytes → torn [] chunks = false := by
  constructor
  · rintro hsteady chunks rfl
    exact not_torn_of_steady [] [] chunks open_nil hsteady (Or.inl rfl)
  · intro h before after hbytes hb
    have ht := h [before, after] (by simpa using hbytes)
    rw [torn_broken hb, Bool.or_eq_false_iff] at ht
    simpa using ht.1

-- Where the chunks are cut shows in the lines exactly when a character is torn. So two
-- chunkings that tear none agree, and all chunkings agree exactly when the bytes are steady.
theorem delivered_chunking (bytes : List UInt8) :
    (∀ chunks : List (List UInt8), chunks.flatten = bytes →
      (delivered chunks = delivered [bytes] ↔ torn [] chunks = false)) ∧
    ((∀ first second : List (List UInt8), first.flatten = bytes → second.flatten = bytes →
      delivered first = delivered second) ↔ Steady bytes) := by
  refine ⟨?_, ?_, ?_⟩
  · rintro chunks rfl
    exact delivered_eq_whole_iff chunks
  · intro h
    rw [steady_iff]
    rintro chunks rfl
    exact (delivered_eq_whole_iff chunks).mp (h chunks [chunks.flatten] rfl (by simp))
  · intro h first second hfirst hsecond
    rw [steady_iff] at h
    have hf := (delivered_eq_whole_iff first).mpr (h first hfirst)
    have hs := (delivered_eq_whole_iff second).mpr (h second hsecond)
    rw [hf, hs, hfirst, hsecond]

-- A broken byte and the first byte of a character in one chunk, its second byte in the next.
theorem delivered_chunking_dependent :
    ¬ ∀ first second : List (List UInt8), first.flatten = second.flatten →
      delivered first = delivered second := by
  intro h
  have hne : delivered [[255, 195], [169, 10]] ≠ delivered [[255, 195, 169, 10]] := by decide
  exact hne (h _ _ rfl)

end Concordance.Text.LineStream
