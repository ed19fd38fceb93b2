import Concordance.Proofs.Text.Search
import Concordance.Proofs.Text.Utf8.Decoding

namespace Concordance.Text.Utf8

-- A byte that can go on with held ones begins no character, and one that cannot breaks them off.
-- So an encoded text is never read soundly after held bytes.
theorem broken_of_held {held : List UInt8} {c : Char} (h : held ≠ []) (rest : List UInt8) :
    (scan held (String.utf8EncodeChar c ++ rest)).broken = true := by
  obtain ⟨b, bytes, hencode⟩ : ∃ b bytes, String.utf8EncodeChar c = b :: bytes :=
    List.exists_cons_of_ne_nil String.utf8EncodeChar_ne_nil
  have hsound : (start b).broken = false := by
    have hwhole := congrArg Reading.broken (scan_whole (c := c))
    rw [hencode, scan_cons, Reading.andThen, Bool.or_eq_false_iff] at hwhole
    exact hwhole.1
  have hstep : (step held b).broken = true := by
    cases hjoins : joins held (b :: (bytes ++ rest)) with
    | true =>
      rw [start_of_joins hjoins] at hsound
      cases hsound
    | false =>
      rw [step_of_not_joins hjoins, Reading.andThen]
      simp [h]
  rw [hencode, List.cons_append, scan_cons, Reading.andThen, hstep, Bool.true_or]

theorem encode_injective {a b : List Char} (h : encode a = encode b) : a = b := by
  have hscan := scan_encode a
  rw [h, scan_encode] at hscan
  exact (congrArg Reading.chars hscan).symm

-- An encoded text that is cut between two characters is cut into two encoded texts.
theorem exists_of_encode_eq_append {text : List Char} {before after : List UInt8}
    (h : encode text = before ++ after) (hheld : (scan [] before).held = []) :
    ∃ front back, text = front ++ back ∧ before = encode front ∧ after = encode back := by
  have hscan := scan_encode text
  rw [h, scan_append, hheld] at hscan
  have hsound := congrArg Reading.broken hscan
  rw [Reading.andThen, Bool.or_eq_false_iff] at hsound
  have hlast : (scan [] after).held = [] := congrArg Reading.held hscan
  have hfront := (scan_reads begun_nil hsound.1).bytes_eq
  have hback := (scan_reads begun_nil hsound.2).bytes_eq
  rw [hheld, List.append_nil, List.nil_append] at hfront
  rw [hlast, List.append_nil, List.nil_append] at hback
  exact ⟨_, _, (congrArg Reading.chars hscan).symm, hfront, hback⟩

theorem held_eq_nil_of_encode_eq {text needle : List Char} {before after : List UInt8}
    (hne : needle ≠ []) (h : encode text = before ++ (encode needle ++ after)) :
    (scan [] before).held = [] := by
  obtain ⟨c, needle, rfl⟩ := List.exists_cons_of_ne_nil hne
  have hsound := congrArg Reading.broken (scan_encode text)
  rw [h, scan_append, Reading.andThen, Bool.or_eq_false_iff] at hsound
  by_contra hheld
  have hbroken := broken_of_held (c := c) hheld (encode needle ++ after)
  rw [← List.append_assoc] at hbroken
  exact Bool.false_ne_true (hsound.2.symm.trans hbroken)

-- An encoded text is found in an encoded text only where the text is found itself.
theorem exists_of_encode_eq {text needle : List Char} {before after : List UInt8}
    (hne : needle ≠ []) (h : encode text = before ++ (encode needle ++ after)) :
    ∃ front back, text = front ++ (needle ++ back) ∧ before = encode front := by
  obtain ⟨front, rest, rfl, hfront, hrest⟩ :=
    exists_of_encode_eq_append h (held_eq_nil_of_encode_eq hne h)
  have hneedle : (scan [] (encode needle)).held = [] := by rw [scan_encode]
  obtain ⟨found, back, rfl, hfound, -⟩ := exists_of_encode_eq_append hrest.symm hneedle
  exact ⟨front, back, by rw [encode_injective hfound], hfront⟩

-- The first place of a text is that of its bytes: up to there the bytes are those of the
-- characters before it.
theorem firstAt_bytes {needle text : List Char} {i : Nat} (h : FirstAt needle text i) :
    encode (text.take i) ++ encode needle <+: encode text ∧
      ∀ before, before ++ encode needle <+: encode text →
        (encode (text.take i)).length ≤ before.length := by
  constructor
  · obtain ⟨back, hback⟩ := h.1
    refine ⟨encode back, ?_⟩
    rw [← encode_append, ← encode_append, List.append_assoc, hback, List.take_append_drop]
  · rintro before ⟨after, hafter⟩
    by_cases hne : needle = []
    · subst hne
      rw [h.eq_zero_of_nil]
      exact Nat.zero_le _
    · rw [List.append_assoc] at hafter
      obtain ⟨front, back, htext, rfl⟩ := exists_of_encode_eq hne hafter.symm
      have hle : i ≤ front.length := by
        by_contra hlt
        refine h.2 front.length (by omega) ?_
        rw [htext, List.drop_left]
        exact List.prefix_append _ _
      rw [htext, List.take_append_of_le_length hle]
      exact ((List.take_prefix i front).flatMap _).length_le

-- Where the bytes of a needle are found, the needle is.
theorem isInfix_of_encode {needle text : List Char} (h : encode needle <:+: encode text) :
    needle <:+: text := by
  by_cases hne : needle = []
  · rw [hne]
    exact List.nil_infix
  · obtain ⟨before, after, heq⟩ := h
    rw [List.append_assoc] at heq
    obtain ⟨front, back, htext, -⟩ := exists_of_encode_eq hne heq.symm
    exact ⟨front, back, by rw [htext, List.append_assoc]⟩

end Concordance.Text.Utf8
