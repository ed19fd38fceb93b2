import Concordance.Proofs.Text.Utf8.Search
import Concordance.TextRange

namespace Concordance

open Text

theorem toNat_zeroBased (line : UInt32) : (zeroBased line).toNat = line.toNat - 1 := by
  unfold zeroBased
  by_cases h : line = 0
  · rw [if_pos h, h]
    rfl
  · have hle : (1 : UInt32) ≤ line := by
      rw [UInt32.le_iff_toNat_le]
      have hne : line.toNat ≠ 0 := fun he => h (UInt32.toNat_inj.mp he)
      simp only [UInt32.toNat_one]
      omega
    rw [if_neg h, UInt32.toNat_sub_of_le _ _ hle, UInt32.toNat_one]

variable {content needle : String}

theorem column?_of_firstAt {i : Nat} (h : FirstAt needle.toList content.toList i) :
    column? content needle = some (UInt32.ofNat i) := by
  rw [column?, find?_eq_some_iff.mpr h, Option.map_some]

theorem column?_of_absent (h : ¬ needle.toList <:+: content.toList) :
    column? content needle = none := by
  rw [column?, Option.map_eq_none_iff, Option.eq_none_iff_forall_ne_some]
  intro i hi
  have hfound := (find?_eq_some_iff.mp hi).1
  exact h (hfound.isInfix.trans (List.drop_suffix i content.toList).isInfix)

namespace TextRange

-- A range on one line, counted from zero, that is as wide as this.
structure Spans (r : TextRange) (line : UInt32) (width : Nat) : Prop where
  start_line : r.start.line.toNat = line.toNat - 1
  stop_line : r.stop.line = r.start.line
  stop_column : r.stop.character.toNat = r.start.character.toNat + width

-- A range holds the first occurrence of a needle, whether the characters or the bytes of the
-- content are searched.
structure Holds (r : TextRange) (content needle : List Char) : Prop where
  slice : (content.drop r.start.character.toNat).take
    (r.stop.character.toNat - r.start.character.toNat) = needle
  first : ∀ i < r.start.character.toNat, ¬ needle <+: content.drop i
  bytes : Utf8.encode (content.take r.start.character.toNat) ++ Utf8.encode needle <+:
    Utf8.encode content
  first_bytes : ∀ before, before ++ Utf8.encode needle <+: Utf8.encode content →
    (Utf8.encode (content.take r.start.character.toNat)).length ≤ before.length

-- A needle occurs nowhere, and its range is at the start of the line.
structure Misses (r : TextRange) (content needle : List Char) : Prop where
  absent : ¬ needle <:+: content
  absent_bytes : ¬ Utf8.encode needle <:+: Utf8.encode content
  start_column : r.start.character = 0

theorem holds_of_firstAt {r : TextRange} {content needle : List Char}
    (h : FirstAt needle content r.start.character.toNat)
    (hwidth : r.stop.character.toNat = r.start.character.toNat + needle.length) :
    r.Holds content needle where
  slice := by
    rw [hwidth, Nat.add_sub_cancel_left]
    exact (List.prefix_iff_eq_take.mp h.1).symm
  first := h.2
  bytes := (Utf8.firstAt_bytes h).1
  first_bytes := (Utf8.firstAt_bytes h).2

theorem locate_of_firstAt {i : Nat} (h : FirstAt needle.toList content.toList i) (line : UInt32) :
    (locate content needle line).1.start.character = UInt32.ofNat i ∧
      (locate content needle line).2 = true := by
  simp only [locate, column?_of_firstAt h, Option.getD_some, Option.isSome_some, and_self]

theorem locate_of_absent (h : ¬ needle.toList <:+: content.toList) (line : UInt32) :
    (locate content needle line).1.start.character = UInt32.ofNat 0 ∧
      (locate content needle line).2 = false := by
  simp only [locate, column?_of_absent h, Option.getD_none, Option.isSome_none, and_true]
  rfl

theorem spans_locate {i : Nat} (hroom : i + needle.toList.length < UInt32.size) (line : UInt32)
    (hstart : (locate content needle line).1.start.character = UInt32.ofNat i) :
    (locate content needle line).1.Spans line needle.toList.length where
  start_line := toNat_zeroBased line
  stop_line := rfl
  stop_column := by
    have hstop : (locate content needle line).1.stop.character =
        (locate content needle line).1.start.character + UInt32.ofNat needle.toList.length := rfl
    have hi : (UInt32.ofNat i).toNat = i := UInt32.toNat_ofNat_of_lt' (by omega)
    have hn : (UInt32.ofNat needle.toList.length).toNat = needle.toList.length :=
      UInt32.toNat_ofNat_of_lt' (by omega)
    rw [hstop, hstart, UInt32.toNat_add, hi, hn]
    exact Nat.mod_eq_of_lt hroom

-- Where columns have room, the range of a needle is what it says in characters, although a byte
-- search would find the needle by its encoding.
theorem locate_exact (content needle : String) (line : UInt32)
    (h : content.toList.length + needle.toList.length < UInt32.size) :
    let located := locate content needle line
    located.1.Spans line needle.toList.length ∧
      (located.2 = true → located.1.Holds content.toList needle.toList) ∧
      (located.2 = false → located.1.Misses content.toList needle.toList) := by
  intro located
  by_cases hfound : needle.toList <:+: content.toList
  · obtain ⟨i, hi⟩ := exists_firstAt hfound
    obtain ⟨hstart, hflag⟩ := locate_of_firstAt hi line
    have hfits := hi.add_length_le
    have hspans : located.1.Spans line needle.toList.length :=
      spans_locate (by omega) line hstart
    have hat : FirstAt needle.toList content.toList located.1.start.character.toNat := by
      rwa [hstart, UInt32.toNat_ofNat_of_lt' (by omega)]
    refine ⟨hspans, fun _ => holds_of_firstAt hat hspans.stop_column, fun hmissed => ?_⟩
    exact absurd (hflag.symm.trans hmissed) Bool.noConfusion
  · obtain ⟨hstart, hflag⟩ := locate_of_absent hfound line
    refine ⟨spans_locate (by omega) line hstart, fun hheld => ?_, fun _ => ?_⟩
    · exact absurd (hflag.symm.trans hheld) Bool.noConfusion
    · exact ⟨hfound, mt Utf8.isInfix_of_encode hfound, hstart⟩

-- Two occurrences overlap, and a letter of two bytes stands before them.
theorem locate_exact_overlapping :
    "/* é */ ééé".toList.length + "éé".toList.length < UInt32.size ∧
      (locate "/* é */ ééé" "éé" 0).1.Spans 0 2 ∧
      (locate "/* é */ ééé" "éé" 0).1.Holds "/* é */ ééé".toList "éé".toList ∧
      (locate "/* é */ ééé" "éé" 0).1.start.character = 8 := by
  have hroom : "/* é */ ééé".toList.length + "éé".toList.length < UInt32.size := by decide
  obtain ⟨hspans, hholds, -⟩ := locate_exact "/* é */ ééé" "éé" 0 hroom
  exact ⟨hroom, hspans, hholds rfl, rfl⟩

end TextRange

end Concordance
