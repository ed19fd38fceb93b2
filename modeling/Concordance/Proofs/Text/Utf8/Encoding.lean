import Mathlib.Tactic.SplitIfs
import Concordance.Proofs.Text.Utf8.Reading

namespace Concordance.Text.Utf8

private theorem toNat_byte {n : Nat} (h : n < 256) : (UInt8.ofNat n).toNat = n := by
  rw [UInt8.toNat_ofNat']
  omega

private theorem isTail_byte (n : Nat) : isTail (UInt8.ofNat (n % 0x40 + 0x80)) = true := by
  simp only [isTail, toNat_byte (show n % 0x40 + 0x80 < 256 by omega), Bool.and_eq_true,
    decide_eq_true_eq]
  omega

theorem shape_ascii (v : Nat) (hv : v ≤ 0x7f) :
    shape [UInt8.ofNat v] = .whole (Char.ofNat v) := by
  simp only [shape, toNat_byte (show v < 256 by omega)]
  rw [if_pos (by omega)]

theorem shape_lead (n : Nat) (hl : 0xC2 ≤ n) (hh : n ≤ 0xF4) :
    shape [UInt8.ofNat n] = .begun := by
  simp only [shape, toNat_byte (show n < 256 by omega)]
  rw [if_neg (by omega), if_pos ⟨hl, hh⟩]

theorem shape_two (v : Nat) (hl : 0x7f < v) (hh : v ≤ 0x7ff) :
    shape [UInt8.ofNat (v / 64 % 0x20 + 0xc0), UInt8.ofNat (v % 0x40 + 0x80)]
      = .whole (Char.ofNat v) := by
  have ha := toNat_byte (show v / 64 % 0x20 + 0xc0 < 256 by omega)
  have hb := toNat_byte (show v % 0x40 + 0x80 < 256 by omega)
  have hs : secondFits (UInt8.ofNat (v / 64 % 0x20 + 0xc0)) (UInt8.ofNat (v % 0x40 + 0x80)) := by
    unfold secondFits
    simp only [ha]
    rw [if_neg (by omega), if_neg (by omega), if_neg (by omega), if_neg (by omega)]
    exact isTail_byte v
  have hv : (v / 64 % 0x20 + 0xc0 - 0xC0) * 64 + (v % 0x40 + 0x80 - 0x80) = v := by omega
  simp only [shape, hs, ha, hb, hv, Bool.not_true, Bool.false_eq_true, if_false]
  rw [if_pos (by omega)]

theorem shape_three_begun (v : Nat) (hl : 0x7ff < v) (hh : v ≤ 0xffff)
    (hs : v < 0xD800 ∨ 0xDFFF < v) :
    shape [UInt8.ofNat (v / 4096 % 0x10 + 0xe0), UInt8.ofNat (v / 64 % 0x40 + 0x80)]
      = .begun := by
  have ha := toNat_byte (show v / 4096 % 0x10 + 0xe0 < 256 by omega)
  have hb := toNat_byte (show v / 64 % 0x40 + 0x80 < 256 by omega)
  have hfits : secondFits (UInt8.ofNat (v / 4096 % 0x10 + 0xe0))
      (UInt8.ofNat (v / 64 % 0x40 + 0x80)) := by
    simp only [secondFits, isTail, ha, hb]
    split_ifs <;> simp only [Bool.and_eq_true, decide_eq_true_eq] <;> omega
  simp only [shape, hfits, ha, Bool.not_true, Bool.false_eq_true, if_false]
  rw [if_neg (by omega)]

theorem shape_three (v : Nat) (hl : 0x7ff < v) (hh : v ≤ 0xffff) :
    shape [UInt8.ofNat (v / 4096 % 0x10 + 0xe0), UInt8.ofNat (v / 64 % 0x40 + 0x80),
      UInt8.ofNat (v % 0x40 + 0x80)] = .whole (Char.ofNat v) := by
  have ha := toNat_byte (show v / 4096 % 0x10 + 0xe0 < 256 by omega)
  have hb := toNat_byte (show v / 64 % 0x40 + 0x80 < 256 by omega)
  have hc := toNat_byte (show v % 0x40 + 0x80 < 256 by omega)
  have hv : ((v / 4096 % 0x10 + 0xe0 - 0xE0) * 64 + (v / 64 % 0x40 + 0x80 - 0x80)) * 64
      + (v % 0x40 + 0x80 - 0x80) = v := by omega
  simp only [shape, isTail_byte, ha, hb, hc, hv, Bool.not_true, Bool.false_eq_true, if_false]
  rw [if_pos (by omega)]

theorem shape_four_second (v : Nat) (hl : 0xffff < v) (hh : v < 0x110000) :
    shape [UInt8.ofNat (v / 262144 % 0x08 + 0xf0), UInt8.ofNat (v / 4096 % 0x40 + 0x80)]
      = .begun := by
  have ha := toNat_byte (show v / 262144 % 0x08 + 0xf0 < 256 by omega)
  have hb := toNat_byte (show v / 4096 % 0x40 + 0x80 < 256 by omega)
  have hfits : secondFits (UInt8.ofNat (v / 262144 % 0x08 + 0xf0))
      (UInt8.ofNat (v / 4096 % 0x40 + 0x80)) := by
    simp only [secondFits, isTail, ha, hb]
    split_ifs <;> simp only [Bool.and_eq_true, decide_eq_true_eq] <;> omega
  simp only [shape, hfits, ha, Bool.not_true, Bool.false_eq_true, if_false]
  rw [if_neg (by omega)]

theorem shape_four_third (v : Nat) (b : UInt8) :
    shape [UInt8.ofNat (v / 262144 % 0x08 + 0xf0), b, UInt8.ofNat (v / 64 % 0x40 + 0x80)]
      = .begun := by
  have ha := toNat_byte (show v / 262144 % 0x08 + 0xf0 < 256 by omega)
  simp only [shape, isTail_byte, ha, Bool.not_true, Bool.false_eq_true, if_false]
  rw [if_neg (by omega)]

theorem shape_four (v : Nat) (hl : 0xffff < v) (hh : v < 0x110000) :
    shape [UInt8.ofNat (v / 262144 % 0x08 + 0xf0), UInt8.ofNat (v / 4096 % 0x40 + 0x80),
      UInt8.ofNat (v / 64 % 0x40 + 0x80), UInt8.ofNat (v % 0x40 + 0x80)]
      = .whole (Char.ofNat v) := by
  have ha := toNat_byte (show v / 262144 % 0x08 + 0xf0 < 256 by omega)
  have hb := toNat_byte (show v / 4096 % 0x40 + 0x80 < 256 by omega)
  have hc := toNat_byte (show v / 64 % 0x40 + 0x80 < 256 by omega)
  have hd := toNat_byte (show v % 0x40 + 0x80 < 256 by omega)
  have hv : (((v / 262144 % 0x08 + 0xf0 - 0xF0) * 64 + (v / 4096 % 0x40 + 0x80 - 0x80)) * 64
      + (v / 64 % 0x40 + 0x80 - 0x80)) * 64 + (v % 0x40 + 0x80 - 0x80) = v := by omega
  simp only [shape, isTail_byte, ha, hb, hc, hd, hv, Bool.not_true, Bool.false_eq_true, if_false]

theorem scan_whole {c : Char} : scan [] (String.utf8EncodeChar c) = ⟨[c], [], false⟩ := by
  have hvalid : c.val.toNat < 0xD800 ∨ (0xDFFF < c.val.toNat ∧ c.val.toNat < 0x110000) := c.valid
  have hc : Char.ofNat c.val.toNat = c := Char.ofNat_toNat c
  simp only [String.utf8EncodeChar]
  split_ifs with h1 h2 h3
  · rw [scan_cons, step_whole (shape_ascii _ h1), hc]; rfl
  · rw [scan_cons, step_begun (shape_lead _ (by omega) (by omega)), Reading.nothing_andThen,
      scan_cons, step_whole (shape_two _ (by omega) h2), hc]; rfl
  · rw [scan_cons, step_begun (shape_lead _ (by omega) (by omega)), Reading.nothing_andThen,
      scan_cons, step_begun (shape_three_begun _ (by omega) h3 (by omega)),
      Reading.nothing_andThen, scan_cons, step_whole (shape_three _ (by omega) h3), hc]; rfl
  · rw [scan_cons, step_begun (shape_lead _ (by omega) (by omega)), Reading.nothing_andThen,
      scan_cons, step_begun (shape_four_second _ (by omega) (by omega)),
      Reading.nothing_andThen, scan_cons, step_begun (shape_four_third _ _),
      Reading.nothing_andThen, scan_cons, step_whole (shape_four _ (by omega) (by omega)), hc]; rfl

theorem scan_encode (text : List Char) : scan [] (encode text) = ⟨text, [], false⟩ := by
  induction text with
  | nil => rfl
  | cons c text ih =>
    show scan [] (String.utf8EncodeChar c ++ encode text) = _
    rw [scan_append, scan_whole, ih]
    rfl

-- The bytes of a text are those by which texts are represented.
theorem toByteArray_encode (text : String) : (encode text.toList).toByteArray = text.toUTF8 := by
  rw [String.toUTF8_eq_toByteArray, ← String.utf8Encode_toList]
  rfl

end Concordance.Text.Utf8
