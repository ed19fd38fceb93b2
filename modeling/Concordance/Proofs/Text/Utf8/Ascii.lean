import Mathlib.Data.List.DropRight
import Concordance.Proofs.Text.Utf8.Decoding

namespace Concordance.Text.Utf8

-- Some bytes and a text that was read out of them, wherever they were cut and whatever was given
-- up on the way. A byte below 0x80 is a character of its own, and every other character stands
-- for a run of bytes above.
inductive ReadAs : List UInt8 → List Char → Prop
  | nil : ReadAs [] []
  | ascii {b : UInt8} {bytes : List UInt8} {text : List Char} (hb : b.toNat < 0x80)
      (rest : ReadAs bytes text) : ReadAs (b :: bytes) (Char.ofNat b.toNat :: text)
  | other {run bytes : List UInt8} {c : Char} {text : List Char} (hne : run ≠ [])
      (hrun : ∀ b ∈ run, 0x80 ≤ b.toNat) (hc : 0x80 ≤ c.toNat) (rest : ReadAs bytes text) :
      ReadAs (run ++ bytes) (c :: text)

namespace ReadAs

theorem append {a b : List UInt8} {s t : List Char} (h : ReadAs a s) (h' : ReadAs b t) :
    ReadAs (a ++ b) (s ++ t) := by
  induction h with
  | nil => exact h'
  | ascii hb _ ih => exact .ascii hb ih
  | other hne hrun hc _ ih =>
    rw [List.append_assoc]
    exact .other hne hrun hc ih

theorem run {bytes : List UInt8} {c : Char} (hne : bytes ≠ []) (hrun : ∀ b ∈ bytes, 0x80 ≤ b.toNat)
    (hc : 0x80 ≤ c.toNat) : ReadAs bytes [c] := by
  have h := other hne hrun hc nil
  rwa [List.append_nil] at h

end ReadAs

def isAscii (c : Char) : Bool := c.toNat < 0x80

-- The characters that stand for single bytes below 0x80.
def asciiOf (bytes : List UInt8) : List Char :=
  (bytes.filter fun b => b.toNat < 0x80).map fun b => Char.ofNat b.toNat

theorem toNat_ofNat_of_ascii {b : UInt8} (h : b.toNat < 0x80) :
    (Char.ofNat b.toNat).toNat = b.toNat := by
  have hvalid : b.toNat.isValidChar := Or.inl (by omega)
  rw [Char.ofNat, dif_pos hvalid]
  rfl

theorem ofNat_eq_iff {a b : UInt8} (ha : a.toNat < 0x80) (hb : b.toNat < 0x80) :
    Char.ofNat a.toNat = Char.ofNat b.toNat ↔ a = b := by
  constructor
  · intro h
    have hval := congrArg Char.toNat h
    rw [toNat_ofNat_of_ascii ha, toNat_ofNat_of_ascii hb] at hval
    exact UInt8.toNat_inj.mp hval
  · rintro rfl
    rfl

theorem ne_of_high {a b : UInt8} (hb : 0x80 ≤ b.toNat) (ha : a.toNat < 0x80) : b ≠ a := by
  rintro rfl
  omega

theorem ne_ofNat_of_high {a : UInt8} {c : Char} (hc : 0x80 ≤ c.toNat) (ha : a.toNat < 0x80) :
    c ≠ Char.ofNat a.toNat := by
  rintro rfl
  rw [toNat_ofNat_of_ascii ha] at hc
  omega

theorem head?_ne_of_high {run : List UInt8} {a : UInt8} (hne : run ≠ [])
    (hrun : ∀ b ∈ run, 0x80 ≤ b.toNat) (ha : a.toNat < 0x80) (bytes : List UInt8) :
    (run ++ bytes).head? ≠ some a := by
  obtain ⟨b, run, rfl⟩ := List.exists_cons_of_ne_nil hne
  have hb := ne_of_high (hrun b List.mem_cons_self) ha
  exact fun h => hb (Option.some.inj h)

namespace ReadAs

variable {bytes : List UInt8} {text : List Char}

theorem eq_nil_iff (h : ReadAs bytes text) : bytes = [] ↔ text = [] := by
  cases h with
  | nil => simp
  | ascii hb rest => simp
  | other hne hrun hc rest => simp [hne]

theorem filter_isAscii (h : ReadAs bytes text) : text.filter isAscii = asciiOf bytes := by
  induction h with
  | nil => rfl
  | @ascii b bytes text hb rest ih =>
    have hkept : isAscii (Char.ofNat b.toNat) = true := by
      rw [isAscii, toNat_ofNat_of_ascii hb]
      exact decide_eq_true hb
    rw [List.filter_cons_of_pos hkept, ih, asciiOf, asciiOf,
      List.filter_cons_of_pos (by simpa using hb), List.map_cons]
  | @other run bytes c text hne hrun hc rest ih =>
    have hnone : run.filter (fun b => b.toNat < 0x80) = [] := by
      rw [List.filter_eq_nil_iff]
      intro b hb
      have := hrun b hb
      simpa using this
    rw [List.filter_cons_of_neg (by simpa [isAscii] using hc), ih, asciiOf, asciiOf,
      List.filter_append, hnone, List.nil_append]

theorem reverse (h : ReadAs bytes text) : ReadAs bytes.reverse text.reverse := by
  induction h with
  | nil => exact .nil
  | ascii hb rest ih =>
    rw [List.reverse_cons, List.reverse_cons]
    exact ih.append (.ascii hb .nil)
  | other hne hrun hc rest ih =>
    rw [List.reverse_append, List.reverse_cons]
    exact ih.append (.run (by simpa using hne) (by simpa using hrun) hc)

-- An ASCII character stands at the one end where its byte does at the other.
theorem head?_eq_iff (h : ReadAs bytes text) {a : UInt8} (ha : a.toNat < 0x80) :
    bytes.head? = some a ↔ text.head? = some (Char.ofNat a.toNat) := by
  cases h with
  | nil => simp
  | ascii hb rest => simp [ofNat_eq_iff hb ha]
  | @other run bytes c text hne hrun hc rest =>
    have hchar : (c :: text).head? ≠ some (Char.ofNat a.toNat) :=
      fun h => ne_ofNat_of_high hc ha (Option.some.inj h)
    exact iff_of_false (head?_ne_of_high hne hrun ha bytes) hchar

theorem tail (h : ReadAs bytes text) {a : UInt8} (ha : a.toNat < 0x80)
    (hhead : bytes.head? = some a) : ReadAs bytes.tail text.tail := by
  cases h with
  | nil => exact .nil
  | ascii hb rest => exact rest
  | other hne hrun hc rest => exact absurd hhead (head?_ne_of_high hne hrun ha _)

theorem dropWhile (h : ReadAs bytes text) {a : UInt8} (ha : a.toNat < 0x80) :
    ReadAs (bytes.dropWhile (· = a)) (text.dropWhile (· = Char.ofNat a.toNat)) := by
  induction h with
  | nil => exact .nil
  | @ascii b bytes text hb rest ih =>
    by_cases hba : b = a
    · subst hba
      rwa [List.dropWhile_cons_of_pos (by simp), List.dropWhile_cons_of_pos (by simp)]
    · have hne : Char.ofNat b.toNat ≠ Char.ofNat a.toNat := mt (ofNat_eq_iff hb ha).mp hba
      rw [List.dropWhile_cons_of_neg (by simpa using hba),
        List.dropWhile_cons_of_neg (by simpa using hne)]
      exact .ascii hb rest
  | @other run bytes c text hne hrun hc rest ih =>
    obtain ⟨b, run, rfl⟩ := List.exists_cons_of_ne_nil hne
    have hbyte := ne_of_high (hrun b List.mem_cons_self) ha
    have hchar := ne_ofNat_of_high hc ha
    rw [List.cons_append, List.dropWhile_cons_of_neg (by simpa using hbyte),
      List.dropWhile_cons_of_neg (by simpa using hchar)]
    exact .other hne hrun hc rest

theorem rdropWhile (h : ReadAs bytes text) {a : UInt8} (ha : a.toNat < 0x80) :
    ReadAs (bytes.rdropWhile (· = a)) (text.rdropWhile (· = Char.ofNat a.toNat)) :=
  (h.reverse.dropWhile ha).reverse

end ReadAs

theorem replacement_high : 0x80 ≤ replacement.toNat := by decide

theorem Begun.high {held : List UInt8} (h : Begun held) : ∀ b ∈ held, 0x80 ≤ b.toNat := by
  rcases held with _ | ⟨a, _ | ⟨b, _ | ⟨c, _ | ⟨d, rest⟩⟩⟩⟩
  · exact fun b hb => absurd hb List.not_mem_nil
  · simp only [List.forall_mem_cons]
    exact ⟨by have := h.1; omega, fun b hb => absurd hb List.not_mem_nil⟩
  · obtain ⟨hlow, -, hfits⟩ := h
    have hb := bounds_of_isTail (isTail_of_secondFits hfits)
    simp only [List.forall_mem_cons]
    exact ⟨by omega, hb.1, fun b hb => absurd hb List.not_mem_nil⟩
  · obtain ⟨hlow, -, hfits, htail⟩ := h
    have hb := bounds_of_isTail (isTail_of_secondFits hfits)
    have hc := bounds_of_isTail htail
    simp only [List.forall_mem_cons]
    exact ⟨by omega, hb.1, hc.1, fun b hb => absurd hb List.not_mem_nil⟩
  · exact h.elim

-- The bytes that go on with held ones are no characters of their own.
theorem high_of_shape {a b : UInt8} {held : List UInt8} (h : shape (a :: held ++ [b]) ≠ .broken) :
    0x80 ≤ b.toNat := by
  have hjoins : joins (a :: held) [b] = true := by simpa [joins] using h
  exact (bounds_of_isTail (isTail_of_joins hjoins)).1

theorem high_of_encode {c : Char} {a b : UInt8} {bytes : List UInt8}
    (h : String.utf8EncodeChar c = a :: b :: bytes) : 0x80 ≤ c.toNat := by
  by_contra hc
  have hval : c.val.toNat ≤ 0x7f := by
    rw [Char.toNat_val]
    omega
  rw [String.utf8EncodeChar, if_pos hval] at h
  simp at h

-- A reading has made its characters of some bytes and holds the rest of them.
structure Reading.Accounts (r : Reading) (bytes : List UInt8) : Prop where
  exists_read : ∃ read, bytes = read ++ r.held ∧ ReadAs read r.chars
  begun : Begun r.held

namespace Reading.Accounts

variable {r first second : Reading} {a b bytes : List UInt8}

theorem andThen (h : first.Accounts a) (h' : second.Accounts (first.held ++ b)) :
    (first.andThen second).Accounts (a ++ b) := by
  obtain ⟨read, ha, hread⟩ := h.exists_read
  obtain ⟨read', hb, hread'⟩ := h'.exists_read
  refine ⟨⟨read ++ read', ?_, hread.append hread'⟩, h'.begun⟩
  rw [ha, List.append_assoc, hb, List.append_assoc]
  rfl

-- Held bytes that are given up are read as one more character.
theorem close (h : r.Accounts bytes) : ReadAs bytes r.close.chars := by
  obtain ⟨read, rfl, hread⟩ := h.exists_read
  rw [close_chars, abandoned]
  split_ifs with he
  · rw [List.isEmpty_iff.mp he]
    exact hread.append .nil
  · exact hread.append (.run (by simpa using he) h.begun.high replacement_high)

end Reading.Accounts

theorem start_accounts (b : UInt8) : (start b).Accounts [b] := by
  have hshape : shape [b] = if b.toNat < 0x80 then .whole (Char.ofNat b.toNat)
      else if 0xC2 ≤ b.toNat ∧ b.toNat ≤ 0xF4 then .begun else .broken := rfl
  unfold start
  by_cases hascii : b.toNat < 0x80
  · rw [hshape, if_pos hascii]
    exact ⟨⟨[b], rfl, .ascii hascii .nil⟩, begun_nil⟩
  · by_cases hlead : 0xC2 ≤ b.toNat ∧ b.toNat ≤ 0xF4
    · rw [hshape, if_neg hascii, if_pos hlead]
      exact ⟨⟨[], rfl, .nil⟩, hlead⟩
    · rw [hshape, if_neg hascii, if_neg hlead]
      have hhigh : ∀ x ∈ [b], 0x80 ≤ x.toNat := by
        rintro x hx
        rw [List.mem_singleton.mp hx]
        omega
      exact ⟨⟨[b], rfl, .run (List.cons_ne_nil _ _) hhigh replacement_high⟩, begun_nil⟩

theorem step_accounts {held : List UInt8} (b : UInt8) (h : Begun held) :
    (step held b).Accounts (held ++ [b]) := by
  cases held with
  | nil => exact start_accounts b
  | cons a held =>
    cases hshape : shape (a :: held ++ [b]) with
    | whole c =>
      have hsound : shape (a :: held ++ [b]) ≠ .broken := by
        rw [hshape]
        exact Shape.noConfusion
      have hhigh : ∀ x ∈ a :: held ++ [b], 0x80 ≤ x.toNat := by
        rw [List.forall_mem_append, List.forall_mem_singleton]
        exact ⟨h.high, high_of_shape hsound⟩
      have hencode := encode_of_whole h hshape
      have hc : 0x80 ≤ c.toNat := by
        cases held with
        | nil => exact high_of_encode hencode
        | cons a' held => exact high_of_encode hencode
      rw [step_whole hshape]
      exact ⟨⟨_, (List.append_nil _).symm, .run (by simp) hhigh hc⟩, begun_nil⟩
    | begun =>
      rw [step_begun hshape]
      exact ⟨⟨[], rfl, .nil⟩, begun_snoc h hshape⟩
    | broken =>
      -- the held bytes are given up as one character, and the byte begins anew
      have hgiven : (Reading.mk [replacement] [] true).Accounts (a :: held) :=
        ⟨⟨_, (List.append_nil _).symm, .run (List.cons_ne_nil _ _) h.high replacement_high⟩,
          begun_nil⟩
      rw [step_of_broken hshape]
      exact hgiven.andThen (start_accounts b)

theorem scan_accounts {held : List UInt8} (bytes : List UInt8) (h : Begun held) :
    (scan held bytes).Accounts (held ++ bytes) := by
  induction bytes generalizing held with
  | nil => exact ⟨⟨[], List.append_nil held, .nil⟩, h⟩
  | cons b bytes ih =>
    have hfirst := step_accounts b h
    have hboth := hfirst.andThen (ih hfirst.begun)
    rwa [List.append_assoc] at hboth

theorem Open.begun {held : List UInt8} (h : Open held) : Begun held := by
  have hbegun := (scan_accounts held begun_nil).begun
  rwa [h] at hbegun

theorem decodeLossy_readAs (bytes : List UInt8) : ReadAs bytes (decodeLossy bytes) :=
  (scan_accounts bytes begun_nil).close

end Concordance.Text.Utf8
