import Concordance.Proofs.Text.Utf8.Encoding

namespace Concordance.Text.Utf8

-- The bytes with which a longer character may begin.
def Begun : List UInt8 → Prop
  | [] => True
  | [a] => 0xC2 ≤ a.toNat ∧ a.toNat ≤ 0xF4
  | [a, b] => 0xE0 ≤ a.toNat ∧ a.toNat ≤ 0xF4 ∧ secondFits a b = true
  | [a, b, c] =>
    0xF0 ≤ a.toNat ∧ a.toNat ≤ 0xF4 ∧ secondFits a b = true ∧ isTail c = true
  | _ => False

theorem begun_nil : Begun [] := trivial

theorem begun_snoc {held : List UInt8} {b : UInt8} (h : Begun held)
    (hshape : shape (held ++ [b]) = .begun) : Begun (held ++ [b]) := by
  rcases held with _ | ⟨a, _ | ⟨c, _ | ⟨d, _ | ⟨e, rest⟩⟩⟩⟩
  · simp only [List.nil_append, shape] at hshape
    split_ifs at hshape with hascii hlead
    exact hlead
  · obtain ⟨-, hhigh⟩ := h
    simp only [List.cons_append, List.nil_append, shape] at hshape
    split_ifs at hshape with hfits htwo
    exact ⟨by omega, hhigh, by simpa using hfits⟩
  · obtain ⟨-, hhigh, hfits⟩ := h
    simp only [List.cons_append, List.nil_append, shape] at hshape
    split_ifs at hshape with htail hthree
    exact ⟨by omega, hhigh, hfits, by simpa using htail⟩
  · simp only [List.cons_append, List.nil_append, shape] at hshape
    split_ifs at hshape
  · exact h.elim

private theorem ofNat_eq {n : Nat} {a : UInt8} (h : n = a.toNat) : UInt8.ofNat n = a := by
  rw [h, UInt8.ofNat_toNat]

private theorem val_ofNat {n : Nat} (h : n < 0xD800 ∨ (0xDFFF < n ∧ n < 0x110000)) :
    (Char.ofNat n).val.toNat = n := by
  have hvalid : n.isValidChar := h
  rw [Char.ofNat, dif_pos hvalid]
  rfl

theorem bounds_of_isTail {b : UInt8} (h : isTail b = true) :
    0x80 ≤ b.toNat ∧ b.toNat ≤ 0xBF := by
  simpa only [isTail, Bool.and_eq_true, decide_eq_true_eq] using h

theorem secondFits_bounds {a b : UInt8} (h : secondFits a b = true) :
    (0x80 ≤ b.toNat ∧ b.toNat ≤ 0xBF) ∧ (a.toNat = 0xE0 → 0xA0 ≤ b.toNat) ∧
      (a.toNat = 0xED → b.toNat ≤ 0x9F) ∧ (a.toNat = 0xF0 → 0x90 ≤ b.toNat) ∧
      (a.toNat = 0xF4 → b.toNat ≤ 0x8F) := by
  refine ⟨bounds_of_isTail (isTail_of_secondFits h), ?_⟩
  unfold secondFits isTail at h
  split_ifs at h <;> simp only [Bool.and_eq_true, decide_eq_true_eq] at h <;> omega

theorem encode_ascii {a : UInt8} (ha : a.toNat < 0x80) :
    String.utf8EncodeChar (Char.ofNat a.toNat) = [a] := by
  have hval := val_ofNat (n := a.toNat) (by omega)
  simp only [String.utf8EncodeChar, hval]
  rw [if_pos (by omega), UInt8.ofNat_toNat]

theorem encode_two {a b : UInt8} (ha : 0xC2 ≤ a.toNat) (ha' : a.toNat < 0xE0)
    (hb : 0x80 ≤ b.toNat ∧ b.toNat ≤ 0xBF) :
    String.utf8EncodeChar (Char.ofNat ((a.toNat - 0xC0) * 64 + (b.toNat - 0x80))) = [a, b] := by
  have hval := val_ofNat (n := (a.toNat - 0xC0) * 64 + (b.toNat - 0x80)) (by omega)
  simp only [String.utf8EncodeChar, hval]
  rw [if_neg (by omega), if_pos (by omega), ofNat_eq (a := a) (by omega),
    ofNat_eq (a := b) (by omega)]

theorem encode_three {a b c : UInt8} (ha : 0xE0 ≤ a.toNat) (ha' : a.toNat < 0xF0)
    (hfits : secondFits a b = true) (hc : 0x80 ≤ c.toNat ∧ c.toNat ≤ 0xBF) :
    String.utf8EncodeChar (Char.ofNat
      (((a.toNat - 0xE0) * 64 + (b.toNat - 0x80)) * 64 + (c.toNat - 0x80))) = [a, b, c] := by
  obtain ⟨hb, hoverlong, hsurrogate, -, -⟩ := secondFits_bounds hfits
  have hval := val_ofNat
    (n := ((a.toNat - 0xE0) * 64 + (b.toNat - 0x80)) * 64 + (c.toNat - 0x80)) (by omega)
  simp only [String.utf8EncodeChar, hval]
  rw [if_neg (by omega), if_neg (by omega), if_pos (by omega), ofNat_eq (a := a) (by omega),
    ofNat_eq (a := b) (by omega), ofNat_eq (a := c) (by omega)]

theorem encode_four {a b c d : UInt8} (ha : 0xF0 ≤ a.toNat) (ha' : a.toNat ≤ 0xF4)
    (hfits : secondFits a b = true) (hc : 0x80 ≤ c.toNat ∧ c.toNat ≤ 0xBF)
    (hd : 0x80 ≤ d.toNat ∧ d.toNat ≤ 0xBF) :
    String.utf8EncodeChar (Char.ofNat
      ((((a.toNat - 0xF0) * 64 + (b.toNat - 0x80)) * 64 + (c.toNat - 0x80)) * 64
        + (d.toNat - 0x80))) = [a, b, c, d] := by
  obtain ⟨hb, -, -, hoverlong, hlast⟩ := secondFits_bounds hfits
  have hval := val_ofNat
    (n := (((a.toNat - 0xF0) * 64 + (b.toNat - 0x80)) * 64 + (c.toNat - 0x80)) * 64
      + (d.toNat - 0x80)) (by omega)
  simp only [String.utf8EncodeChar, hval]
  rw [if_neg (by omega), if_neg (by omega), if_neg (by omega), ofNat_eq (a := a) (by omega),
    ofNat_eq (a := b) (by omega), ofNat_eq (a := c) (by omega), ofNat_eq (a := d) (by omega)]

-- The bytes that were read as a character are those by which it is encoded.
theorem encode_of_whole {held : List UInt8} {b : UInt8} {ch : Char} (h : Begun held)
    (hshape : shape (held ++ [b]) = .whole ch) : String.utf8EncodeChar ch = held ++ [b] := by
  rcases held with _ | ⟨a, _ | ⟨c, _ | ⟨d, _ | ⟨e, rest⟩⟩⟩⟩
  · simp only [List.nil_append, shape] at hshape
    split_ifs at hshape with hascii
    rw [← Shape.whole.inj hshape]
    exact encode_ascii hascii
  · obtain ⟨hlow, -⟩ := h
    simp only [List.cons_append, List.nil_append, shape] at hshape
    split_ifs at hshape with hfits htwo
    rw [← Shape.whole.inj hshape]
    exact encode_two hlow htwo (bounds_of_isTail (isTail_of_secondFits (by simpa using hfits)))
  · obtain ⟨hlow, -, hfits⟩ := h
    simp only [List.cons_append, List.nil_append, shape] at hshape
    split_ifs at hshape with htail hthree
    rw [← Shape.whole.inj hshape]
    exact encode_three hlow hthree hfits (bounds_of_isTail (by simpa using htail))
  · obtain ⟨hlow, hhigh, hfits, hthird⟩ := h
    simp only [List.cons_append, List.nil_append, shape] at hshape
    split_ifs at hshape with htail
    rw [← Shape.whole.inj hshape]
    exact encode_four hlow hhigh hfits (bounds_of_isTail hthird)
      (bounds_of_isTail (by simpa using htail))
  · exact h.elim

theorem Begun.length_le {held : List UInt8} (h : Begun held) : held.length ≤ 3 := by
  rcases held with _ | ⟨a, _ | ⟨b, _ | ⟨c, _ | ⟨d, rest⟩⟩⟩⟩
  · exact Nat.zero_le 3
  · exact Nat.le_of_ble_eq_true rfl
  · exact Nat.le_of_ble_eq_true rfl
  · exact Nat.le_refl 3
  · exact h.elim

-- Some character is encoded by these bytes and more.
def Unfinished (held : List UInt8) : Prop :=
  ∃ (c : Char) (rest : List UInt8), rest ≠ [] ∧ String.utf8EncodeChar c = held ++ rest

theorem Unfinished.of_snoc {held : List UInt8} {b : UInt8} (h : Unfinished (held ++ [b])) :
    Unfinished held := by
  obtain ⟨c, rest, -, hencode⟩ := h
  refine ⟨c, b :: rest, List.cons_ne_nil _ _, ?_⟩
  rw [hencode, List.append_assoc]
  rfl

theorem exists_secondFits (a : UInt8) : ∃ b, secondFits a b = true := by
  by_cases h0 : a.toNat = 0xE0
  · exact ⟨0xA0, by rw [secondFits, if_pos h0]; rfl⟩
  · by_cases hd : a.toNat = 0xED
    · exact ⟨0x80, by rw [secondFits, if_neg h0, if_pos hd]; rfl⟩
    · by_cases hf : a.toNat = 0xF0
      · exact ⟨0x90, by rw [secondFits, if_neg h0, if_neg hd, if_pos hf]; rfl⟩
      · exact ⟨0x80, by rw [secondFits, if_neg h0, if_neg hd, if_neg hf]; split_ifs <;> rfl⟩

private theorem unfinished_three {a b c : UInt8} (h : Begun [a, b, c]) : Unfinished [a, b, c] := by
  obtain ⟨hlow, hhigh, hfits, htail⟩ := h
  exact ⟨_, [0x80], List.cons_ne_nil _ _,
    encode_four hlow hhigh hfits (bounds_of_isTail htail) (by decide)⟩

private theorem unfinished_two {a b : UInt8} (h : Begun [a, b]) : Unfinished [a, b] := by
  obtain ⟨hlow, hhigh, hfits⟩ := h
  by_cases hthree : a.toNat < 0xF0
  · exact ⟨_, [0x80], List.cons_ne_nil _ _, encode_three hlow hthree hfits (by decide)⟩
  · exact .of_snoc (unfinished_three (c := 0x80) ⟨by omega, hhigh, hfits, rfl⟩)

private theorem unfinished_one {a : UInt8} (h : Begun [a]) : Unfinished [a] := by
  obtain ⟨hlow, hhigh⟩ := h
  by_cases htwo : a.toNat < 0xE0
  · exact ⟨_, [0x80], List.cons_ne_nil _ _, encode_two hlow htwo (by decide)⟩
  · obtain ⟨b, hfits⟩ := exists_secondFits a
    exact .of_snoc (unfinished_two (b := b) ⟨by omega, hhigh, hfits⟩)

-- Held bytes are always the beginning of some character, and never a whole one.
theorem Begun.unfinished {held : List UInt8} (h : Begun held) : Unfinished held := by
  rcases held with _ | ⟨a, _ | ⟨b, _ | ⟨c, _ | ⟨d, rest⟩⟩⟩⟩
  · exact ⟨'\n', [0x0A], List.cons_ne_nil _ _, by decide⟩
  · exact unfinished_one h
  · exact unfinished_two h
  · exact unfinished_three h
  · exact h.elim

-- What a reading without a broken sequence makes of the bytes that it took: characters, whose
-- encoding they are, and the beginning of one more.
structure Reading.Reads (r : Reading) (bytes : List UInt8) : Prop where
  bytes_eq : bytes = encode r.chars ++ r.held
  begun : Begun r.held

theorem encode_append (a b : List Char) : encode (a ++ b) = encode a ++ encode b :=
  List.flatMap_append

theorem step_broken {held : List UInt8} {b : UInt8} (h : shape (held ++ [b]) = .broken) :
    (step held b).broken = true ∧ replacement ∈ (step held b).chars := by
  cases held with
  | nil =>
    have hstep : step [] b = ⟨[replacement], [], true⟩ := by
      simp only [step, start, List.isEmpty_nil, if_true, show shape [b] = .broken from h]
    rw [hstep]
    exact ⟨rfl, List.mem_singleton_self _⟩
  | cons a held =>
    rw [step_of_broken h]
    exact ⟨rfl, List.mem_cons_self⟩

theorem step_reads {held : List UInt8} {b : UInt8} (h : Begun held)
    (hsound : (step held b).broken = false) : (step held b).Reads (held ++ [b]) := by
  cases hshape : shape (held ++ [b]) with
  | whole c =>
    rw [step_whole hshape]
    refine ⟨?_, begun_nil⟩
    rw [← encode_of_whole h hshape, encode, List.flatMap_singleton, List.append_nil]
  | begun =>
    rw [step_begun hshape]
    exact ⟨rfl, begun_snoc h hshape⟩
  | broken =>
    rw [(step_broken hshape).1] at hsound
    cases hsound

theorem scan_reads {held bytes : List UInt8} (h : Begun held)
    (hsound : (scan held bytes).broken = false) : (scan held bytes).Reads (held ++ bytes) := by
  induction bytes generalizing held with
  | nil => exact ⟨List.append_nil held, h⟩
  | cons b bytes ih =>
    rw [scan_cons, Reading.andThen, Bool.or_eq_false_iff] at hsound
    have hfirst := step_reads h hsound.1
    have hrest := ih hfirst.begun hsound.2
    refine ⟨?_, hrest.begun⟩
    calc held ++ b :: bytes = held ++ [b] ++ bytes := by simp
      _ = encode (step held b).chars ++ ((step held b).held ++ bytes) := by
        rw [hfirst.bytes_eq, List.append_assoc]
      _ = _ := by
        rw [hrest.bytes_eq, ← List.append_assoc, ← encode_append]
        rfl

-- Decoding succeeds on the encodings of texts and on nothing else.
theorem decode?_eq_some_iff {bytes : List UInt8} {text : List Char} :
    decode? bytes = some text ↔ bytes = encode text := by
  constructor
  · intro h
    have hclose : (scan [] bytes).close.broken = false ∧ (scan [] bytes).close.chars = text := by
      simpa [decode?] using h
    obtain ⟨hsound, hchars⟩ := hclose
    unfold Reading.close at hsound hchars
    split_ifs at hsound hchars with hheld
    have hreads := (scan_reads begun_nil hsound).bytes_eq
    rwa [List.isEmpty_iff.mp hheld, List.append_nil, hchars] at hreads
  · rintro rfl
    rw [decode?, scan_encode]
    rfl

-- Where nothing is lost, both ways of decoding agree.
theorem decodeLossy_of_decode? {bytes : List UInt8} {text : List Char}
    (h : decode? bytes = some text) : decodeLossy bytes = text := by
  rw [decode?_eq_some_iff.mp h, decodeLossy, scan_encode]
  rfl

theorem decode?_eq_some_toList_iff {bytes : List UInt8} {text : String} :
    decode? bytes = some text.toList ↔ bytes.toByteArray = text.toUTF8 := by
  rw [decode?_eq_some_iff, ← toByteArray_encode, List.toByteArray_inj]

theorem replacement_mem_step {held : List UInt8} {b : UInt8} (h : (step held b).broken = true) :
    replacement ∈ (step held b).chars := by
  cases hshape : shape (held ++ [b]) with
  | whole c =>
    rw [step_whole hshape] at h
    cases h
  | begun =>
    rw [step_begun hshape] at h
    cases h
  | broken => exact (step_broken hshape).2

-- Bytes that no text is encoded by leave their mark.
theorem replacement_mem_scan {held bytes : List UInt8} (h : (scan held bytes).broken = true) :
    replacement ∈ (scan held bytes).chars := by
  induction bytes generalizing held with
  | nil => cases h
  | cons b bytes ih =>
    rw [scan_cons, Reading.andThen, Bool.or_eq_true] at h
    rw [scan_cons, Reading.andThen, List.mem_append]
    rcases h with hfirst | hrest
    · exact Or.inl (replacement_mem_step hfirst)
    · exact Or.inr (ih hrest)

theorem replacement_mem_decodeLossy {bytes : List UInt8} (h : decode? bytes = none) :
    replacement ∈ decodeLossy bytes := by
  have hbroken : (scan [] bytes).close.broken = true := by simpa [decode?] using h
  unfold decodeLossy
  unfold Reading.close at hbroken ⊢
  split_ifs at hbroken ⊢
  · exact replacement_mem_scan hbroken
  · exact List.mem_append_right _ (List.mem_singleton_self _)

end Concordance.Text.Utf8
