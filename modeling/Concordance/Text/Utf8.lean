namespace Concordance.Text.Utf8

-- What a few bytes are when read as the start of one encoded character.
inductive Shape where
  | whole (c : Char)
  | begun
  | broken
deriving DecidableEq, Repr

def isTail (b : UInt8) : Bool :=
  0x80 ≤ b.toNat && b.toNat ≤ 0xBF

-- The bytes that may follow the first byte of a longer character.
def secondFits (a b : UInt8) : Bool :=
  if a.toNat = 0xE0 then 0xA0 ≤ b.toNat && b.toNat ≤ 0xBF
  else if a.toNat = 0xED then 0x80 ≤ b.toNat && b.toNat ≤ 0x9F
  else if a.toNat = 0xF0 then 0x90 ≤ b.toNat && b.toNat ≤ 0xBF
  else if a.toNat = 0xF4 then 0x80 ≤ b.toNat && b.toNat ≤ 0x8F
  else isTail b

-- Reads up to four bytes as one character. Overlong forms, surrogates and
-- values above the last code point are broken at the first byte that shows it.
def shape : List UInt8 → Shape
  | [a] =>
    if a.toNat < 0x80 then .whole (Char.ofNat a.toNat)
    else if 0xC2 ≤ a.toNat ∧ a.toNat ≤ 0xF4 then .begun
    else .broken
  | [a, b] =>
    if !secondFits a b then .broken
    else if a.toNat < 0xE0 then .whole (Char.ofNat ((a.toNat - 0xC0) * 64 + (b.toNat - 0x80)))
    else .begun
  | [a, b, c] =>
    if !isTail c then .broken
    else if a.toNat < 0xF0 then
      .whole (Char.ofNat (((a.toNat - 0xE0) * 64 + (b.toNat - 0x80)) * 64 + (c.toNat - 0x80)))
    else .begun
  | [a, b, c, d] =>
    if !isTail d then .broken
    else
      .whole (Char.ofNat
        ((((a.toNat - 0xF0) * 64 + (b.toNat - 0x80)) * 64 + (c.toNat - 0x80)) * 64
          + (d.toNat - 0x80)))
  | _ => .broken

-- The character that stands for bytes no character has.
def replacement : Char := Char.ofNat 0xFFFD

-- What came of some bytes: the characters read, the bytes of a character still
-- incomplete, and whether a broken sequence was met.
structure Reading where
  chars : List Char
  held : List UInt8
  broken : Bool
deriving DecidableEq, Repr

def Reading.andThen (first second : Reading) : Reading :=
  ⟨first.chars ++ second.chars, second.held, first.broken || second.broken⟩

-- Reads a byte with which a character has to begin.
def start (b : UInt8) : Reading :=
  match shape [b] with
  | .whole c => ⟨[c], [], false⟩
  | .begun => ⟨[], [b], false⟩
  | .broken => ⟨[replacement], [], true⟩

-- Reads one byte after the held ones. A byte that cannot go on closes the open
-- character as broken and is then read on its own.
def step (held : List UInt8) (b : UInt8) : Reading :=
  if held.isEmpty then start b
  else
    match shape (held ++ [b]) with
    | .whole c => ⟨[c], [], false⟩
    | .begun => ⟨[], held ++ [b], false⟩
    | .broken => Reading.andThen ⟨[replacement], [], true⟩ (start b)

def scan (held : List UInt8) : List UInt8 → Reading
  | [] => ⟨[], held, false⟩
  | b :: bytes =>
    let first := step held b
    first.andThen (scan first.held bytes)

-- Ends the input: a character still incomplete is broken.
def Reading.close (r : Reading) : Reading :=
  if r.held.isEmpty then r
  else ⟨r.chars ++ [replacement], [], true⟩

-- Decodes any bytes; each longest broken sequence gives one replacement character.
def decodeLossy (bytes : List UInt8) : List Char :=
  (scan [] bytes).close.chars

-- Decodes bytes that are an encoded text, and nothing else.
def decode? (bytes : List UInt8) : Option (List Char) :=
  let r := (scan [] bytes).close
  if r.broken then none else some r.chars

def encode (text : List Char) : List UInt8 :=
  text.flatMap String.utf8EncodeChar

theorem scan_append (held a b : List UInt8) :
    scan held (a ++ b) = (scan held a).andThen (scan (scan held a).held b) := by
  induction a generalizing held with
  | nil => simp [scan, Reading.andThen]
  | cons x a ih => simp [scan, ih, Reading.andThen, Bool.or_assoc]

end Concordance.Text.Utf8
