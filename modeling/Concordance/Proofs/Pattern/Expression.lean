import Mathlib.Computability.Language

namespace Concordance.Expression

open scoped Computability

-- What an expression asks of one character.
inductive Sign where
  -- a dot: any character that does not end the line
  | any
  -- a character that stands for itself
  | char (c : Char)

-- A sign, once or with a star any number of times.
structure Part where
  sign : Sign
  starred : Bool

-- The characters that mean something else, in one dialect of regular expressions or another.
def special : List Char := ['\\', '[', ']', '(', ')', '{', '}', '|', '+', '?', '^', '$', '*']

def Sign.ofChar? (c : Char) : Option Sign :=
  if c = '.' then some .any else if c ∈ special then none else some (.char c)

-- The parts of an expression that is written with dots and stars only. Any other is not read.
def read? : List Char → Option (List Part)
  | [] => some []
  | c :: '*' :: cs => (Sign.ofChar? c).bind fun sign => (read? cs).map (⟨sign, true⟩ :: ·)
  | c :: cs => (Sign.ofChar? c).bind fun sign => (read? cs).map (⟨sign, false⟩ :: ·)

def Sign.language : Sign → Language Char
  | any => {word | ∃ c, c ≠ '\n' ∧ word = [c]}
  | char c => {[c]}

def Part.language (p : Part) : Language Char :=
  if p.starred then p.sign.language∗ else p.sign.language

-- The words that the parts stand for one after another.
def language (parts : List Part) : Language Char := (parts.map Part.language).prod

-- An expression is looked for anywhere in a text, as it is tied to neither end.
def Matches (parts : List Part) (text : String) : Prop :=
  ∃ word ∈ language parts, word <:+: text.toList

theorem mem_language_nil {word : List Char} : word ∈ language [] ↔ word = [] :=
  Language.mem_one word

theorem mem_language_char_cons {c : Char} {parts : List Part} {word : List Char} :
    word ∈ language (⟨.char c, false⟩ :: parts) ↔
      ∃ rest ∈ language parts, word = c :: rest := by
  rw [language, List.map_cons, List.prod_cons, ← language, Language.mem_mul]
  constructor
  · rintro ⟨first, hfirst, rest, hrest, rfl⟩
    cases hfirst
    exact ⟨rest, hrest, rfl⟩
  · rintro ⟨rest, hrest, rfl⟩
    exact ⟨[c], rfl, rest, hrest, rfl⟩

theorem mem_kstar_any {gap : List Char} : gap ∈ Sign.any.language∗ ↔ '\n' ∉ gap := by
  rw [Language.mem_kstar]
  constructor
  · rintro ⟨words, rfl, hwords⟩ hmem
    obtain ⟨word, hword, hnewline⟩ := List.mem_flatten.mp hmem
    obtain ⟨c, hc, rfl⟩ := hwords word hword
    exact hc (List.mem_singleton.mp hnewline).symm
  · intro hgap
    refine ⟨gap.map fun c => [c], ?_, ?_⟩
    · rw [← List.flatMap_def, List.flatMap_singleton']
    · intro word hword
      obtain ⟨c, hc, rfl⟩ := List.mem_map.mp hword
      exact ⟨c, fun hnewline => hgap (hnewline ▸ hc), rfl⟩

theorem mem_language_gap_cons {parts : List Part} {word : List Char} :
    word ∈ language (⟨.any, true⟩ :: parts) ↔
      ∃ gap, '\n' ∉ gap ∧ ∃ rest ∈ language parts, word = gap ++ rest := by
  rw [language, List.map_cons, List.prod_cons, ← language, Language.mem_mul]
  constructor
  · rintro ⟨gap, hgap, rest, hrest, rfl⟩
    exact ⟨gap, mem_kstar_any.mp hgap, rest, hrest, rfl⟩
  · rintro ⟨gap, hgap, rest, hrest, rfl⟩
    exact ⟨gap, mem_kstar_any.mpr hgap, rest, hrest, rfl⟩

end Concordance.Expression
