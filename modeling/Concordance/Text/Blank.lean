namespace Concordance.Text

-- A character is blank when it has the White_Space property of Unicode.
def isBlank (c : Char) : Bool :=
  let n := c.toNat
  (0x09 ≤ n && n ≤ 0x0D) || n == 0x20 || n == 0x85 || n == 0xA0 || n == 0x1680
    || (0x2000 ≤ n && n ≤ 0x200A) || n == 0x2028 || n == 0x2029 || n == 0x202F
    || n == 0x205F || n == 0x3000

-- The characters of a list up to its last one outside `p`.
def dropEndWhile (p : Char → Bool) (cs : List Char) : List Char :=
  (cs.reverse.dropWhile p).reverse

-- A text without the blanks at its two ends.
def trimmed (cs : List Char) : List Char :=
  dropEndWhile isBlank (cs.dropWhile isBlank)

def trim (s : String) : String :=
  String.ofList (trimmed s.toList)

-- The leading word of a text: its longest start without a blank, and the rest.
def word (cs : List Char) : List Char × List Char :=
  cs.span (fun c => !isBlank c)

-- The leading blanks of a text, and the rest.
def gap (cs : List Char) : List Char × List Char :=
  cs.span isBlank

@[simp] theorem toList_trim (s : String) : (trim s).toList = trimmed s.toList := by
  simp [trim]

end Concordance.Text
