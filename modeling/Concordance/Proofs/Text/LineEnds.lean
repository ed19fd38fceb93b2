import Concordance.Proofs.Text.Lines

namespace Concordance.Text

-- The text is empty or ends with a line, so that a new line begins behind it.
def EndsLine (text : String) : Prop := text = "" ∨ ∃ front, text = front ++ "\n"

-- What can end a line.
inductive LineEnd where
  | newline
  | returnNewline
deriving DecidableEq, Repr

def LineEnd.text : LineEnd → String
  | newline => "\n"
  | returnNewline => "\r\n"

-- Lines, each with its own end.
def terminated (ls : List (String × LineEnd)) : String :=
  String.join (ls.map fun l => l.1 ++ l.2.text)

-- A line as it is read. A carriage return right before the newline belongs to the end of the line.
def lineOf (beforeNewline : String) : String := String.ofList (dropReturn beforeNewline.toList)

def newlined (texts : List String) : String := String.join (texts.map (· ++ "\n"))

-- A line that shows where its end begins.
structure IsLine (line : String) : Prop where
  newline_notMem : '\n' ∉ line.toList
  getLast?_ne : line.toList.getLast? ≠ some '\r'

theorem isLine_iff {line : String} :
    IsLine line ↔ '\n' ∉ line.toList ∧ line.toList.getLast? ≠ some '\r' :=
  ⟨fun h => ⟨h.newline_notMem, h.getLast?_ne⟩, fun h => ⟨h.1, h.2⟩⟩

instance : DecidablePred IsLine := fun _ => decidable_of_iff' _ isLine_iff

theorem EndsLine.cut_snd {text : String} (h : EndsLine text) : (cut text.toList).2 = [] := by
  rcases h with rfl | ⟨front, rfl⟩
  · rfl
  · rw [String.toList_append]
    exact congrArg Prod.snd (cut_concat_newline front.toList)

-- Behind the end of a line nothing is left over, so what follows is cut as if it stood alone.
theorem lines_append {before : String} (h : EndsLine before) (after : String) :
    lines (before ++ after) = lines before ++ lines after := by
  have hcut := cut_append before.toList after.toList
  rw [h.cut_snd, List.nil_append] at hcut
  simp only [lines, splitLines, String.toList_append, hcut, h.cut_snd, List.map_append,
    List.isEmpty_nil, if_true, List.append_nil, List.append_assoc]

theorem cut_newlined_append {texts : List String} (h : ∀ text ∈ texts, '\n' ∉ text.toList)
    (after : List Char) :
    cut ((newlined texts).toList ++ after) =
      (texts.map String.toList ++ (cut after).1, (cut after).2) := by
  induction texts with
  | nil => rfl
  | cons text texts ih =>
    obtain ⟨htext, htexts⟩ := List.forall_mem_cons.mp h
    have hfirst : (newlined (text :: texts)).toList ++ after =
        (text.toList ++ ['\n']) ++ ((newlined texts).toList ++ after) := by
      simp [newlined]
    rw [hfirst, cut_append, cut_append_newline htext, List.nil_append, ih htexts]
    rfl

theorem cut_newlined {texts : List String} (h : ∀ text ∈ texts, '\n' ∉ text.toList) :
    cut (newlined texts).toList = (texts.map String.toList, []) := by
  have hcut := cut_newlined_append h []
  rwa [List.append_nil, cut, List.append_nil] at hcut

theorem lines_newlined_append {texts : List String} (h : ∀ text ∈ texts, '\n' ∉ text.toList)
    (after : String) : lines (newlined texts ++ after) = texts.map lineOf ++ lines after := by
  have hcut := cut_newlined_append h after.toList
  have hlineOf : String.ofList ∘ dropReturn ∘ String.toList = lineOf := rfl
  simp only [lines, splitLines, String.toList_append, hcut, List.map_append, List.map_map, hlineOf,
    List.append_assoc]

-- Texts that are put on lines of their own can be told from one another.
theorem newlined_inj {texts texts' : List String} (h : ∀ text ∈ texts, '\n' ∉ text.toList)
    (h' : ∀ text ∈ texts', '\n' ∉ text.toList) :
    newlined texts = newlined texts' ↔ texts = texts' := by
  refine ⟨fun heq => ?_, congrArg newlined⟩
  have hcut := cut_newlined h
  rw [heq, cut_newlined h', Prod.mk.injEq] at hcut
  exact ((List.map_inj_right fun _ _ => String.toList_inj.mp).mp hcut.1).symm

theorem count_newline_newlined {texts : List String} (h : ∀ text ∈ texts, '\n' ∉ text.toList) :
    (newlined texts).toList.count '\n' = texts.length := by
  rw [← length_cut_fst, cut_newlined h, List.length_map]

-- What an end of a line has before its newline.
def LineEnd.beforeNewline : LineEnd → String
  | newline => ""
  | returnNewline => "\r"

theorem IsLine.lineOf_beforeNewline {line : String} (h : IsLine line) (stop : LineEnd) :
    lineOf (line ++ stop.beforeNewline) = line := by
  cases stop with
  | newline =>
    rw [LineEnd.beforeNewline, String.append_empty, lineOf, dropReturn, if_neg h.getLast?_ne,
      String.ofList_toList]
  | returnNewline =>
    have hreturn : (line ++ "\r").toList = line.toList ++ ['\r'] := String.toList_append
    rw [LineEnd.beforeNewline, lineOf, dropReturn, hreturn, List.getLast?_concat, if_pos rfl,
      List.dropLast_concat, String.ofList_toList]

theorem IsLine.newline_notMem_beforeNewline {line : String} (h : IsLine line) (stop : LineEnd) :
    '\n' ∉ (line ++ stop.beforeNewline).toList := by
  rw [String.toList_append, List.mem_append, not_or]
  refine ⟨h.newline_notMem, ?_⟩
  cases stop <;> decide

theorem terminated_eq (ls : List (String × LineEnd)) :
    terminated ls = newlined (ls.map fun l => l.1 ++ l.2.beforeNewline) := by
  have hend : ∀ stop : LineEnd, stop.text = stop.beforeNewline ++ "\n" := by
    intro stop
    cases stop <;> rfl
  rw [terminated, newlined, List.map_map]
  congr 1
  refine List.map_congr_left fun l _ => ?_
  rw [hend, ← String.append_assoc]
  rfl

-- Lines come back whatever their ends are.
theorem lines_terminated {ls : List (String × LineEnd)} (h : ∀ l ∈ ls, IsLine l.1) :
    lines (terminated ls) = ls.map Prod.fst := by
  have hline : ∀ text ∈ ls.map fun l => l.1 ++ l.2.beforeNewline, '\n' ∉ text.toList := by
    rw [List.forall_mem_map]
    exact fun l hl => (h l hl).newline_notMem_beforeNewline l.2
  have hlines := lines_newlined_append hline ""
  rw [String.append_empty, List.map_map] at hlines
  rw [terminated_eq, hlines, show lines "" = [] from rfl, List.append_nil]
  exact List.map_congr_left fun l hl => (h l hl).lineOf_beforeNewline l.2

end Concordance.Text
