import Concordance.Declaration.Line
import Concordance.Occurrence.Line
import Concordance.Proofs.Text.LineEnds

namespace Concordance

open Concordance.Text

-- An output is read line by line. Lines that are put in between leave no trace exactly when none
-- of them can be read.
structure ReadsByLine {α : Type} (readLine : String → Option α) (read : String → List α) :
    Prop where
  append : ∀ before after, EndsLine before → read (before ++ after) = read before ++ read after
  insert_iff : ∀ before after texts, EndsLine before → (∀ text ∈ texts, '\n' ∉ text.toList) →
    (read (before ++ newlined texts ++ after) = read (before ++ after) ↔
      ∀ text ∈ texts, readLine (lineOf text) = none)
  terminated : ∀ ls : List (String × LineEnd), (∀ l ∈ ls, IsLine l.1) →
    read (terminated ls) = (ls.map Prod.fst).filterMap readLine

theorem readsByLine_filterMap {α : Type} (readLine : String → Option α) :
    ReadsByLine readLine fun output => (lines output).filterMap readLine where
  append before after hbefore := by
    rw [lines_append hbefore, List.filterMap_append]
  insert_iff before after texts hbefore htexts := by
    have hmiddle : before ++ newlined texts ++ after = before ++ (newlined texts ++ after) :=
      String.append_assoc
    rw [hmiddle, lines_append hbefore, lines_append hbefore, lines_newlined_append htexts]
    simp only [List.filterMap_append, List.append_cancel_left_eq, List.append_left_eq_self,
      List.filterMap_eq_nil_iff, List.forall_mem_map]
  terminated ls hls := by
    rw [lines_terminated hls]

-- Both tools are read line by line: outputs that follow each other are read one after the other,
-- what is no line of the tool is passed over wherever it stands, and lines may end in a newline
-- with or without a carriage return.
theorem outputs_readByLine :
    (∀ relation, ReadsByLine (Occurrence.ofLine? relation) (Occurrence.ofOutput relation)) ∧
      ReadsByLine Declaration.ofLine? Declaration.ofOutput :=
  ⟨fun relation => readsByLine_filterMap (Occurrence.ofLine? relation),
    readsByLine_filterMap Declaration.ofLine?⟩

-- A message of the indexer, a blank line and a line that is cut off, and lines of the tagging
-- tool with both ends.
def strayTexts : List String := ["global: GTAGS not found.", "", "foo 41 a.c\r"]

def mixedEnds : List (String × LineEnd) :=
  [("!_TAG_FILE_FORMAT\t2\t/extended format/", .newline),
    ("foo\ta.c\t/^int foo;$/;\"\tvariable\tline:3", .returnNewline),
    ("bar\ta.c\t/^int bar;$/;\"\tvariable\tline:9", .newline)]

theorem outputs_readByLine_stray :
    let before := "foo 3 a.c int foo;\r\n"
    let after := "foo 9 a.c foo = 1;\n"
    let occurrences : List Occurrence :=
      [⟨"foo", 3, "a.c", "int foo;", .referencedBy, none, ""⟩,
        ⟨"foo", 9, "a.c", "foo = 1;", .referencedBy, none, ""⟩]
    let declarations : List Declaration :=
      [⟨"foo", "a.c", "variable", 3, 3, "int foo;", Fields.empty⟩,
        ⟨"bar", "a.c", "variable", 9, 9, "int bar;", Fields.empty⟩]
    (EndsLine before ∧ ∀ text ∈ strayTexts, '\n' ∉ text.toList ∧
      Occurrence.ofLine? .referencedBy (lineOf text) = none) ∧
    Occurrence.ofOutput .referencedBy before ++ Occurrence.ofOutput .referencedBy after =
      occurrences ∧
    Occurrence.ofOutput .referencedBy (before ++ newlined strayTexts ++ after) = occurrences ∧
    (∀ l ∈ mixedEnds, IsLine l.1) ∧
    Declaration.ofOutput (terminated mixedEnds) = declarations := by
  intro before after occurrences declarations
  have hbefore : EndsLine before := Or.inr ⟨"foo 3 a.c int foo;\r", rfl⟩
  have hstray : ∀ text ∈ strayTexts, '\n' ∉ text.toList ∧
      Occurrence.ofLine? .referencedBy (lineOf text) = none := by decide +kernel
  have hline : ∀ l ∈ mixedEnds, IsLine l.1 := by decide +kernel
  have hparts : Occurrence.ofOutput .referencedBy before ++
      Occurrence.ofOutput .referencedBy after = occurrences := by decide +kernel
  have hlines : (mixedEnds.map Prod.fst).filterMap Declaration.ofLine? = declarations := by
    decide +kernel
  obtain ⟨hindexer, htagger⟩ := outputs_readByLine
  have hread := hindexer .referencedBy
  have hdeclarations := htagger.terminated mixedEnds hline
  refine ⟨⟨hbefore, hstray⟩, hparts, ?_, hline, hdeclarations.trans hlines⟩
  rw [← hparts, ← hread.append before after hbefore]
  refine (hread.insert_iff before after strayTexts hbefore fun text htext => ?_).mpr ?_
  · exact (hstray text htext).1
  · exact fun text htext => (hstray text htext).2

end Concordance
