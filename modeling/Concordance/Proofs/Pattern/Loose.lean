import Concordance.Proofs.Pattern.Expression
import Concordance.Proofs.Project.Search
import Concordance.Proofs.Tagging.Requests
import Concordance.Tool.Script

namespace Concordance

namespace Pattern

open Expression

theorem gapped_eq (cs : List Char) :
    gapped cs = ['.', '*'].intercalate (cs.map fun c => [c]) := by
  induction cs with
  | nil => rfl
  | cons c cs ih =>
    cases cs with
    | nil => rfl
    | cons d cs =>
      rw [gapped, ih]
      simp [List.intercalate]

-- A sign for each letter, and a gap between one and the next.
def partsOf : List Char → List Part
  | [] => []
  | [c] => [⟨.char c, false⟩]
  | c :: d :: cs => ⟨.char c, false⟩ :: ⟨.any, true⟩ :: partsOf (d :: cs)

theorem ofChar?_of_isAlphanum {c : Char} (h : c.isAlphanum = true) :
    Sign.ofChar? c = some (.char c) := by
  have hdot : c ≠ '.' := by
    rintro rfl
    exact absurd h (by decide)
  have hspecial : c ∉ special := by
    intro hmem
    have hall : special.all (fun c => !c.isAlphanum) = true := by decide
    have hc := List.all_eq_true.mp hall c hmem
    rw [h] at hc
    cases hc
  rw [Sign.ofChar?, if_neg hdot, if_neg hspecial]

theorem read?_gapped {cs : List Char} (h : ∀ c ∈ cs, c.isAlphanum = true) :
    read? (gapped cs) = some (partsOf cs) := by
  induction cs with
  | nil => rfl
  | cons c cs ih =>
    obtain ⟨hc, hcs⟩ := List.forall_mem_cons.mp h
    cases cs with
    | nil => simp [gapped, read?, partsOf, ofChar?_of_isAlphanum hc]
    | cons d cs =>
      have hdot : Sign.ofChar? '.' = some .any := rfl
      simp [gapped, read?, partsOf, ofChar?_of_isAlphanum hc, hdot, ih hcs]

theorem sublist_of_mem_language {cs word : List Char} (h : word ∈ language (partsOf cs)) :
    cs.Sublist word := by
  induction cs generalizing word with
  | nil => exact List.nil_sublist word
  | cons c cs ih =>
    cases cs with
    | nil =>
      obtain ⟨rest, -, rfl⟩ := mem_language_char_cons.mp h
      exact (List.nil_sublist rest).cons_cons c
    | cons d cs =>
      obtain ⟨after, hafter, rfl⟩ := mem_language_char_cons.mp h
      obtain ⟨gap, -, rest, hrest, rfl⟩ := mem_language_gap_cons.mp hafter
      exact ((ih hrest).trans (List.sublist_append_right gap rest)).cons_cons c

theorem exists_append_of_cons_sublist {c : Char} {cs text : List Char}
    (h : (c :: cs).Sublist text) :
    ∃ before after, text = before ++ c :: after ∧ cs.Sublist after := by
  obtain ⟨first, rest, rfl, hmem, hrest⟩ := List.cons_sublist_iff.mp h
  obtain ⟨before, middle, rfl⟩ := List.append_of_mem hmem
  refine ⟨before, middle ++ rest, ?_, hrest.trans (List.sublist_append_right middle rest)⟩
  rw [List.append_assoc, List.cons_append]

-- The word starts at the first letter that is found and ends at the last. What lies between two of
-- them is a gap, as the text has one line only.
theorem exists_mem_language_of_sublist {c : Char} {cs text : List Char}
    (h : (c :: cs).Sublist text) (hline : '\n' ∉ text) :
    ∃ word ∈ language (partsOf (c :: cs)), word <:+: text := by
  induction cs generalizing c text with
  | nil =>
    obtain ⟨before, after, rfl, -⟩ := exists_append_of_cons_sublist h
    have hword : [c] ∈ language (partsOf [c]) :=
      mem_language_char_cons.mpr ⟨[], mem_language_nil.mpr rfl, rfl⟩
    exact ⟨[c], hword, before, after, by simp⟩
  | cons d cs ih =>
    obtain ⟨before, rest, rfl, hrest⟩ := exists_append_of_cons_sublist h
    have hlater : '\n' ∉ rest := fun hmem =>
      hline (List.mem_append_right before (List.mem_cons_of_mem c hmem))
    obtain ⟨word, hword, gap, after, rfl⟩ := ih hrest hlater
    have hgap : '\n' ∉ gap := fun hmem =>
      hlater (List.mem_append_left after (List.mem_append_left word hmem))
    have hall : c :: (gap ++ word) ∈ language (partsOf (c :: d :: cs)) :=
      mem_language_char_cons.mpr
        ⟨gap ++ word, mem_language_gap_cons.mpr ⟨gap, hgap, word, hword, rfl⟩, rfl⟩
    exact ⟨c :: (gap ++ word), hall, before, after, by simp⟩

theorem matches_partsOf_iff {cs : List Char} {text : String} (hline : '\n' ∉ text.toList) :
    Matches (partsOf cs) text ↔ cs.Sublist text.toList := by
  constructor
  · rintro ⟨word, hword, hinfix⟩
    exact (sublist_of_mem_language hword).trans hinfix.sublist
  · intro h
    cases cs with
    | nil => exact ⟨[], mem_language_nil.mpr rfl, List.nil_infix⟩
    | cons c cs => exact exists_mem_language_of_sublist h hline

theorem ofQuery?_eq_some_iff {query pattern : String} {least : Nat} :
    ofQuery? query least = some pattern ↔
      least ≤ query.toList.length ∧ letters query ≠ [] ∧
        pattern = String.ofList (gapped (letters query)) := by
  rw [ofQuery?]
  by_cases hshort : query.toList.length < least
  · rw [if_pos hshort]
    constructor
    · intro h
      cases h
    · exact fun h => absurd h.1 (Nat.not_le.mpr hshort)
  · rw [if_neg hshort]
    cases letters query with
    | nil => simp
    | cons c cs => simp [Nat.not_lt.mp hshort, eq_comm]

theorem exists_pattern_iff (query : String) (least : Nat) :
    (∃ pattern, ofQuery? query least = some pattern) ↔
      least ≤ query.toList.length ∧ ∃ c ∈ query.toList, c.isAlphanum = true := by
  have hletters : letters query ≠ [] ↔ ∃ c ∈ query.toList, c.isAlphanum = true := by
    rw [letters, ne_eq, List.filter_eq_nil_iff]
    simp
  rw [← hletters]
  simp only [ofQuery?_eq_some_iff]
  exact ⟨fun ⟨_, hlong, hne, _⟩ => ⟨hlong, hne⟩, fun ⟨hlong, hne⟩ => ⟨_, hlong, hne, rfl⟩⟩

-- A pattern for these letters and digits. It consists of them, with a gap between one and the next,
-- and as an expression it is found in a line just where they occur in their order.
structure IsLoose (kept : List Char) (pattern : String) : Prop where
  written : pattern.toList = ['.', '*'].intercalate (kept.map fun c => [c])
  first : ∃ c rest, pattern.toList = c :: rest ∧ c.isAlphanum = true
  matched : ∃ parts, read? pattern.toList = some parts ∧
    ∀ text : String, '\n' ∉ text.toList → (Matches parts text ↔ kept.Sublist text.toList)

theorem isLoose_gapped {kept : List Char} (hne : kept ≠ [])
    (h : ∀ c ∈ kept, c.isAlphanum = true) : IsLoose kept (String.ofList (gapped kept)) where
  written := by rw [String.toList_ofList, gapped_eq]
  first := by
    obtain ⟨c, cs, rfl⟩ := List.exists_cons_of_ne_nil hne
    rw [String.toList_ofList]
    cases cs with
    | nil => exact ⟨c, [], rfl, h c List.mem_cons_self⟩
    | cons d cs => exact ⟨c, _, rfl, h c List.mem_cons_self⟩
  matched := by
    rw [String.toList_ofList]
    exact ⟨partsOf kept, read?_gapped h, fun text hline => matches_partsOf_iff hline⟩

end Pattern

namespace Project

variable {σ : Type} (tools : Toolbox σ) (p : Project)

-- Of a query, the tools get to see its pattern alone.
theorem exists_calls_search {query pattern : String}
    (hpattern : Pattern.ofQuery? query p.config.fuzzyMinQuery = some pattern) (s : σ) :
    ∃ filenames : List String, ((p.search query).play tools s).calls =
      ⟨p.config.indexer, ["-ix", pattern]⟩ ::
        filenames.map fun filename => ⟨p.config.tagger, taggingArgs filename⟩ := by
  obtain ⟨asked, notices, outcome, s', hplay, -, hcourse⟩ := p.search_course tools query s
  rw [hplay]
  cases hcourse with
  | refused hnone => cases hnone.symm.trans hpattern
  | failed failure hsome =>
    cases hsome.symm.trans hpattern
    exact ⟨[], rfl⟩
  | plain hsome =>
    cases hsome.symm.trans hpattern
    exact ⟨[], rfl⟩
  | @enriched _ _ log _ _ hsome =>
    cases hsome.symm.trans hpattern
    refine ⟨log.map Prod.fst, ?_⟩
    rw [List.map_cons, TagLog.calls_trace]
    rfl

end Project

-- A query has a pattern when it is long enough and holds a letter or a digit. The pattern is made
-- of these alone, and no tool gets to see anything else of the query.
theorem Pattern.ofQuery?_loose (query : String) (least : Nat) :
    ((∃ pattern, ofQuery? query least = some pattern) ↔
      least ≤ query.toList.length ∧ ∃ c ∈ query.toList, c.isAlphanum = true) ∧
    ∀ pattern, ofQuery? query least = some pattern →
      IsLoose (query.toList.filter Char.isAlphanum) pattern ∧
        ∀ (σ : Type) (tools : Toolbox σ) (p : Project) (s : σ), p.config.fuzzyMinQuery = least →
          ∃ filenames : List String, ((p.search query).play tools s).calls =
            ⟨p.config.indexer, ["-ix", pattern]⟩ ::
              filenames.map fun filename => ⟨p.config.tagger, taggingArgs filename⟩ := by
  refine ⟨exists_pattern_iff query least, fun pattern hpattern => ⟨?_, ?_⟩⟩
  · obtain ⟨-, hne, rfl⟩ := ofQuery?_eq_some_iff.mp hpattern
    exact isLoose_gapped hne fun c hc => (List.mem_filter.mp hc).2
  · rintro σ tools p s rfl
    exact p.exists_calls_search tools hpattern s

theorem Pattern.ofQuery?_loose_option :
    let p : Project := ⟨{}, "/ws"⟩
    ofQuery? "-g(é)t" 2 = some "g.*t" ∧ IsLoose ['g', 't'] "g.*t" ∧
      (∃ parts, Expression.read? "g.*t".toList = some parts ∧
        Expression.Matches parts "get_tag" ∧ ¬ Expression.Matches parts "tag") ∧
      ∃ filenames : List String, ((p.search "-g(é)t").play Script.toolbox []).calls =
        ⟨"global", ["-ix", "g.*t"]⟩ ::
          filenames.map fun filename => ⟨"ctags", taggingArgs filename⟩ := by
  intro p
  have hpattern : ofQuery? "-g(é)t" 2 = some "g.*t" := by decide
  obtain ⟨-, hloose⟩ := ofQuery?_loose "-g(é)t" 2
  obtain ⟨hletters, hcalls⟩ := hloose "g.*t" hpattern
  have hkept : IsLoose ['g', 't'] "g.*t" := hletters
  obtain ⟨parts, hread, hmatches⟩ := hkept.matched
  have hfound := (hmatches "get_tag" (by decide)).mpr (by decide)
  have hlost := mt (hmatches "tag" (by decide)).mp (by decide)
  exact ⟨hpattern, hkept, ⟨parts, hread, hfound, hlost⟩, hcalls _ Script.toolbox p [] rfl⟩

end Concordance
