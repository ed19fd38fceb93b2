import Concordance.Path
import Concordance.Proofs.Text.Utf8.Ascii

namespace Concordance.Path

open Concordance.Text

def IsText (path : Path) : Prop := ∃ text : String, path = text

theorem text?_eq_some_iff {path : Path} {text : String} :
    path.text? = some text ↔ path = text := by
  rw [text?, Option.map_eq_some_iff]
  constructor
  · rintro ⟨chars, hchars, rfl⟩
    rw [ofText, String.toList_ofList, ← Utf8.decode?_eq_some_iff.mp hchars]
  · rintro rfl
    exact ⟨text.toList, Utf8.decode?_eq_some_iff.mpr rfl, String.ofList_toList⟩

theorem isSome_text?_iff {path : Path} : path.text?.isSome ↔ path.IsText := by
  simp only [Option.isSome_iff_exists, text?_eq_some_iff, IsText]

theorem isAbsolute_ofText (text : String) :
    (ofText text).isAbsolute = true ↔ text.toList.head? = some '/' := by
  have hdecoded : Utf8.decodeLossy (ofText text).bytes = text.toList :=
    Utf8.decodeLossy_of_decode? (Utf8.decode?_eq_some_iff.mpr rfl)
  have hread := Utf8.decodeLossy_readAs (ofText text).bytes
  rw [hdecoded] at hread
  rw [isAbsolute, decide_eq_true_iff]
  exact hread.head?_eq_iff (by decide)

theorem join_of_not_isAbsolute {path : Path} (h : path.isAbsolute = false) (folder : Path) :
    (join folder path).bytes = folder.bytes ++
      (if folder.bytes = [] ∨ folder.bytes.getLast? = some slash then [] else [slash]) ++
      path.bytes := by
  rw [join, h, Bool.false_or]
  by_cases hempty : folder.bytes = []
  · simp [hempty]
  · rw [if_neg (by simpa using hempty)]
    by_cases hslash : folder.bytes.getLast? = some slash
    · simp [hslash]
    · simp [hslash, hempty]

theorem IsText.append {first second : Path} (h : first.IsText) (h' : second.IsText) :
    (Path.mk (first.bytes ++ second.bytes)).IsText := by
  obtain ⟨before, rfl⟩ := h
  obtain ⟨after, rfl⟩ := h'
  have hbytes : Utf8.encode (before ++ after).toList =
      Utf8.encode before.toList ++ Utf8.encode after.toList := by
    rw [String.toList_append, Utf8.encode_append]
  exact ⟨before ++ after, congrArg Path.mk hbytes.symm⟩

theorem IsText.join {folder path : Path} (h : folder.IsText) (h' : path.IsText) :
    (Path.join folder path).IsText := by
  have hslash : Path.IsText ⟨[slash]⟩ := ⟨"/", rfl⟩
  rw [Path.join]
  split
  · exact h'
  · split
    · exact h.append h'
    · exact h.append (hslash.append h')

end Concordance.Path
