import Concordance.Occurrence.Line
import Concordance.Proofs.Text.Words

namespace Concordance.Occurrence

open Concordance.Text

-- What the columns of a line are, whatever the line is.
theorem columns?_sound {line : List Char} {columns : Columns} (h : columns? line = some columns) :
    IsWord columns.tag ∧ IsWord columns.filename ∧ '\n' ∉ columns.content := by
  unfold columns? at h
  dsimp only at h
  split at h
  · split at h
    · cases h
    · next hfits =>
      cases h
      simp only [Bool.or_eq_true, List.isEmpty_iff, List.contains_iff_mem, not_or] at hfits
      obtain ⟨⟨htag, hfilename⟩, hcontent⟩ := hfits
      exact ⟨isWord_word htag, isWord_word hfilename, hcontent⟩
  · cases h

end Concordance.Occurrence
