import Mathlib.Data.List.DropRight
import Zooffice.Java.Text
/-!
# Splitting a string

`String.split` at a regular expression that is one letter. It is not the
inverse of joining: the empty pieces at the end are dropped, so a text of
separators has no piece at all, and a text without the letter, the empty
one included, is its own piece. `StringUtils.split` of commons-lang drops
every empty piece.
-/


namespace Zooffice

/-- `text.split(ch)`. -/
def split (text : Text) (ch : Char) : List Text :=
  if ch ∈ text then (text.splitOn ch).rdropWhile fun piece => piece.isEmpty else [text]

variable {text : Text} {ch : Char}

theorem split_of_not_mem (h : ch ∉ text) : split text ch = [text] := if_neg h

@[simp] theorem split_nil : split [] ch = [[]] := split_of_not_mem List.not_mem_nil

/-- **Pieces that were joined are split again**, when the last one is not
empty. -/
theorem split_intercalate {pieces : List Text} (hne : pieces ≠ [])
    (hmem : ∀ piece ∈ pieces, ch ∉ piece) (hlast : pieces.getLast hne ≠ []) :
    split ([ch].intercalate pieces) ch = pieces := by
  have hsplit : ([ch].intercalate pieces).splitOn ch = pieces :=
    List.splitOn_intercalate ch hmem hne
  by_cases hch : ch ∈ [ch].intercalate pieces
  · rw [split, if_pos hch, hsplit, List.rdropWhile_eq_self_iff]
    intro _ hempty
    exact hlast (List.isEmpty_iff.1 hempty)
  · -- without a separator there is one piece
    rw [List.splitOn_eq_singleton hch] at hsplit
    rw [split_of_not_mem hch, hsplit]

/-! ## `StringUtils.split` -/

/-- `StringUtils.split(text, ch)`: the pieces that are not empty. -/
def splitTokens (text : Text) (ch : Char) : List Text :=
  (text.splitOn ch).filter fun piece => !piece.isEmpty

/-- **Pieces that were joined are split again**, when none is empty. -/
theorem splitTokens_intercalate {pieces : List Text}
    (hmem : ∀ piece ∈ pieces, piece ≠ [] ∧ ch ∉ piece) :
    splitTokens ([ch].intercalate pieces) ch = pieces := by
  by_cases hne : pieces = []
  · subst hne
    simp [splitTokens]
  · rw [splitTokens, List.splitOn_intercalate ch (fun piece h => (hmem piece h).2) hne,
      List.filter_eq_self]
    intro piece h
    simp [(hmem piece h).1]

end Zooffice
