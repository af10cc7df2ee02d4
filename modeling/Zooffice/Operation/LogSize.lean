import Zooffice.Operation.LogMonitor
/-!
# How long the text of the log monitor gets

The test for a roll-over looks at the text there is and at the line as it
is handed over, and at another number than the size of the buffer. A line
that begins another text is not tested at all. So the text stays within
the size exactly as long as every line does: where no line has a newline,
when none is longer than the buffer.
-/


namespace Zooffice

namespace LogMonitorController

variable {c : LogMonitorController} {line : Text} {lines : List Text}

/-- At no moment is the text longer than the buffer. -/
def KeepsWithin (lines : List Text) : Prop :=
  ∀ handed, handed <+: lines →
    utf16Length (init.handleAll handed).stringBuffer ≤ loggerBufferSize

/-- How long a line is in the text: a newline takes four letters. -/
def shownLength (line : Text) : Nat := utf16Length line + 3 * line.count '\n'

/-- The line has room: alone when it begins a text, and else behind the
text there is and a separator. -/
def Fits (c : LogMonitorController) (line : Text) : Prop :=
  if 5000 < utf16Length c.stringBuffer + utf16Length line ∨ c.stringBuffer = [] then
    shownLength line ≤ loggerBufferSize
  else utf16Length c.stringBuffer + 4 + shownLength line ≤ loggerBufferSize

/-! ## One line -/

theorem utf16Length_replaceLetter (line : Text) :
    utf16Length (replaceLetter line '\n' lineBreak) = shownLength line := by
  induction line with
  | nil => rfl
  | cons l line ih =>
      rw [shownLength] at ih
      rw [replaceLetter, List.flatMap_cons, utf16Length_append, ← replaceLetter, ih, shownLength,
        List.count_cons, utf16Length]
      by_cases hl : l = '\n'
      · rw [if_pos hl, hl]
        have hbreak : utf16Length lineBreak = 4 := rfl
        have hnewline : (if 0xFFFF < '\n'.toNat then 2 else 1) = 1 := rfl
        rw [hbreak, hnewline, if_pos (beq_self_eq_true _)]
        omega
      · have hother : ¬(l == '\n') = true := by simpa using hl
        rw [if_neg hl, if_neg hother, utf16Length, utf16Length]
        omega

/-- **A line leaves the text within the buffer exactly when it fits.** -/
theorem le_size_iff_fits (c : LogMonitorController) (line : Text) :
    utf16Length (c.handle line).stringBuffer ≤ loggerBufferSize ↔ c.Fits line := by
  have hbreak : utf16Length lineBreak = 4 := rfl
  rw [Fits]
  by_cases hroll : 5000 < utf16Length c.stringBuffer + utf16Length line
  · rw [handle_of_rollOver hroll, if_pos (Or.inl hroll), utf16Length_replaceLetter]
  · rw [handle_of_not_rollOver hroll]
    by_cases hempty : c.stringBuffer = []
    · rw [if_pos (Or.inr hempty), if_neg (not_not.2 hempty), hempty, List.nil_append,
        utf16Length_replaceLetter]
    · rw [if_neg (not_or.2 ⟨hroll, hempty⟩), if_pos hempty, utf16Length_append,
        utf16Length_append, hbreak, utf16Length_replaceLetter]

/-- Without a newline only the length of the line counts: what is in front
of a line that does not begin a text is short enough. -/
theorem fits_iff_of_not_mem (hline : '\n' ∉ line) :
    c.Fits line ↔ utf16Length line ≤ loggerBufferSize := by
  have hcount : line.count '\n' = 0 := List.count_eq_zero.2 hline
  have hsize : loggerBufferSize = 10000 := rfl
  rw [Fits, shownLength, hcount]
  split
  · rfl
  next hstays =>
    obtain ⟨hroll, -⟩ := not_or.1 hstays
    constructor
    · intro _
      omega
    · intro _
      omega

/-! ## All lines -/

/-- **Within the buffer after every line** is that every line fits when it
is handed over. -/
theorem keepsWithin_iff_fits :
    KeepsWithin lines ↔
      ∀ handed line, handed ++ [line] <+: lines → (init.handleAll handed).Fits line := by
  constructor
  · intro h handed line hpre
    have hwithin := h _ hpre
    rwa [handleAll_concat, le_size_iff_fits] at hwithin
  · intro h handed hpre
    rcases List.eq_nil_or_concat' handed with rfl | ⟨handed, line, rfl⟩
    · exact Nat.zero_le _
    · rw [handleAll_concat, le_size_iff_fits]
      exact h handed line hpre

/-- **The text stays within the buffer exactly when every line fits.** For
lines without newlines, as a tailer reads them, that is: when no line is
longer than the buffer. -/
theorem keepsWithin_iff (lines : List Text) :
    (KeepsWithin lines ↔
      ∀ handed line, handed ++ [line] <+: lines → (init.handleAll handed).Fits line) ∧
    ((∀ line ∈ lines, '\n' ∉ line) →
      (KeepsWithin lines ↔ ∀ line ∈ lines, utf16Length line ≤ loggerBufferSize)) := by
  refine ⟨keepsWithin_iff_fits, fun hlines => keepsWithin_iff_fits.trans ⟨?_, ?_⟩⟩
  · intro h line hline
    obtain ⟨handed, rest, hsplit⟩ := List.append_of_mem hline
    have hpre : handed ++ [line] <+: lines := ⟨rest, by rw [hsplit]; simp⟩
    exact (fits_iff_of_not_mem (hlines line hline)).1 (h handed line hpre)
  · intro h handed line hpre
    have hline : line ∈ lines := hpre.subset (by simp)
    exact (fits_iff_of_not_mem (hlines line hline)).2 (h line hline)

theorem utf16Length_replicate (n : Nat) : utf16Length (List.replicate n 'a') = n := by
  have hletter : (if 0xFFFF < 'a'.toNat then 2 else 1) = 1 := rfl
  induction n with
  | zero => rfl
  | succ n ih =>
      rw [List.replicate_succ, utf16Length, ih, hletter]
      omega

/-- One line is enough. -/
theorem not_keepsWithin_replicate {n : Nat} (hn : loggerBufferSize < n) :
    ¬ KeepsWithin [List.replicate n 'a'] := by
  intro hwithin
  have hfits := keepsWithin_iff_fits.1 hwithin [] (List.replicate n 'a') (List.prefix_refl _)
  have hnone : '\n' ∉ List.replicate n 'a' :=
    fun hmem => absurd (List.eq_of_mem_replicate hmem) (by decide)
  have hshort := (fits_iff_of_not_mem hnone).1 hfits
  rw [utf16Length_replicate] at hshort
  omega

/-- **A line of 10001 letters** is kept as it is. -/
theorem not_keepsWithin_long : ¬ KeepsWithin [List.replicate 10001 'a'] :=
  not_keepsWithin_replicate (by decide)

end LogMonitorController

end Zooffice
