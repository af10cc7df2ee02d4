import Mathlib.Data.List.DropRight
import Mathlib.Data.Prod.Lex
import Zooffice.Common.Joined
import Zooffice.Operation.Model.LogMonitor
/-!
# What the log monitor shows

After each line the text is that of the last lines, as many as the
controller says it has, and the pair of its numbers has grown. So a client
that compares the pair with the one it had sees every line: between two
roll-overs the lines are there in their order, and a roll-over begins with
the line that has caused it.
-/


namespace Zooffice

/-- The pair that a client compares, the index first. -/
def LastLog.version (answer : LastLog) : ℕ ×ₗ ℕ := toLex (answer.index, answer.modification)

/-- The lines that the answer is about: the last of those handed over, as
many as it says. -/
def LastLog.lines (answer : LastLog) (handed : List Text) : List Text :=
  handed.rtake answer.modification

/-- The answer shows the lines it is about. -/
structure LastLog.Shows (answer : LastLog) (handed : List Text) : Prop where
  enough : answer.modification ≤ handed.length
  log : answer.log = joined LogMonitorController.lineBreak
    ((answer.lines handed).map fun line =>
      replaceLetter line '\n' LogMonitorController.lineBreak)

namespace LogMonitorController

variable {c : LogMonitorController} {line : Text} {handed : List Text}

/-! ## One line -/

theorem handle_of_rollOver (h : 5000 < utf16Length c.stringBuffer + utf16Length line) :
    c.handle line = ⟨replaceLetter line '\n' lineBreak, c.count + 1, 1⟩ := by
  rw [handle, rollOver, if_pos h]
  rfl

theorem handle_of_not_rollOver (h : ¬ 5000 < utf16Length c.stringBuffer + utf16Length line) :
    c.handle line =
      ⟨(if c.stringBuffer ≠ [] then c.stringBuffer ++ lineBreak else c.stringBuffer) ++
        replaceLetter line '\n' lineBreak, c.count, c.modification + 1⟩ := by
  rw [handle, rollOver, if_neg h]
  simp only [utf16Length_pos]

/-- **A line makes the pair grow.** -/
theorem version_lt_handle (c : LogMonitorController) (line : Text) :
    c.getLastLog.version < (c.handle line).getLastLog.version := by
  rw [LastLog.version, LastLog.version, Prod.Lex.toLex_lt_toLex]
  by_cases h : 5000 < utf16Length c.stringBuffer + utf16Length line
  · rw [handle_of_rollOver h]
    exact .inl (Nat.lt_succ_self _)
  · rw [handle_of_not_rollOver h]
    exact .inr ⟨rfl, Nat.lt_succ_self _⟩

/-- **The lines shown go on with the new one**, or begin with it. -/
theorem lines_handle (c : LogMonitorController) (line : Text) (handed : List Text) :
    (c.handle line).count = c.count ∧ (c.handle line).getLastLog.lines (handed ++ [line]) =
        c.getLastLog.lines handed ++ [line] ∨
      (c.handle line).count = c.count + 1 ∧
        (c.handle line).getLastLog.lines (handed ++ [line]) = [line] := by
  by_cases h : 5000 < utf16Length c.stringBuffer + utf16Length line
  · rw [handle_of_rollOver h]
    refine .inr ⟨rfl, ?_⟩
    rw [LastLog.lines, getLastLog, List.rtake_concat_succ, List.rtake_zero, List.nil_append]
  · rw [handle_of_not_rollOver h]
    refine .inl ⟨rfl, ?_⟩
    rw [LastLog.lines, getLastLog, List.rtake_concat_succ]
    rfl

/-- **What is shown stays right** with one line more. -/
theorem shows_handle (h : c.getLastLog.Shows handed) (line : Text) :
    (c.handle line).getLastLog.Shows (handed ++ [line]) := by
  have hlength : (handed ++ [line]).length = handed.length + 1 := by simp
  have henough : c.modification ≤ handed.length := h.enough
  have hlog : c.stringBuffer = _ := h.log
  by_cases hroll : 5000 < utf16Length c.stringBuffer + utf16Length line
  · rw [handle_of_rollOver hroll]
    refine ⟨?_, ?_⟩
    · show 1 ≤ (handed ++ [line]).length
      omega
    · rw [LastLog.lines, getLastLog, List.rtake_concat_succ, List.rtake_zero, List.map_append,
        List.map_nil, List.map_singleton, joined_concat, joined_nil, if_neg (not_not.2 rfl)]
      rfl
  · rw [handle_of_not_rollOver hroll]
    refine ⟨?_, ?_⟩
    · show c.modification + 1 ≤ (handed ++ [line]).length
      omega
    · rw [LastLog.lines, getLastLog, List.rtake_concat_succ, List.map_append, List.map_singleton,
        joined_concat]
      dsimp only
      rw [hlog]
      rfl

/-! ## All lines -/

theorem handleAll_concat (c : LogMonitorController) (handed : List Text) (line : Text) :
    c.handleAll (handed ++ [line]) = (c.handleAll handed).handle line :=
  List.foldl_concat handle c line handed

/-- **After every line the text is that of the last lines.** The induction
is on the lines from the last one. -/
theorem shows_handleAll (handed : List Text) : (init.handleAll handed).getLastLog.Shows handed := by
  induction handed using List.reverseRecOn with
  | nil => exact ⟨Nat.le_refl 0, rfl⟩
  | append_singleton handed line ih =>
      rw [handleAll_concat]
      exact shows_handle ih line

/-- There are no more roll-overs than lines, so neither number gets above
that of the lines. -/
theorem count_le_length (handed : List Text) : (init.handleAll handed).count ≤ handed.length := by
  induction handed using List.reverseRecOn with
  | nil => exact Nat.le_refl 0
  | append_singleton handed line ih =>
      rw [handleAll_concat, List.length_append, List.length_singleton]
      have hcount := lines_handle (init.handleAll handed) line handed
      omega

/-- **Of two answers the later has the greater pair.** -/
theorem version_lt_handleAll (c : LogMonitorController) {more : List Text} (h : more ≠ []) :
    c.getLastLog.version < (c.handleAll more).getLastLog.version := by
  induction more using List.reverseRecOn with
  | nil => exact absurd rfl h
  | append_singleton more line ih =>
      rw [handleAll_concat]
      have hlast := version_lt_handle (c.handleAll more) line
      by_cases hmore : more = []
      · rwa [hmore] at hlast ⊢
      · exact (ih hmore).trans hlast

/-- **After each line** the text is that of the last lines, the pair has
grown, and the lines shown are those of before with the new one behind
them, or the new one alone and another index. -/
theorem log_follows_lines (handed : List Text) (line : Text) :
    let before := (init.handleAll handed).getLastLog
    let after := (init.handleAll (handed ++ [line])).getLastLog
    after.Shows (handed ++ [line]) ∧ before.version < after.version ∧
      (after.index = before.index ∧ after.lines (handed ++ [line]) = before.lines handed ++ [line] ∨
        after.index = before.index + 1 ∧ after.lines (handed ++ [line]) = [line]) := by
  intro before after
  refine ⟨shows_handleAll _, ?_, ?_⟩
  · show before.version < (init.handleAll (handed ++ [line])).getLastLog.version
    rw [handleAll_concat]
    exact version_lt_handle _ line
  · have hlines := lines_handle (init.handleAll handed) line handed
    rw [← handleAll_concat] at hlines
    exact hlines

end LogMonitorController

end Zooffice
