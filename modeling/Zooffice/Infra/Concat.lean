import Zooffice.Common.Joined
import Zooffice.Infra.Model.CUBRIDDatabase
/-!
# What a concatenation in SQL is worth

The text that `getConcatSql` makes is a call of `CONCAT_WS` with the
expressions as its arguments (`callArguments_getConcatSql`), so it is well
formed. Its value is that of the other expressions with the first one's
between them, and this is seldom the concatenation
(`getConcatSql_concatenates_iff`).
-/


namespace Zooffice

namespace CUBRIDDatabase

variable {sql : Sql} {values vs : List Text}

/-! ## The text -/

/-- No line terminator is a blank. -/
theorem getLast?_of_mem_lineEnds : ∀ rest ∈ lineEnds, rest.getLast? ≠ ", ".toList.getLast? := by
  decide

/-- **The last comma** is the only one that nothing but the end follows. -/
theorem replaceFirstAtEnd_comma (text replacement : Text) :
    replaceFirstAtEnd (text ++ ", ".toList) ", ".toList replacement = text ++ replacement := by
  have hlast : occursAtEnd ", ".toList ", ".toList = some [] := by decide
  have hnone : ∀ b, b ≠ [] → b <:+ text → occursAtEnd ", ".toList (b ++ ", ".toList) = none := by
    intro b hb _
    rw [occursAtEnd, Option.filter_eq_none_iff]
    intro rest hrest hends
    rw [isPrefixOf?_eq_some_iff] at hrest
    -- what is left behind an earlier one ends with a blank
    have hrestne : rest ≠ [] := by
      rintro rfl
      have hlength := congrArg List.length hrest
      rw [List.length_append, List.append_nil] at hlength
      exact hb (List.length_eq_zero_iff.1 (by omega))
    have hlast := congrArg List.getLast? hrest
    rw [List.getLast?_append_of_ne_nil _ hrestne, List.getLast?_append_of_ne_nil _ (by decide)]
      at hlast
    exact getLast?_of_mem_lineEnds rest (by simpa using hends) hlast.symm
  rw [replaceFirstAtEnd, firstOccurrence_append hlast hnone]
  simp only [List.append_nil]

theorem foldl_append (values : List Text) (start : Text) :
    values.foldl (fun s value => s ++ value ++ ", ".toList) start =
      start ++ values.flatMap fun value => value ++ ", ".toList := by
  induction values generalizing start with
  | nil => rw [List.foldl_nil, List.flatMap_nil, List.append_nil]
  | cons value values ih =>
      rw [List.foldl_cons, ih, List.flatMap_cons, List.append_assoc, List.append_assoc,
        List.append_assoc]

theorem flatMap_comma (hne : values ≠ []) :
    (values.flatMap fun value => value ++ ", ".toList) =
      ", ".toList.intercalate values ++ ", ".toList := by
  induction values with
  | nil => exact absurd rfl hne
  | cons value values ih =>
      rw [List.flatMap_cons]
      by_cases hvalues : values = []
      · rw [hvalues, List.flatMap_nil, List.append_nil, List.intercalate_singleton]
      · rw [ih hvalues, List.intercalate_cons_of_ne_nil hvalues, List.append_assoc,
          List.append_assoc, List.append_assoc]

/-- **The text that is made.** -/
theorem getConcatSql_eq (hne : values ≠ []) :
    getConcatSql values = "CONCAT_WS(".toList ++ ", ".toList.intercalate values ++ ")".toList := by
  rw [getConcatSql, foldl_append, flatMap_comma hne, ← List.append_assoc,
    replaceFirstAtEnd_comma]

/-! ## Its arguments -/

/-- The arguments as they are read: all but the first with a blank. -/
def argumentsOf : List Text → List Text
  | [] => []
  | value :: values => value :: values.map fun value => ' ' :: value

theorem argumentsOf_ne_nil (hne : values ≠ []) : argumentsOf values ≠ [] := by
  cases values with
  | nil => exact absurd rfl hne
  | cons value values => exact List.cons_ne_nil _ _

theorem intercalate_argumentsOf (values : List Text) :
    [','].intercalate (argumentsOf values) = ", ".toList.intercalate values := by
  cases values with
  | nil => rfl
  | cons value values =>
      rw [argumentsOf]
      induction values generalizing value with
      | nil => rw [List.map_nil, List.intercalate_singleton, List.intercalate_singleton]
      | cons value' values ih =>
          have hstep := ih value'
          rw [List.map_cons, List.intercalate_cons_cons, List.intercalate_cons_cons, ← hstep]
          cases values with
          | nil => simp [List.intercalate_singleton]
          | cons _ _ => simp [List.intercalate_cons_cons]

theorem isArgument_argumentsOf (hexpr : ∀ value ∈ values, sql.IsArgument value) :
    ∀ arg ∈ argumentsOf values, sql.IsArgument arg := by
  cases values with
  | nil => exact fun arg harg => absurd harg List.not_mem_nil
  | cons value values =>
      intro arg harg
      rcases List.mem_cons.1 harg with rfl | harg
      · exact hexpr _ List.mem_cons_self
      · obtain ⟨value', hvalue', rfl⟩ := List.mem_map.1 harg
        exact Lexer.isArgument_blank (hexpr _ (List.mem_cons_of_mem _ hvalue'))

/-- **The text is a call with the expressions as its arguments.** -/
theorem callArguments_getConcatSql (hne : values ≠ [])
    (hexpr : ∀ value ∈ values, sql.IsArgument value) :
    sql.callArguments "CONCAT_WS".toList (getConcatSql values) = some (argumentsOf values) := by
  have hcall := Lexer.callArguments_intercalate "CONCAT_WS".toList (argumentsOf_ne_nil hne)
    (isArgument_argumentsOf hexpr)
  rw [getConcatSql_eq hne, ← hcall, intercalate_argumentsOf]
  rfl

/-! ## Its value -/

theorem map_value_argumentsOf (values : List Text) :
    (argumentsOf values).map sql.value = values.map sql.value := by
  cases values with
  | nil => rfl
  | cons value values =>
      rw [argumentsOf, List.map_cons, List.map_cons, List.map_map]
      exact congrArg _ (List.map_congr_left fun value' _ => sql.value_blank value')

/-- **The text is well formed**, and its arguments have the values of the
expressions. -/
theorem concatArguments_getConcatSql (hne : values ≠ [])
    (hexpr : ∀ value ∈ values, sql.IsArgument value)
    (hvalues : values.map sql.value = vs.map some) :
    sql.concatArguments (getConcatSql values) = some vs := by
  rw [Sql.concatArguments, callArguments_getConcatSql hne hexpr, Option.bind_some]
  have hargs := (map_value_argumentsOf values).trans hvalues
  clear hvalues hne hexpr
  generalize argumentsOf values = args at hargs
  induction args generalizing vs with
  | nil =>
      obtain rfl : vs = [] := by simpa using hargs.symm
      rfl
  | cons arg args ih =>
      cases vs with
      | nil => cases hargs
      | cons v vs =>
          rw [List.map_cons, List.map_cons, List.cons_eq_cons] at hargs
          rw [List.mapM_cons, hargs.1, ih hargs.2]
          rfl

/-- The text is well formed, and its value is the concatenation. -/
def Concatenates (sql : Sql) (text : Text) (vs : List Text) : Prop :=
  sql.WellFormedConcat text ∧ sql.concatValue text = some vs.flatten

/-- **The value is the concatenation exactly when the first value is
empty**, or there are three of them and the first two can change
places. -/
theorem getConcatSql_concatenates_iff (hne : values ≠ [])
    (hexpr : ∀ value ∈ values, sql.IsArgument value)
    (hvalues : values.map sql.value = vs.map some) :
    Concatenates sql (getConcatSql values) vs ↔
      vs.head? = some [] ∨ ∃ a b c, vs = [a, b, c] ∧ a ++ b = b ++ a := by
  have hargs := concatArguments_getConcatSql hne hexpr hvalues
  cases vs with
  | nil => exact absurd (List.map_eq_nil_iff.1 hvalues) hne
  | cons v vs =>
      have hwell : sql.WellFormedConcat (getConcatSql values) := by
        rw [Sql.WellFormedConcat, hargs, Option.isSome_some]
      have hvalue : sql.concatValue (getConcatSql values) = some (v.intercalate vs) := by
        rw [Sql.concatValue, hargs]
      rw [Concatenates, and_iff_right hwell, hvalue, Option.some_inj, List.flatten_cons,
        intercalate_eq_append_flatten_iff, List.head?_cons, Option.some_inj]
      refine or_congr_right ⟨?_, ?_⟩
      · rintro ⟨a, b, rfl, h⟩
        exact ⟨v, a, b, rfl, h.symm⟩
      · rintro ⟨a, b, c, habc, h⟩
        obtain ⟨rfl, rfl⟩ := List.cons_eq_cons.1 habc
        exact ⟨b, c, rfl, h.symm⟩

/-- Three literals of which the first two are the same. -/
theorem getConcatSql_concatenates_same :
    Concatenates literals (getConcatSql ["'a'".toList, "'a'".toList, "'b'".toList])
        [['a'], ['a'], ['b']] ↔
      [['a'], ['a'], ['b']].head? = some [] ∨
        ∃ a b c, [['a'], ['a'], ['b']] = [a, b, c] ∧ a ++ b = b ++ a :=
  getConcatSql_concatenates_iff (by decide) (by decide) (by decide)

/-- **The first of two literals is lost**: it comes between no texts. -/
theorem not_getConcatSql_concatenates :
    ¬ Concatenates literals (getConcatSql ["'a'".toList, "'b'".toList]) [['a'], ['b']] := by
  rintro ⟨-, hvalue⟩
  exact absurd hvalue (by decide)

end CUBRIDDatabase

end Zooffice
