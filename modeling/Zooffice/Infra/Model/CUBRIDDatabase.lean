import Zooffice.Common.Arguments
import Zooffice.Java.Text
/-!
# The concatenation of CUBRID

`getConcatSql` of `CUBRIDDatabase.java`, and what the SQL text is to the
database: a call of `CONCAT_WS`, whose first argument is the text that
comes between the others.
-/


namespace Zooffice

namespace CUBRIDDatabase

/-- What `$` is the position before: the end, or the line terminator that
is the end. -/
def lineEnds : List Text :=
  [[], ['\n'], ['\r'], ['\r', '\n'], ['\u0085'], ['\u2028'], ['\u2029']]

/-- What is behind a match of the pattern and a `$`. -/
def occursAtEnd (pattern text : Text) : Option Text :=
  (pattern.isPrefixOf? text).filter fun rest => lineEnds.contains rest

/-- `replaceFirst` with a pattern that is plain but for a `$` at its end,
and a plain replacement. -/
def replaceFirstAtEnd (text pattern replacement : Text) : Text :=
  match firstOccurrence (occursAtEnd pattern) text with
  | some (before, rest) => before ++ replacement ++ rest
  | none => text

def getConcatSql (values : List Text) : Text :=
  let returnString := values.foldl (fun s value => s ++ value ++ ", ".toList) "CONCAT_WS(".toList
  replaceFirstAtEnd returnString ", ".toList ")".toList

end CUBRIDDatabase

/-- **What SQL text is to the database.** The value of an expression is
`none` where the text is none, or has none. A blank in front of it is not
part of it. -/
structure Sql extends Lexer where
  value : Text → Option Text
  value_blank : ∀ text, value (' ' :: text) = value text

namespace Sql

/-- The values of the arguments of a call of `CONCAT_WS`. -/
def concatArguments (sql : Sql) (text : Text) : Option (List Text) :=
  (sql.callArguments "CONCAT_WS".toList text).bind fun args => args.mapM sql.value

/-- The value of a call of `CONCAT_WS`: its first argument is the
separator. -/
def concatValue (sql : Sql) (text : Text) : Option Text :=
  match sql.concatArguments text with
  | some (sep :: values) => some (sep.intercalate values)
  | _ => none

/-- The text is a call of `CONCAT_WS` with expressions as arguments. -/
def WellFormedConcat (sql : Sql) (text : Text) : Prop := (sql.concatArguments text).isSome = true

end Sql

/-- Within which quote the reader is, and within how many brackets. -/
inductive CubridState where
  | plain (depth : ℕ)
  | quoted (depth : ℕ) (closing : Char)
  deriving DecidableEq, Repr

namespace CubridState

def step : CubridState → Char → CubridState
  | plain depth, c =>
      if c = '\'' ∨ c = '"' ∨ c = '`' then quoted depth c
      else if c = '[' then quoted depth ']'
      else if c = '(' then plain (depth + 1)
      else if c = ')' then plain (depth - 1)
      else plain depth
  | quoted depth closing, c => if c = closing then plain depth else quoted depth closing

end CubridState

/-- The text of a string literal behind its opening quote: a quote in it
is written twice. -/
def readLiteral : Text → Option Text
  | [] => none
  | ['\''] => some []
  | '\'' :: '\'' :: cs => (readLiteral cs).map fun read => '\'' :: read
  | '\'' :: _ => none
  | c :: cs => (readLiteral cs).map fun read => c :: read

/-- The value of a string literal. -/
def literalValue (text : Text) : Option Text :=
  match text.dropWhile (· = ' ') with
  | '\'' :: cs => readLiteral cs
  | _ => none

/-- **The string literals of CUBRID**, and no other expressions. -/
def literals : Sql where
  State := CubridState
  outside := .plain 0
  step := CubridState.step
  step_blank := rfl
  value := literalValue
  value_blank text := by
    rw [literalValue, List.dropWhile_cons_of_pos (by decide)]
    rfl

end Zooffice
