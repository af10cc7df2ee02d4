import Mathlib.Data.List.Basic
import Zooffice.Common.Occurrence
/-!
# The arguments of a call

A call is read letter by letter. A comma that stands outside of all quotes
and brackets ends an argument, and a closing bracket there ends the call.
What a quote or a comment is belongs to the language: it is a step of its
lexer. Texts that are arguments one by one are what is read of a call that
has them with commas between them (`callArguments_intercalate`).
-/


namespace Zooffice

/-- **The lexical states of a language.** In one of them the reader is
outside of all quotes, comments and brackets, and a blank leaves it
there. -/
structure Lexer where
  State : Type
  [decEq : DecidableEq State]
  outside : State
  step : State → Char → State
  step_blank : step outside ' ' = outside

namespace Lexer

attribute [instance] decEq

variable {L : Lexer} {s : L.State} {arg read rest : List Char}

/-- The letter ends an argument. -/
def Ends (L : Lexer) (s : L.State) (c : Char) : Prop := s = L.outside ∧ (c = ',' ∨ c = ')')

instance (L : Lexer) (s : L.State) (c : Char) : Decidable (L.Ends s c) :=
  inferInstanceAs (Decidable (_ ∧ _))

/-- The reader passes over the text and is outside behind it. -/
def PassesFrom (L : Lexer) : L.State → List Char → Prop
  | s, [] => s = L.outside
  | s, c :: cs => ¬ L.Ends s c ∧ PassesFrom L (L.step s c) cs

instance decidablePassesFrom (L : Lexer) :
    (s : L.State) → (text : List Char) → Decidable (L.PassesFrom s text)
  | s, [] => inferInstanceAs (Decidable (s = L.outside))
  | s, c :: cs =>
      have := decidablePassesFrom L (L.step s c) cs
      inferInstanceAs (Decidable (¬ L.Ends s c ∧ _))

/-- A text that is one argument. -/
abbrev IsArgument (L : Lexer) (arg : List Char) : Prop := L.PassesFrom L.outside arg

/-- The arguments up to the closing bracket, and the text behind it. -/
def arguments (L : Lexer) : L.State → List Char → List Char → Option (List (List Char) × List Char)
  | _, _, [] => none
  | s, read, c :: cs =>
      if L.Ends s c then
        if c = ')' then some ([read], cs)
        else (arguments L L.outside [] cs).map fun more => (read :: more.1, more.2)
      else arguments L (L.step s c) (read ++ [c]) cs

/-- The arguments of a text that is a call of the function. -/
def callArguments (L : Lexer) (function text : List Char) : Option (List (List Char)) :=
  match (function ++ ['(']).isPrefixOf? text with
  | some inside =>
      match L.arguments L.outside [] inside with
      | some (args, []) => some args
      | _ => none
  | none => none

theorem isArgument_blank (h : L.IsArgument arg) : L.IsArgument (' ' :: arg) := by
  refine ⟨fun hends => ?_, ?_⟩
  · rcases hends.2 with hc | hc <;> exact absurd hc (by decide)
  · rw [L.step_blank]
    exact h

/-- **A text that passes is read to its end.** -/
theorem arguments_append (h : L.PassesFrom s arg) :
    L.arguments s read (arg ++ rest) = L.arguments L.outside (read ++ arg) rest := by
  induction arg generalizing s read with
  | nil =>
      obtain rfl : s = L.outside := h
      rw [List.nil_append, List.append_nil]
  | cons c arg ih =>
      rw [List.cons_append, arguments, if_neg h.1, ih h.2, List.append_assoc, List.singleton_append]

theorem arguments_intercalate {args : List (List Char)} (hne : args ≠ [])
    (hargs : ∀ a ∈ args, L.IsArgument a) :
    L.arguments L.outside [] ([','].intercalate args ++ ')' :: rest) = some (args, rest) := by
  induction args with
  | nil => exact absurd rfl hne
  | cons a args ih =>
      have ha := hargs a List.mem_cons_self
      cases args with
      | nil =>
          rw [List.intercalate_singleton, arguments_append ha, arguments,
            if_pos ⟨rfl, Or.inr rfl⟩, if_pos rfl, List.nil_append]
      | cons b args =>
          rw [List.intercalate_cons_cons, List.append_assoc, List.append_assoc,
            arguments_append ha, List.singleton_append, arguments, if_pos ⟨rfl, Or.inl rfl⟩,
            if_neg (by decide), ih (List.cons_ne_nil _ _) fun c hc =>
              hargs c (List.mem_cons_of_mem _ hc), Option.map_some, List.nil_append]

/-- **A call is read as its arguments.** -/
theorem callArguments_intercalate {args : List (List Char)} (function : List Char)
    (hne : args ≠ []) (hargs : ∀ a ∈ args, L.IsArgument a) :
    L.callArguments function (function ++ '(' :: ([','].intercalate args ++ [')'])) =
      some args := by
  have hcall := isPrefixOf?_append (function ++ ['(']) ([','].intercalate args ++ [')'])
  rw [List.append_assoc, List.singleton_append] at hcall
  simp only [callArguments, hcall, arguments_intercalate hne hargs]

end Lexer

end Zooffice
