import Zooffice.Common.Decimal
import Zooffice.Js.Replace
/-!
# Messages with arguments

`getI18nMsg` of `i18nTool.js`: a text of the table of messages, and a loop
that puts one argument after the other in the place of its number. A
message that is not in the table is `undefined`, and that has no
`replace`.
-/


namespace Zooffice

namespace I18n

/-- `"{" + i + "}"` -/
def placeholder (i : ℕ) : Text := '{' :: (decimal i ++ ['}'])

/-- The loop, from an index on. -/
def replaceFrom : ℕ → List Text → Text → Text
  | _, [], result => result
  | i, arg :: args, result => replaceFrom (i + 1) args (Js.replace result (placeholder i) arg)

/-- How the call ends. -/
inductive Message where
  | text (text : Text)
  | undefined
  | typeError
  deriving DecidableEq, Repr

def getI18nMsg (resource : Text → Option Text) (key : Text) (args : Option (List Text)) : Message :=
  match resource key, args with
  | some result, none => .text result
  | some result, some args => .text (replaceFrom 0 args result)
  | none, none => .undefined
  | none, some [] => .undefined
  | none, some (_ :: _) => .typeError

/-! ## What is to be put in their place -/

/-- A letter of the message, or the number of an argument. -/
inductive Piece where
  | letter (c : Char)
  | argument (i : ℕ)
  deriving DecidableEq, Repr

/-- The argument, of so many, whose number the text begins with. -/
def argumentAt (n : ℕ) (text : Text) : Option ℕ :=
  (List.range n).find? fun i => (placeholder i).isPrefixOf text

/-- The pieces of a message with so many arguments, where so many letters
have been read already. -/
def piecesFrom (n : ℕ) : ℕ → Text → List Piece
  | _, [] => []
  | reading + 1, _ :: cs => piecesFrom n reading cs
  | 0, c :: cs =>
      match argumentAt n (c :: cs) with
      | some i => .argument i :: piecesFrom n ((placeholder i).length - 1) cs
      | none => .letter c :: piecesFrom n 0 cs

def pieces (n : ℕ) (text : Text) : List Piece := piecesFrom n 0 text

/-- What a piece is replaced by. -/
def Piece.value (args : List Text) : Piece → Text
  | letter c => [c]
  | argument i => args[i]?.getD (placeholder i)

/-- **All numbers replaced at once.** Those of arguments that there are not stay
as they are. -/
def substitute (args : List Text) (ps : List Piece) : Text := ps.flatMap (Piece.value args)

end I18n

end Zooffice
