import Zooffice.Common.Occurrence
import Zooffice.Java.Throwable
/-!
# The texts of failed checks

`Preconditions.format` puts the arguments of a check into its template. A
text that is null is written `null`, and an argument is what
`String.valueOf` makes of it.
-/


namespace Zooffice

namespace Preconditions

/-- `%s`, which stands for an argument. -/
def placeholder : List Char := ['%', 's']

/-- `String.valueOf`. -/
def valueOf (reference : Option String) : List Char := (reference.getD "null").toList

/-- The first loop of `format`: an argument is appended behind the text in
front of the next placeholder, as long as there are both. The text that is
built with what is left of the template behind it, and the arguments that
are left. -/
def substitute : (template : List Char) → (args : List (List Char)) →
    List Char × List (List Char)
  | template, [] => (template, [])
  | template, arg :: args =>
      match firstOccurrence placeholder.isPrefixOf? template with
      | none => (template, arg :: args)
      | some (before, rest) =>
          let (builder, left) := substitute rest args
          (before ++ arg ++ builder, left)

/-- The arguments that are left, in square braces. -/
def extraArgs : List (List Char) → List Char
  | [] => []
  | arg :: args => " [".toList ++ arg ++ args.flatMap (fun each => ", ".toList ++ each) ++ [']']

/-- `Preconditions.format`. -/
def format (template : Option String) (args : List (Option String)) : List Char :=
  let (builder, left) := substitute (valueOf template) (args.map valueOf)
  builder ++ extraArgs left

/-- `checkArgument` with a template. -/
def checkArgumentFormat (expression : Bool) (errorMessageTemplate : Option String)
    (errorMessageArgs : List (Option String)) : Except Throwable Unit :=
  checkArgument expression (some (String.ofList (format errorMessageTemplate errorMessageArgs)))

end Preconditions

end Zooffice
