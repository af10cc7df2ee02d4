import Zooffice.Js.Text
/-!
# The checks of a form

`isIP` and `isPort` of `utils.js`.
-/


namespace Zooffice

namespace Utils

variable (largeText : ℚ → Text)

/-- The check of one field: what is read of it must have it for its text. -/
def checkField (v : Text) : Bool :=
  let num := Js.parseInt v
  if v = Js.numberText largeText num then
    match num with
    | none => false
    | some num => num ≤ 255 && num ≥ 0
  else false

/-- `isIP`. -/
def isIP (str : Text) : Bool :=
  match (Js.trim str).splitOn '.' with
  | [re0, re1, re2, re3] =>
      checkField largeText re0 && checkField largeText re1 && checkField largeText re2 &&
        checkField largeText re3
  | _ => false

/-- `isPort`: a comparison with what is not a number fails. -/
def isPort (str : Text) : Bool :=
  match Js.parseInt (Js.trim str) with
  | none => false
  | some port => port < 65536 && port > 0

end Utils

end Zooffice
