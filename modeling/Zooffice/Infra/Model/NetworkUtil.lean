import Mathlib.Data.List.Range
import Zooffice.Common.Pattern
import Zooffice.Java.Text
/-!
# Addresses on the server

`isValidIP` of `NetworkUtil` matches a text as a whole against a regular
expression.
-/


namespace Zooffice

namespace NetworkUtil

open Pattern

/-- The digits from zero to the last one. -/
def upTo (last : Nat) : List Char := (List.range (last + 1)).map Nat.digitChar

/-- `[01]?\d\d?|2[0-4]\d|25[0-5]`. -/
def octetPattern : RegularExpression Char :=
  optional (anyOf (upTo 1)) * (anyOf (upTo 9) * optional (anyOf (upTo 9))) +
    (anyOf ['2'] * (anyOf (upTo 4) * anyOf (upTo 9)) +
      anyOf ['2'] * (anyOf ['5'] * anyOf (upTo 5)))

/-- `PATTERN`: that four times, with points in between. -/
def ipPattern : RegularExpression Char := separated octetPattern '.' 3

/-- `isValidIP`. -/
def isValidIP (ip : Text) : Bool := ipPattern.rmatch ip

end NetworkUtil

end Zooffice
