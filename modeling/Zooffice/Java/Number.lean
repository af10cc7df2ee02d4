import Zooffice.Java.Text
/-!
# Reading a number

`Integer.parseInt` and the `NumberUtils.toInt` of commons-lang on top of
it, for the ASCII digits.
-/


namespace Zooffice

/-- The number that a text of digits reads as. -/
def parseDigits (s : Text) : Option Nat :=
  if !s.isEmpty && s.all Char.isDigit then some (Nat.ofDigitChars 10 s 0) else none

/-- `Integer.MAX_VALUE`. -/
def maxInt : Nat := 2147483647

/-- `Integer.parseInt`; it throws where this is `none`. -/
def parseInt (s : Text) : Option Int :=
  match s with
  | '-' :: digits =>
      (parseDigits digits).bind fun n => if n ≤ maxInt + 1 then some (-(n : Int)) else none
  | '+' :: digits => (parseDigits digits).bind fun n => if n ≤ maxInt then some (n : Int) else none
  | digits => (parseDigits digits).bind fun n => if n ≤ maxInt then some (n : Int) else none

/-- `NumberUtils.toInt(str, defaultValue)`. -/
def toInt (str : Text) (defaultValue : Int) : Int := (parseInt str).getD defaultValue

/-- **A text of digits is read as its number**, when that is an `int`. -/
theorem toInt_of_digits {s : Text} {defaultValue : Int} (hne : s ≠ [])
    (hdigits : ∀ c ∈ s, c.isDigit = true) (hmax : Nat.ofDigitChars 10 s 0 ≤ maxInt) :
    toInt s defaultValue = Nat.ofDigitChars 10 s 0 := by
  have hread : parseDigits s = some (Nat.ofDigitChars 10 s 0) :=
    if_pos (by rw [List.all_eq_true.2 hdigits, List.isEmpty_eq_false_iff.2 hne]; rfl)
  have hparse : parseInt s =
      (parseDigits s).bind fun n => if n ≤ maxInt then some (n : Int) else none := by
    unfold parseInt
    split
    · exact absurd (hdigits '-' List.mem_cons_self) (by decide)
    · exact absurd (hdigits '+' List.mem_cons_self) (by decide)
    · rfl
  rw [toInt, hparse, hread, Option.bind_some, if_pos hmax]
  rfl

/-- The decimal text of a number reads as the number. -/
theorem ofDigitChars_toString (n : Nat) : Nat.ofDigitChars 10 (toString n).toList 0 = n := by
  rw [Nat.toString_eq_repr, Nat.toList_repr, Nat.ofDigitChars_ten_toDigits]

end Zooffice
