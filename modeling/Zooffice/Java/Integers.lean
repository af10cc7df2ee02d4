import Mathlib.Data.Int.Basic
import Zooffice.Common.Decimal
import Zooffice.Java.Text
/-!
# `int` and `long`

Java's two signed widths are `Int32` and `Int64`: their operations wrap
round, and a quotient is cut off towards zero. What they compute is the
exact result as long as that fits.
-/


namespace Zooffice

/-- The text of an integer. -/
def integerText (n : Int) : Text :=
  if n < 0 then '-' :: decimal n.natAbs else decimal n.natAbs

theorem integerText_natCast (n : Nat) : integerText n = decimal n := by
  rw [integerText, if_neg (by omega), Int.natAbs_natCast]

/-- The text of an integer has a minus sign when the integer is negative. -/
theorem minus_mem_integerText {n : Int} : '-' ∈ integerText n ↔ n < 0 := by
  rw [integerText]
  split
  · next h => exact iff_of_true List.mem_cons_self h
  · next h => exact iff_of_false (not_mem_decimal rfl) h

/-! ## Results that fit -/

theorem toInt_mul_of_fits {a b : Int64} (hle : -9223372036854775808 ≤ a.toInt * b.toInt)
    (hlt : a.toInt * b.toInt < 9223372036854775808) : (a * b).toInt = a.toInt * b.toInt := by
  rw [Int64.toInt_mul]
  exact Int.bmod_eq_of_le_mul_two (by omega) (by omega)

theorem toInt_sub_of_fits {a b : Int64} (hle : -9223372036854775808 ≤ a.toInt - b.toInt)
    (hlt : a.toInt - b.toInt < 9223372036854775808) : (a - b).toInt = a.toInt - b.toInt := by
  rw [Int64.toInt_sub]
  exact Int.bmod_eq_of_le_mul_two (by omega) (by omega)

/-- A quotient by a positive number always fits. -/
theorem toInt_div_of_pos {a b : Int64} (hb : 0 < b.toInt) :
    (a / b).toInt = a.toInt.tdiv b.toInt := by
  refine Int64.toInt_div_of_ne_right a b fun h => ?_
  rw [h, show (-1 : Int64).toInt = -1 from rfl] at hb
  omega

theorem toInt_div32_of_pos {a b : Int32} (hb : 0 < b.toInt) :
    (a / b).toInt = a.toInt.tdiv b.toInt := by
  refine Int32.toInt_div_of_ne_right a b fun h => ?_
  rw [h, show (-1 : Int32).toInt = -1 from rfl] at hb
  omega

/-! ## Cutting off towards zero -/

/-- A quotient that is cut off towards zero: the rest is shorter than the
divisor, and both have the sign of the dividend. -/
theorem tdiv_spec (a : Int) {b : Int} (hb : 0 < b) :
    a = b * a.tdiv b + a.tmod b ∧ -b < a.tmod b ∧ a.tmod b < b ∧
      (0 ≤ a → 0 ≤ a.tmod b ∧ 0 ≤ a.tdiv b) ∧ (a ≤ 0 → a.tmod b ≤ 0 ∧ a.tdiv b ≤ 0) := by
  refine ⟨(Int.mul_tdiv_add_tmod a b).symm, Int.lt_tmod_of_pos a hb, Int.tmod_lt_of_pos a hb,
    fun ha => ⟨Int.tmod_nonneg b ha, Int.tdiv_nonneg ha (by omega)⟩, fun ha => ?_⟩
  have hneg : 0 ≤ (-a).tdiv b := Int.tdiv_nonneg (by omega) (by omega)
  have hrest : 0 ≤ (-a).tmod b := Int.tmod_nonneg b (by omega)
  rw [Int.neg_tdiv] at hneg
  rw [Int.neg_tmod] at hrest
  omega

/-- A division of `long`s with what is left of it: nothing overflows, and
the rest is shorter than the divisor and has the sign of the dividend. -/
structure Divided (a b : Int64) : Prop where
  quotient : (a / b).toInt = a.toInt.tdiv b.toInt
  product : (a / b * b).toInt = (a / b).toInt * b.toInt
  rest : (a - a / b * b).toInt = a.toInt - (a / b * b).toInt
  lower : -b.toInt < (a - a / b * b).toInt
  upper : (a - a / b * b).toInt < b.toInt
  nonneg : 0 ≤ a.toInt → 0 ≤ (a - a / b * b).toInt ∧ 0 ≤ (a / b).toInt
  nonpos : a.toInt ≤ 0 → (a - a / b * b).toInt ≤ 0 ∧ (a / b).toInt ≤ 0

/-- **A division by a positive number.** -/
theorem divided {a b : Int64} (hb : 0 < b.toInt) : Divided a b := by
  obtain ⟨hr, hlower, hupper, hnonneg, hnonpos⟩ := tdiv_spec a.toInt hb
  have ha := a.toInt_lt
  have ha' := a.le_toInt
  have hbound := b.toInt_lt
  have hquotient : (a / b).toInt = a.toInt.tdiv b.toInt := toInt_div_of_pos hb
  -- the product is the dividend but for the rest
  rw [← hquotient, Int.mul_comm] at hr
  have hproduct : (a / b * b).toInt = (a / b).toInt * b.toInt :=
    toInt_mul_of_fits (by omega) (by omega)
  have hrest : (a - a / b * b).toInt = a.toInt - (a / b * b).toInt :=
    toInt_sub_of_fits (by omega) (by omega)
  rw [← hquotient] at hnonneg hnonpos
  exact ⟨hquotient, hproduct, hrest, by omega, by omega, by omega, by omega⟩

end Zooffice
