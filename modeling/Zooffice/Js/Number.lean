import Mathlib.Data.Rat.Floor
import Zooffice.Common.Rounding
import Zooffice.Java.Integers
/-!
# Numbers of JavaScript

A number is a rational that has 53 binary digits, and what the operations
of arithmetic give is rounded to such a number; the bounds of the exponent
are out of reach of what is computed here. `Keeps` is what the code can
count on: with numbers that are not too large it computes as if there were
no rounding.
-/


namespace Zooffice

namespace Js

/-- The number that a result of arithmetic is rounded to. -/
def toDouble (x : ℚ) : ℚ := roundTo 53 x

/-- The whole part, towards zero. -/
def truncate (x : ℚ) : ℤ := if 0 ≤ x then ⌊x⌋ else ⌈x⌉

/-- The numbers whose text has no exponent. -/
def Plain (x : ℚ) : Prop := x = 0 ∨ 1 / 1000000 ≤ |x| ∧ |x| < 1000000000000000000000

/-- `parseInt` of a number. It reads the text of the number, up to the point:
for a text without an exponent (`Plain`), the whole part. -/
def parseIntNumber (x : ℚ) : ℤ := truncate x

/-- `toFixed(0)`, for numbers below 10^21: the nearest whole number, the
larger one of two. -/
def toFixed0 (x : ℚ) : Text :=
  if x < 0 then '-' :: integerText ⌊-x + 1 / 2⌋ else integerText ⌊x + 1 / 2⌋

/-- `for (var step = start; step <= steps; step++)`: the values of the
variable. There is none when the bound is not a number. -/
def loopSteps (start : ℕ) (steps : Option ℚ) : List ℕ :=
  match steps with
  | none => []
  | some steps => List.range' start (⌊steps⌋ + 1 - start).toNat

theorem truncate_of_nonneg {x : ℚ} (h : 0 ≤ x) : truncate x = ⌊x⌋ := if_pos h

@[simp] theorem truncate_natCast (n : ℕ) : truncate (n : ℚ) = n := by
  rw [truncate_of_nonneg (Nat.cast_nonneg n), Int.floor_natCast]

/-- Neither very small nor very large numbers. -/
theorem plain_of_bounds {x : ℚ} (hlow : 1 / 4096 ≤ x) (hhigh : x ≤ 9007199254740992) :
    Plain x := by
  right
  rw [abs_of_nonneg (by linarith)]
  exact ⟨by linarith, by linarith⟩

theorem plain_natCast {n : ℕ} (h : n ≤ 9007199254740992) : Plain (n : ℚ) := by
  rcases Nat.eq_zero_or_pos n with rfl | hpos
  · exact Or.inl Nat.cast_zero
  · have hone : (1 : ℚ) ≤ n := by exact_mod_cast hpos
    exact plain_of_bounds (by linarith) (by exact_mod_cast h)

/-- `parseInt` reads a whole number of a number, whose text has no exponent
that would hide it. -/
structure Reads (x : ℚ) (n : ℤ) : Prop where
  plain : Plain x
  read : parseIntNumber x = n

theorem reads_natCast {n : ℕ} (h : n ≤ 9007199254740992) : Reads (n : ℚ) n :=
  ⟨plain_natCast h, truncate_natCast n⟩

theorem reads_of_bounds {x : ℚ} (hlow : 1 / 4096 ≤ x) (hhigh : x ≤ 9007199254740992) :
    Reads x ⌊x⌋ :=
  ⟨plain_of_bounds hlow hhigh, truncate_of_nonneg (by linarith)⟩

/-! ## What arithmetic keeps -/

/-- An arithmetic that computes whole numbers up to a bound as they are, and
the whole part of their quotients. -/
structure Keeps (fl : ℚ → ℚ) (bound : ℕ) : Prop where
  mono : ∀ x y, 0 ≤ x → x ≤ y → fl x ≤ fl y
  idem : ∀ x, 0 ≤ x → fl (fl x) = fl x
  pos : ∀ x, 0 < x → 0 < fl x
  nat : ∀ n : ℕ, n ≤ bound → fl n = n
  whole : ∀ n : ℕ, ∃ m : ℕ, fl n = m
  floor_div : ∀ a b : ℕ, a < bound → 0 < b → ⌊fl ((a : ℚ) / b)⌋ = (a / b : ℕ)

/-- Exact arithmetic keeps everything. -/
theorem keeps_id (bound : ℕ) : Keeps id bound where
  mono _ _ _ h := h
  idem _ _ := rfl
  pos _ h := h
  nat _ _ := rfl
  whole n := ⟨n, rfl⟩
  floor_div a b _ _ := by rw [id, Rat.floor_natCast_div_natCast, Int.natCast_div]

/-- **The arithmetic of numbers** keeps what is up to 2^53. -/
theorem keeps_toDouble : Keeps toDouble 9007199254740992 where
  mono _ _ hx h := roundTo_mono (by omega) hx h
  idem _ hx := roundTo_roundTo (by omega) hx
  pos _ hx := (zpow_pos two_pos _).trans_le (roundTo_bounds (by omega) hx).1
  nat _ hn := roundTo_natCast (by omega) (by omega)
  whole n := exists_roundTo_natCast (by omega) n
  floor_div _ _ ha hb := floor_roundTo_div (by omega) (by omega) hb

variable {fl : ℚ → ℚ} {bound : ℕ}

theorem Keeps.nonneg (h : Keeps fl bound) {x : ℚ} (hx : 0 ≤ x) : 0 ≤ fl x := by
  rcases hx.eq_or_lt with rfl | hpos
  · have h₀ := h.nat 0 (Nat.zero_le _)
    rw [Nat.cast_zero] at h₀
    exact h₀.ge
  · exact (h.pos x hpos).le

/-- What is at least a whole number stays so. -/
theorem Keeps.natCast_le (h : Keeps fl bound) {n : ℕ} (hn : n ≤ bound) {x : ℚ}
    (hx : (n : ℚ) ≤ x) : (n : ℚ) ≤ fl x := by
  have hmono := h.mono n x (Nat.cast_nonneg n) hx
  rwa [h.nat n hn] at hmono

/-- What is at most a whole number stays so. -/
theorem Keeps.le_natCast (h : Keeps fl bound) {n : ℕ} (hn : n ≤ bound) {x : ℚ} (hx₀ : 0 ≤ x)
    (hx : x ≤ n) : fl x ≤ n := by
  have hmono := h.mono x n hx₀ hx
  rwa [h.nat n hn] at hmono

/-- A whole number that is rounded stays on its side of a whole number. -/
theorem Keeps.natCast_le_iff (h : Keeps fl bound) {n k : ℕ} (hk : k < bound) :
    fl n ≤ k ↔ n ≤ k := by
  constructor
  · intro hle
    by_contra hlt
    have hge : ((k + 1 : ℕ) : ℚ) ≤ fl n := h.natCast_le hk (Nat.cast_le.2 (not_le.1 hlt))
    push_cast at hge
    linarith
  · exact fun hle => h.le_natCast hk.le (Nat.cast_nonneg n) (Nat.cast_le.2 hle)

end Js

end Zooffice
