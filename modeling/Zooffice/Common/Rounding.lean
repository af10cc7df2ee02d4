import Mathlib.Algebra.Order.Floor.Ring
import Mathlib.Data.Int.Log
import Mathlib.Data.Nat.Cast.Order.Field
import Mathlib.Tactic.FieldSimp
import Mathlib.Tactic.Linarith
import Mathlib.Tactic.Ring
/-!
# Rounding to a number of binary digits

`roundTo p x` is the number of `p` binary digits that is nearest to `x`,
the even one of two that are equally near, without a bound on the
exponent. It keeps the order (`roundTo_mono`) and every number that has so
few digits (`roundTo_mul_zpow`), so a quotient of whole numbers of so few
digits keeps its whole part (`floor_roundTo_div`).
-/


namespace Zooffice

variable {K : Type*} [Field K] [LinearOrder K] [IsStrictOrderedRing K] [FloorRing K]

/-- The nearest integer, the even one of two that are equally near. -/
def roundEven (x : K) : ℤ :=
  let below := ⌊x⌋
  if x - below < 1 / 2 then below
  else if 1 / 2 < x - below then below + 1
  else if 2 ∣ below then below
  else below + 1

theorem roundEven_error (x : K) :
    (roundEven x : K) - x ≤ 1 / 2 ∧ x - (roundEven x : K) ≤ 1 / 2 := by
  have hle := Int.floor_le x
  have hlt := Int.lt_floor_add_one x
  rw [roundEven]
  split_ifs <;> push_cast <;> constructor <;> linarith

@[simp] theorem roundEven_intCast (n : ℤ) : roundEven (n : K) = n := by
  rw [roundEven, Int.floor_intCast, sub_self, if_pos (by norm_num)]

/-- The order is kept: of two numbers that would change places each would
be half-way, and they would be the same. -/
theorem roundEven_mono {x y : K} (h : x ≤ y) : roundEven x ≤ roundEven y := by
  by_contra hnot
  have hstep : roundEven y + 1 ≤ roundEven x := by omega
  have hcast : (roundEven y : K) + 1 ≤ roundEven x := by exact_mod_cast hstep
  have hx := (roundEven_error x).1
  have hy := (roundEven_error y).2
  have heq : x = y := by linarith
  exact hnot (by rw [heq])

/-! ## The numbers of `p` digits -/

variable (p : ℕ)

/-- How far the numbers of `p` digits are apart at `x`. -/
def spacing (x : K) : K := 2 ^ (Int.log 2 |x| + 1 - p)

/-- The number of `p` binary digits that is nearest. -/
def roundTo (x : K) : K := roundEven (x / spacing p x) * spacing p x

variable {p} {x y : K}

theorem spacing_pos (x : K) : 0 < spacing p x := zpow_pos two_pos _

@[simp] theorem roundTo_zero : roundTo p (0 : K) = 0 := by
  have h : roundEven (0 : K) = 0 := by exact_mod_cast roundEven_intCast (K := K) 0
  rw [roundTo, zero_div, h, Int.cast_zero, zero_mul]

/-- Whatever is a whole number of spacings stays. -/
theorem roundTo_eq_self {n : ℤ} (h : x = n * spacing p x) : roundTo p x = x := by
  have hdiv : x / spacing p x = n := by
    rw [div_eq_iff (spacing_pos x).ne']
    exact h
  rw [roundTo, hdiv, roundEven_intCast, ← h]

theorem zpow_log_le (hx : 0 < x) : (2 : K) ^ Int.log 2 |x| ≤ x := by
  have h := Int.zpow_log_le_self (b := 2) one_lt_two hx
  rwa [abs_of_pos hx]

theorem lt_zpow_log (hx : 0 < x) : x < (2 : K) ^ (Int.log 2 |x| + 1) := by
  have h := Int.lt_zpow_succ_log_self (b := 2) one_lt_two x
  rwa [abs_of_pos hx]

/-- **A number that has so few digits** stays as it is. -/
theorem roundTo_mul_zpow {m : ℕ} (hm : m < 2 ^ p) (e : ℤ) :
    roundTo p ((m : K) * 2 ^ e) = m * 2 ^ e := by
  rcases Nat.eq_zero_or_pos m with rfl | hpos
  · rw [Nat.cast_zero, zero_mul, roundTo_zero]
  · have hx : (0 : K) < m * 2 ^ e := mul_pos (Nat.cast_pos.2 hpos) (zpow_pos two_pos _)
    -- the spacing is no more than the last of the digits
    have hlt : (m : K) * 2 ^ e < 2 ^ ((p : ℤ) + e) := by
      rw [zpow_add₀ two_ne_zero, zpow_natCast]
      exact mul_lt_mul_of_pos_right (by exact_mod_cast hm) (zpow_pos two_pos _)
    have hlog := (zpow_lt_zpow_iff_right₀ one_lt_two).1 ((zpow_log_le hx).trans_lt hlt)
    obtain ⟨d, hd⟩ := Int.eq_ofNat_of_zero_le
      (show 0 ≤ e - (Int.log 2 |(m : K) * 2 ^ e| + 1 - p) by omega)
    refine roundTo_eq_self (n := m * 2 ^ d) ?_
    rw [spacing, Int.cast_mul, Int.cast_pow, Int.cast_natCast, Int.cast_ofNat, mul_assoc,
      ← zpow_natCast, ← hd, ← zpow_add₀ two_ne_zero, sub_add_cancel]

/-- **A whole number of so few digits**, or the first with more, stays as it
is. -/
theorem roundTo_natCast (hp : 0 < p) {n : ℕ} (hn : n ≤ 2 ^ p) : roundTo p (n : K) = n := by
  rcases hn.lt_or_eq with hlt | rfl
  · have h := roundTo_mul_zpow (K := K) hlt 0
    rwa [zpow_zero, mul_one] at h
  · have h := roundTo_mul_zpow (K := K) (Nat.one_lt_two_pow hp.ne') p
    rwa [Nat.cast_one, one_mul, zpow_natCast, ← Nat.cast_ofNat, ← Nat.cast_pow] at h

theorem roundTo_natCast_mul_two {n : ℕ} (hn : n < 2 ^ p) :
    roundTo p ((n : K) * 2) = n * 2 := by
  have h := roundTo_mul_zpow (K := K) hn 1
  rwa [zpow_one] at h

/-- A number is kept between the powers of two around it. -/
theorem roundTo_bounds (hp : 0 < p) (hx : 0 < x) :
    (2 : K) ^ Int.log 2 |x| ≤ roundTo p x ∧ roundTo p x ≤ 2 ^ (Int.log 2 |x| + 1) := by
  have hpow : ∀ d : ℕ, ((2 ^ d : ℤ) : K) * spacing p x = 2 ^ (Int.log 2 |x| + 1 - p + d) := by
    intro d
    rw [spacing, Int.cast_pow, Int.cast_ofNat, ← zpow_natCast, ← zpow_add₀ two_ne_zero, add_comm]
  have hlow : ((2 ^ (p - 1) : ℤ) : K) ≤ x / spacing p x := by
    rw [le_div_iff₀ (spacing_pos x), hpow,
      show Int.log 2 |x| + 1 - p + ((p - 1 : ℕ) : ℤ) = Int.log 2 |x| by omega]
    exact zpow_log_le hx
  have hhigh : x / spacing p x ≤ ((2 ^ p : ℤ) : K) := by
    rw [div_le_iff₀ (spacing_pos x), hpow, sub_add_cancel]
    exact (lt_zpow_log hx).le
  constructor
  · have h := roundEven_mono hlow
    rw [roundEven_intCast] at h
    have hmul := mul_le_mul_of_nonneg_right (Int.cast_le (R := K).2 h) (spacing_pos (p := p) x).le
    rwa [hpow, show Int.log 2 |x| + 1 - p + ((p - 1 : ℕ) : ℤ) = Int.log 2 |x| by omega] at hmul
  · have h := roundEven_mono hhigh
    rw [roundEven_intCast] at h
    have hmul := mul_le_mul_of_nonneg_right (Int.cast_le (R := K).2 h) (spacing_pos (p := p) x).le
    rwa [hpow, sub_add_cancel] at hmul

theorem roundTo_nonneg (hp : 0 < p) (hx : 0 ≤ x) : 0 ≤ roundTo p x := by
  rcases hx.eq_or_lt with rfl | hpos
  · rw [roundTo_zero]
  · exact (zpow_pos two_pos _).le.trans (roundTo_bounds hp hpos).1

/-- **The order is kept**: with one spacing the nearest integers keep it,
and with two there is a power of two in between. -/
theorem roundTo_mono (hp : 0 < p) (hx : 0 ≤ x) (h : x ≤ y) : roundTo p x ≤ roundTo p y := by
  rcases hx.eq_or_lt with rfl | hpos
  · rw [roundTo_zero]
    exact roundTo_nonneg hp h
  · have hy : 0 < y := hpos.trans_le h
    have hlog : Int.log 2 |x| ≤ Int.log 2 |y| := by
      rw [abs_of_pos hpos, abs_of_pos hy]
      exact Int.log_mono_right hpos h
    rcases hlog.eq_or_lt with heq | hlt
    · have hspacing : spacing p x = spacing p y := by rw [spacing, spacing, heq]
      rw [roundTo, roundTo, hspacing]
      refine mul_le_mul_of_nonneg_right (Int.cast_le.2 (roundEven_mono ?_)) (spacing_pos y).le
      exact div_le_div_of_nonneg_right h (spacing_pos y).le
    · calc roundTo p x ≤ 2 ^ (Int.log 2 |x| + 1) := (roundTo_bounds hp hpos).2
        _ ≤ 2 ^ Int.log 2 |y| := zpow_le_zpow_right₀ one_lt_two.le (by omega)
        _ ≤ roundTo p y := (roundTo_bounds hp hy).1

/-- **What is rounded is a number of so few digits**: it is a whole number
of spacings. -/
theorem exists_roundTo_eq (hp : 0 < p) (hx : 0 < x) :
    ∃ m : ℕ, m ≤ 2 ^ p ∧ roundTo p x = m * spacing p x := by
  have hlow : (0 : K) ≤ roundEven (x / spacing p x) := by
    have h := roundTo_nonneg hp hx.le
    rw [roundTo] at h
    exact nonneg_of_mul_nonneg_left h (spacing_pos x)
  obtain ⟨m, hm⟩ := Int.eq_ofNat_of_zero_le (Int.cast_nonneg_iff.1 hlow)
  have heq : roundTo p x = m * spacing p x := by rw [roundTo, hm, Int.cast_natCast]
  refine ⟨m, ?_, heq⟩
  have hhigh := (roundTo_bounds hp hx).2
  rw [heq, ← le_div_iff₀ (spacing_pos x), spacing, ← zpow_sub₀ two_ne_zero,
    sub_sub_cancel, zpow_natCast] at hhigh
  exact_mod_cast hhigh

/-- What is rounded stays when it is rounded again. -/
theorem roundTo_roundTo (hp : 0 < p) (hx : 0 ≤ x) : roundTo p (roundTo p x) = roundTo p x := by
  rcases hx.eq_or_lt with rfl | hpos
  · rw [roundTo_zero, roundTo_zero]
  · obtain ⟨m, hm, heq⟩ := exists_roundTo_eq hp hpos
    rw [heq, spacing]
    rcases hm.lt_or_eq with hlt | rfl
    · exact roundTo_mul_zpow hlt _
    · have h := roundTo_mul_zpow (K := K) (Nat.one_lt_two_pow hp.ne')
        (p + (Int.log 2 |x| + 1 - p))
      rw [Nat.cast_one, one_mul, zpow_add₀ two_ne_zero, zpow_natCast] at h
      rwa [Nat.cast_pow, Nat.cast_ofNat]

/-- A whole number is rounded to a whole number. -/
theorem exists_roundTo_natCast (hp : 0 < p) (n : ℕ) : ∃ m : ℕ, roundTo p (n : K) = m := by
  by_cases hn : n ≤ 2 ^ p
  · exact ⟨n, roundTo_natCast hp hn⟩
  · have hpos : (0 : K) < n := Nat.cast_pos.2 (Nat.zero_lt_of_lt (not_le.1 hn))
    obtain ⟨m, -, heq⟩ := exists_roundTo_eq hp hpos
    -- from there on the spacing is a whole number
    have hlog : (p : ℤ) ≤ Int.log 2 |(n : K)| := by
      rw [abs_of_pos hpos]
      refine (Int.zpow_le_iff_le_log one_lt_two hpos).1 ?_
      rw [zpow_natCast]
      exact_mod_cast (not_le.1 hn).le
    obtain ⟨d, hd⟩ := Int.eq_ofNat_of_zero_le (show 0 ≤ Int.log 2 |(n : K)| + 1 - p by omega)
    refine ⟨m * 2 ^ d, ?_⟩
    rw [heq, spacing, hd, zpow_natCast]
    push_cast
    rfl

/-- What is rounded is off by a fraction of the number. -/
theorem roundTo_le (hx : 0 < x) : roundTo p x ≤ x + x / 2 ^ p := by
  have herror := (roundEven_error (x / spacing p x)).1
  have hhalf : spacing p x / 2 ≤ x / 2 ^ p := by
    rw [spacing, zpow_sub₀ two_ne_zero, zpow_natCast, zpow_add₀ two_ne_zero, zpow_one,
      div_right_comm, mul_div_cancel_right₀ _ (two_ne_zero' K)]
    exact div_le_div_of_nonneg_right (zpow_log_le hx) (pow_pos two_pos _).le
  have hmul := mul_le_mul_of_nonneg_right herror (spacing_pos (p := p) x).le
  rw [sub_mul, div_mul_cancel₀ _ (spacing_pos x).ne'] at hmul
  rw [roundTo]
  linarith

/-- **A quotient of whole numbers** keeps its whole part: what is missing
to the next whole number is more than the rounding adds. -/
theorem floor_roundTo_div (hp : 0 < p) {a b : ℕ} (ha : a < 2 ^ p) (hb : 0 < b) :
    ⌊roundTo p ((a : K) / b)⌋ = (a / b : ℕ) := by
  have hbK : (0 : K) < b := Nat.cast_pos.2 hb
  have hdiv : b * (a / b) + a % b = a := Nat.div_add_mod a b
  have hmod : a % b < b := Nat.mod_lt a hb
  have hlow : ((a / b : ℕ) : K) ≤ (a : K) / b := Nat.cast_div_le
  have hquot : a / b < 2 ^ p := (Nat.div_le_self a b).trans_lt ha
  rw [Int.floor_eq_iff]
  refine ⟨?_, ?_⟩
  · have h := roundTo_mono hp (Nat.cast_nonneg (a / b)) hlow
    rw [roundTo_natCast hp hquot.le] at h
    exact_mod_cast h
  · rcases Nat.eq_zero_or_pos a with rfl | hpos
    · simp
    · have hx : (0 : K) < (a : K) / b := div_pos (Nat.cast_pos.2 hpos) hbK
      -- the rounding adds less than one part of the divisor
      have hadd : (a : K) / b / 2 ^ p < 1 / b := by
        rw [div_div, div_lt_div_iff₀ (by positivity) hbK, one_mul, mul_comm (b : K)]
        exact mul_lt_mul_of_pos_right (by exact_mod_cast ha) hbK
      have hnext : (a : K) / b + 1 / b ≤ ((a / b : ℕ) : K) + 1 := by
        rw [← add_div, div_le_iff₀ hbK]
        have hnat : a + 1 ≤ (a / b + 1) * b := by
          rw [Nat.add_mul, Nat.one_mul, Nat.mul_comm]
          omega
        exact_mod_cast hnat
      have hround := roundTo_le (p := p) hx
      have hlt : roundTo p ((a : K) / b) < ((a / b : ℕ) : K) + 1 := by linarith
      exact_mod_cast hlt

end Zooffice
