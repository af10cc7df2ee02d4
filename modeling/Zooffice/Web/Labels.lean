import Zooffice.Common.Joined
import Zooffice.Web.Model.DrawChart
/-!
# The labels of the time axis

`formatTimeForXaxis` computes hours and minutes by a division of numbers
whose whole part the rounding leaves alone, so a label is the clock of a
time of day (`clock`), and no two times of a day have the same.
-/


namespace Zooffice

namespace DrawChart

/-- The fields of a label: the hours are left out when there are none. -/
def clockFields (s : ℕ) : List Text :=
  (if 3600 ≤ s then [decimal (s / 3600)] else []) ++ [padded (s % 3600 / 60), padded (s % 60)]

/-- The label of a time of day. -/
def clock (s : ℕ) : Text := [':'].intercalate (clockFields s)

theorem clock_eq (s : ℕ) : clock s =
    if 3600 ≤ s then
      decimal (s / 3600) ++ [':'] ++ padded (s % 3600 / 60) ++ [':'] ++ padded (s % 60)
    else padded (s % 3600 / 60) ++ [':'] ++ padded (s % 60) := by
  rw [clock, clockFields]
  split <;> simp [List.intercalate_cons_cons]

theorem colon_not_mem_clockFields (s : ℕ) : ∀ t ∈ clockFields s, ':' ∉ t := by
  intro t ht
  rw [clockFields, List.mem_append] at ht
  rcases ht with ht | ht
  · split at ht
    · rw [List.mem_singleton.1 ht]
      exact not_mem_decimal rfl
    · exact absurd ht List.not_mem_nil
  · simp only [List.mem_cons, List.not_mem_nil, or_false] at ht
    rcases ht with rfl | rfl <;> exact not_mem_padded rfl

/-- **A label tells the time**: its minutes and seconds are the rest of an
hour, and the hours are missing in the first one. -/
theorem clock_inj {s s' : ℕ} (h : clock s = clock s') : s = s' := by
  have hfields : clockFields s = clockFields s' :=
    intercalate_inj (by simp [clockFields]) (colon_not_mem_clockFields s) (by simp [clockFields])
      (colon_not_mem_clockFields s') h
  have hlen := congrArg List.length hfields
  rw [clockFields, clockFields] at hfields hlen
  by_cases hs : 3600 ≤ s <;> by_cases hs' : 3600 ≤ s'
  · simp only [hs, hs', if_true, List.singleton_append, List.cons.injEq, padded_inj,
      decimal_inj] at hfields
    omega
  · simp [hs, hs'] at hlen
  · simp [hs, hs'] at hlen
  · simp only [hs, hs', if_false, List.nil_append, List.cons.injEq, padded_inj] at hfields
    omega

/-! ## What is read of a quotient -/

/-- **The whole part of a quotient** is what `parseInt` reads of it. -/
theorem reads_quotient {a b : ℕ} (ha : a < 9007199254740992) (hb : 0 < b) (hb' : b ≤ 4096) :
    Js.Reads (Js.toDouble ((a : ℚ) / b)) (a / b : ℕ) := by
  rw [← Js.keeps_toDouble.floor_div a b ha hb]
  rcases Nat.eq_zero_or_pos a with rfl | hpos
  · rw [Nat.cast_zero, zero_div]
    have hzero : Js.toDouble 0 = (0 : ℕ) := by exact_mod_cast Js.keeps_toDouble.nat 0 (by omega)
    rw [hzero, Int.floor_natCast]
    exact Js.reads_natCast (by omega)
  · have ha' : (1 : ℚ) ≤ a := by exact_mod_cast hpos
    have hb₀ : (0 : ℚ) < b := Nat.cast_pos.2 hb
    have hb₁ : (b : ℚ) ≤ 4096 := by exact_mod_cast hb'
    have hx : 0 ≤ (a : ℚ) / b := by positivity
    have hlow : (1 : ℚ) / 4096 ≤ Js.toDouble ((a : ℚ) / b) := by
      have hpow : Js.toDouble (1 / 4096) = 1 / 4096 := by
        have h := roundTo_mul_zpow (K := ℚ) (p := 53) (m := 1) (by omega) (-12)
        norm_num at h
        exact h
      rw [← hpow]
      refine Js.keeps_toDouble.mono _ _ (by norm_num) ?_
      rw [div_le_div_iff₀ (by norm_num) hb₀]
      nlinarith only [ha', hb₁]
    have hhigh : Js.toDouble ((a : ℚ) / b) ≤ (9007199254740992 : ℕ) := by
      refine Js.keeps_toDouble.le_natCast le_rfl hx ?_
      refine (div_le_self (Nat.cast_nonneg a) (by exact_mod_cast hb)).trans ?_
      exact_mod_cast ha.le
    exact Js.reads_of_bounds hlow (by exact_mod_cast hhigh)

/-! ## The label of a time -/

/-- A negative time is taken for the beginning of the day. -/
theorem clamped_eq (t : ℤ) : (if t < 0 then 0 else t) = ((max t 0).toNat : ℤ) := by
  split <;> omega

theorem padded_eq_if (n : ℕ) :
    (if (n : ℤ) < 10 then '0' :: decimal n else decimal n) = padded n := by
  rw [padded]
  exact if_congr (by omega) rfl rfl

theorem padded_append_eq_if (n : ℕ) (text : Text) :
    (if (n : ℤ) < 10 then '0' :: (decimal n ++ text) else decimal n ++ text) =
      padded n ++ text := by
  rw [← padded_eq_if]
  split <;> rfl

/-- **A label is the clock of the time of day.** -/
theorem formatTimeForXaxis_eq_clock (t : ℤ) :
    formatTimeForXaxis t = clock ((max t 0).toNat % 86400) := by
  have htmod : ∀ n k : ℕ, ((n : ℤ).tmod k : ℚ) = (n % k : ℕ) := by
    intro n k
    rw [Int.tmod_eq_emod_of_nonneg (by omega), ← Int.natCast_emod, Int.cast_natCast]
  generalize hn : (max t 0).toNat = n
  have hhour : Js.parseIntNumber (Js.toDouble (((n : ℤ).tmod (60 * 60 * 24) : ℤ) / 3600)) =
      (n % 86400 / 3600 : ℕ) := by
    have h := (reads_quotient (a := n % 86400) (b := 3600) (by omega) (by omega) (by omega)).read
    rwa [← htmod] at h
  have hmin : Js.parseIntNumber (Js.toDouble (((n : ℤ).tmod 3600 : ℤ) / 60)) =
      (n % 86400 % 3600 / 60 : ℕ) := by
    have h :=
      (reads_quotient (a := n % 86400 % 3600) (b := 60) (by omega) (by omega) (by omega)).read
    rw [show n % 86400 % 3600 = n % 3600 by omega, ← htmod] at h
    rwa [show n % 86400 % 3600 = n % 3600 by omega]
  have hsec : Js.parseIntNumber ((n : ℤ).tmod 60 : ℤ) = (n % 86400 % 60 : ℕ) := by
    have h := htmod n 60
    rw [Nat.cast_ofNat] at h
    rw [h, (Js.reads_natCast (by omega)).read, show n % 86400 % 60 = n % 60 by omega]
  rw [formatTimeForXaxis, clamped_eq, hn]
  rw [hhour, hmin, hsec, integerText_natCast, integerText_natCast, integerText_natCast]
  simp only [List.append_assoc, padded_append_eq_if, padded_eq_if]
  rw [clock_eq]
  simp only [List.append_assoc]
  exact if_congr (by omega) rfl rfl

/-- **A time of day is shown** by its minutes and seconds in two digits each,
behind its hours from one hour on; times of a day that are shown alike are
the same. -/
theorem formatTimeForXaxis_shows (t : ℤ) :
    (∃ hour min sec : ℕ,
      formatTimeForXaxis t = (if 3600 ≤ max t 0 % 86400 then
          decimal hour ++ [':'] ++ padded min ++ [':'] ++ padded sec
        else padded min ++ [':'] ++ padded sec) ∧
        (padded min).length = 2 ∧ (padded sec).length = 2 ∧ min < 60 ∧ sec < 60 ∧
        3600 * hour + 60 * min + sec = max t 0 % 86400) ∧
      (∀ t', formatTimeForXaxis t = formatTimeForXaxis t' → max t 0 % 86400 = max t' 0 % 86400) ∧
      ∀ t', 0 ≤ t → 0 ≤ t' → t / 86400 = t' / 86400 →
        formatTimeForXaxis t = formatTimeForXaxis t' → t = t' := by
  have hinj : ∀ t', formatTimeForXaxis t = formatTimeForXaxis t' →
      max t 0 % 86400 = max t' 0 % 86400 := by
    intro t' h
    rw [formatTimeForXaxis_eq_clock, formatTimeForXaxis_eq_clock] at h
    have hs := clock_inj h
    omega
  refine ⟨?_, hinj, fun t' ht ht' hday h => ?_⟩
  · generalize hs : (max t 0).toNat % 86400 = s
    refine ⟨s / 3600, s % 3600 / 60, s % 60, ?_, length_padded_of_lt (by omega),
      length_padded_of_lt (by omega), by omega, by omega, by omega⟩
    rw [formatTimeForXaxis_eq_clock, hs, clock_eq]
    exact if_congr (by omega) rfl rfl
  · have hs := hinj t' h
    omega

end DrawChart

end Zooffice
