import Zooffice.Time.Model.DateUtil
/-!
# Durations and their texts

A text of a duration is four numbers joined by colons, the first of which
is left out when it is zero (`spelled`), and the text tells the numbers.
`ms2Time` divides without an overflow and spells what it divides into;
`timeToMs` adds up in `int`s, so it goes wrong from the second on that no
longer fits.
-/


namespace Zooffice

namespace DateUtil

/-! ## The text of four numbers -/

/-- The fields of a text: that of the days is left out when there are
none. -/
def fields (day hour min sec : Nat) : List Text :=
  (if day = 0 then [] else [padded day]) ++ [padded hour, padded min, padded sec]

/-- The text that spells four numbers. -/
def spelled (day hour min sec : Nat) : Text := [':'].intercalate (fields day hour min sec)

variable {day hour min sec : Nat}

theorem spelled_eq (day hour min sec : Nat) : spelled day hour min sec =
    (if day = 0 then [] else padded day ++ [':']) ++ padded hour ++ [':'] ++ padded min ++
      [':'] ++ padded sec := by
  rw [spelled, fields]
  split <;> simp [List.intercalate_cons_cons]

/-- **A text is its fields.** -/
theorem splitOn_spelled : (spelled day hour min sec).splitOn ':' = fields day hour min sec := by
  refine List.splitOn_intercalate ':' (fun t ht => ?_) (by simp [fields])
  have hpadded : ∃ n, t = padded n := by
    rw [fields, List.mem_append] at ht
    rcases ht with ht | ht
    · split at ht
      · exact absurd ht List.not_mem_nil
      · exact ⟨day, List.mem_singleton.1 ht⟩
    · simp only [List.mem_cons, List.not_mem_nil, or_false] at ht
      rcases ht with ht | ht | ht
      · exact ⟨hour, ht⟩
      · exact ⟨min, ht⟩
      · exact ⟨sec, ht⟩
  obtain ⟨n, rfl⟩ := hpadded
  exact not_mem_padded rfl

/-- The fields tell the numbers: there are three of them without days and
four with. -/
theorem fields_inj {day' hour' min' sec' : Nat}
    (h : fields day hour min sec = fields day' hour' min' sec') :
    day = day' ∧ hour = hour' ∧ min = min' ∧ sec = sec' := by
  have hlen := congrArg List.length h
  rw [fields, fields] at h hlen
  by_cases hday : day = 0 <;> by_cases hday' : day' = 0
  · simp only [hday, hday', if_true, List.nil_append, List.cons.injEq, padded_inj] at h
    omega
  · simp [hday, hday'] at hlen
  · simp [hday, hday'] at hlen
  · simp only [hday, hday', if_false, List.singleton_append, List.cons.injEq, padded_inj] at h
    omega

/-- **The text tells the numbers.** -/
theorem spelled_inj {day' hour' min' sec' : Nat}
    (h : spelled day hour min sec = spelled day' hour' min' sec') :
    day = day' ∧ hour = hour' ∧ min = min' ∧ sec = sec' := by
  refine fields_inj ?_
  rw [← splitOn_spelled, h, splitOn_spelled]

/-- There is no minus sign in a text of four numbers. -/
theorem minus_not_mem_spelled : '-' ∉ spelled day hour min sec := by
  rw [spelled_eq]
  split <;> simp [not_mem_padded]

/-! ## What `ms2Time` computes -/

@[simp] theorem toInt_ss : ss.toInt = 1000 := by decide
@[simp] theorem toInt_mi : mi.toInt = 60000 := by decide
@[simp] theorem toInt_hh : hh.toInt = 3600000 := by decide
@[simp] theorem toInt_dd : dd.toInt = 86400000 := by decide

/-- What is left of a duration when the whole days are taken away. -/
def afterDays (ms : Int64) : Int64 := ms - ms / dd.toInt64 * dd.toInt64

/-- What is left when the whole hours are taken away too. -/
def afterHours (ms : Int64) : Int64 := afterDays ms - afterDays ms / hh.toInt64 * hh.toInt64

/-- What is left when the whole minutes are taken away too. -/
def afterMinutes (ms : Int64) : Int64 := afterHours ms - afterHours ms / mi.toInt64 * mi.toInt64

/-- A division and what is left of it: the values that the operations give,
each with the value that the operation has without a bound. -/
def division (a b : Int64) : List (Int64 × Int) :=
  [(a / b, a.toInt.tdiv b.toInt), (a / b * b, (a / b).toInt * b.toInt),
    (a - a / b * b, a.toInt - (a / b * b).toInt)]

/-- The operations of `ms2Time`. -/
def operations (ms : Int64) : List (Int64 × Int) :=
  division ms dd.toInt64 ++ division (afterDays ms) hh.toInt64 ++
    division (afterHours ms) mi.toInt64 ++
    [(afterMinutes ms / ss.toInt64, (afterMinutes ms).toInt.tdiv ss.toInt64.toInt)]

/-- **No operation overflows.** -/
theorem operations_exact (ms : Int64) : ∀ operation ∈ operations ms,
    operation.1.toInt = operation.2 := by
  have hdivision : ∀ a b : Int64, 0 < b.toInt → ∀ operation ∈ division a b,
      operation.1.toInt = operation.2 := by
    intro a b hb
    simp only [division, List.forall_mem_cons, List.not_mem_nil, false_implies, implies_true,
      and_true]
    exact ⟨(divided hb).quotient, (divided hb).product, (divided hb).rest⟩
  simp only [operations, List.forall_mem_append, List.forall_mem_singleton]
  exact ⟨⟨⟨hdivision _ _ (by simp), hdivision _ _ (by simp)⟩, hdivision _ _ (by simp)⟩,
    (divided (by simp)).quotient⟩

theorem ms2Time_eq (ms : Int64) : ms2Time ms =
    (if field (ms / dd.toInt64) = ['0', '0'] then [] else field (ms / dd.toInt64) ++ [':']) ++
      field (afterDays ms / hh.toInt64) ++ [':'] ++ field (afterHours ms / mi.toInt64) ++ [':'] ++
      field (afterMinutes ms / ss.toInt64) := rfl

/-- **A duration is its days, hours, minutes and seconds** and less than a
second, all of the same sign. -/
theorem duration_spec (ms : Int64) : ∃ day hour minute second rest : Int,
    (ms / dd.toInt64).toInt = day ∧ (afterDays ms / hh.toInt64).toInt = hour ∧
      (afterHours ms / mi.toInt64).toInt = minute ∧
      (afterMinutes ms / ss.toInt64).toInt = second ∧
      ms.toInt = 86400000 * day + 3600000 * hour + 60000 * minute + 1000 * second + rest ∧
      (0 ≤ ms.toInt → 0 ≤ day ∧ (0 ≤ hour ∧ hour < 24) ∧ (0 ≤ minute ∧ minute < 60) ∧
        (0 ≤ second ∧ second < 60) ∧ 0 ≤ rest ∧ rest < 1000) ∧
      (ms.toInt ≤ 0 → day ≤ 0 ∧ hour ≤ 0 ∧ minute ≤ 0 ∧ second ≤ 0 ∧ -1000 < rest) := by
  have hday : Divided ms dd.toInt64 := divided (by simp)
  have hhour : Divided (afterDays ms) hh.toInt64 := divided (by simp)
  have hminute : Divided (afterHours ms) mi.toInt64 := divided (by simp)
  have hsecond : Divided (afterMinutes ms) ss.toInt64 := divided (by simp)
  refine ⟨_, _, _, _, (afterMinutes ms - afterMinutes ms / ss.toInt64 * ss.toInt64).toInt,
    rfl, rfl, rfl, rfl, ?_⟩
  -- what each division leaves is what the next one divides
  obtain ⟨-, hproduct, hrest, hlower, hupper, hnonneg, hnonpos⟩ := hday
  rw [show ms - ms / dd.toInt64 * dd.toInt64 = afterDays ms from rfl, hproduct] at *
  obtain ⟨-, hproduct', hrest', hlower', hupper', hnonneg', hnonpos'⟩ := hhour
  rw [show afterDays ms - afterDays ms / hh.toInt64 * hh.toInt64 = afterHours ms from rfl,
    hproduct'] at *
  obtain ⟨-, hproduct'', hrest'', hlower'', hupper'', hnonneg'', hnonpos''⟩ := hminute
  rw [show afterHours ms - afterHours ms / mi.toInt64 * mi.toInt64 = afterMinutes ms from rfl,
    hproduct''] at *
  obtain ⟨-, hproduct₃, hrest₃, hlower₃, hupper₃, hnonneg₃, hnonpos₃⟩ := hsecond
  rw [hproduct₃] at hrest₃
  simp only [Int32.toInt_toInt64, toInt_ss, toInt_mi, toInt_hh, toInt_dd] at *
  omega

/-! ## The text of a duration -/

theorem lt_constant10 {x : Int64} : x < constant10.toInt64 ↔ x.toInt < 10 := by
  rw [Int64.lt_iff_toInt_lt, Int32.toInt_toInt64, show constant10.toInt = 10 from rfl]

theorem field_of_nonneg {x : Int64} (h : 0 ≤ x.toInt) : field x = padded x.toInt.toNat := by
  have htext : integerText x.toInt = decimal x.toInt.toNat := by
    rw [← integerText_natCast, Int.toNat_of_nonneg h]
  rw [field, padded, htext]
  exact if_congr (by rw [lt_constant10]; omega) rfl rfl

/-- **A duration that is not negative** is spelled as its days, hours,
minutes and seconds. -/
theorem ms2Time_eq_spelled {ms : Int64} (h : 0 ≤ ms.toInt) : ∃ day hour minute second : Nat,
    ms2Time ms = spelled day hour minute second ∧ hour < 24 ∧ minute < 60 ∧ second < 60 ∧
      86400 * day + 3600 * hour + 60 * minute + second = ms.toInt.toNat / 1000 := by
  obtain ⟨day, hour, minute, second, rest, hday, hhour, hminute, hsecond, hsum, hnonneg, -⟩ :=
    duration_spec ms
  obtain ⟨hday₀, ⟨hhour₀, hhour₁⟩, ⟨hminute₀, hminute₁⟩, ⟨hsecond₀, hsecond₁⟩, hrest⟩ := hnonneg h
  refine ⟨day.toNat, hour.toNat, minute.toNat, second.toNat, ?_, by omega, by omega, by omega,
    by omega⟩
  have hdays : (if field (ms / dd.toInt64) = ['0', '0'] then []
      else field (ms / dd.toInt64) ++ [':']) =
      if day.toNat = 0 then [] else padded day.toNat ++ [':'] := by
    rw [field_of_nonneg (by omega), hday]
    refine if_congr ?_ rfl rfl
    rw [show ['0', '0'] = padded 0 from rfl, padded_inj]
  rw [ms2Time_eq, spelled_eq, hdays, field_of_nonneg (by omega), field_of_nonneg (by omega),
    field_of_nonneg (by omega), hhour, hminute, hsecond]

/-- The text of the numbers of a duration, and of no other numbers. -/
theorem ms2Time_eq_spelled_iff {ms : Int64} (h : 0 ≤ ms.toInt) {day hour min sec : Nat}
    (hhour : hour < 24) (hmin : min < 60) (hsec : sec < 60) :
    ms2Time ms = spelled day hour min sec ↔
      86400 * day + 3600 * hour + 60 * min + sec = ms.toInt.toNat / 1000 := by
  obtain ⟨day', hour', min', sec', htext, hhour', hmin', hsec', hsum⟩ := ms2Time_eq_spelled h
  rw [htext]
  constructor
  · intro heq
    obtain ⟨rfl, rfl, rfl, rfl⟩ := spelled_inj heq
    exact hsum
  · intro heq
    rw [show day' = day by omega, show hour' = hour by omega, show min' = min by omega,
      show sec' = sec by omega]

theorem minus_mem_field {x : Int64} (h : x.toInt < 0) : '-' ∈ field x := by
  rw [field]
  split
  · exact List.mem_cons_of_mem _ (minus_mem_integerText.2 h)
  · exact minus_mem_integerText.2 h

/-- A negative duration of a second or more shows a minus sign. -/
theorem minus_mem_ms2Time {ms : Int64} (h : ms.toInt ≤ -1000) : '-' ∈ ms2Time ms := by
  obtain ⟨day, hour, minute, second, rest, hday, hhour, hminute, hsecond, hsum, -, hnonpos⟩ :=
    duration_spec ms
  -- one of the four numbers is negative
  have hneg : day < 0 ∨ hour < 0 ∨ minute < 0 ∨ second < 0 := by omega
  rw [ms2Time_eq]
  simp only [List.mem_append]
  rcases hneg with hneg | hneg | hneg | hneg
  · have hmem : '-' ∈ field (ms / dd.toInt64) := minus_mem_field (hday ▸ hneg)
    refine Or.inl (Or.inl (Or.inl (Or.inl (Or.inl ?_))))
    rw [if_neg fun hzero => by rw [hzero] at hmem; exact absurd hmem (by decide)]
    exact List.mem_append_left _ hmem
  · exact Or.inl (Or.inl (Or.inl (Or.inl (Or.inr (minus_mem_field (hhour ▸ hneg))))))
  · exact Or.inl (Or.inl (Or.inr (minus_mem_field (hminute ▸ hneg))))
  · exact Or.inr (minus_mem_field (hsecond ▸ hneg))

/-- **The text of every duration that is not negative** is its hours,
minutes and seconds in two digits each, behind its days from one day on;
nothing overflows on the way, and the text tells the whole seconds. -/
theorem ms2Time_splits {ms : Int64} (h : 0 ≤ ms) :
    (∃ day hour minute second : Nat,
      (ms2Time ms).splitOn ':' = (if 86400000 ≤ ms.toInt then [padded day] else []) ++
          [padded hour, padded minute, padded second] ∧
        2 ≤ (padded day).length ∧ (padded hour).length = 2 ∧ (padded minute).length = 2 ∧
        (padded second).length = 2 ∧ hour < 24 ∧ minute < 60 ∧ second < 60 ∧
        86400 * day + 3600 * hour + 60 * minute + second = ms.toInt.toNat / 1000) ∧
      (∀ operation ∈ operations ms, operation.1.toInt = operation.2) ∧
      ∀ ms' : Int64, 0 ≤ ms' → ms2Time ms = ms2Time ms' →
        ms.toInt / 1000 = ms'.toInt / 1000 := by
  have hms : 0 ≤ ms.toInt := Int64.le_iff_toInt_le.1 h
  obtain ⟨day, hour, minute, second, htext, hhour, hminute, hsecond, hsum⟩ :=
    ms2Time_eq_spelled hms
  refine ⟨⟨day, hour, minute, second, ?_, two_le_length_padded,
    length_padded_of_lt (by omega), length_padded_of_lt (by omega),
    length_padded_of_lt (by omega), hhour, hminute, hsecond, hsum⟩, operations_exact ms, ?_⟩
  · rw [htext, splitOn_spelled, fields]
    congr 1
    by_cases hday : day = 0
    · rw [if_pos hday, if_neg (by omega)]
    · rw [if_neg hday, if_pos (by omega)]
  · intro ms' h' heq
    have hms' : 0 ≤ ms'.toInt := Int64.le_iff_toInt_le.1 h'
    have hsum' := (ms2Time_eq_spelled_iff hms' hhour hminute hsecond).1 (heq ▸ htext)
    omega

/-- One day, one second and a half. -/
theorem ms2Time_splits_day :
    (0 : Int64) ≤ 86401500 ∧
      (ms2Time 86401500).splitOn ':' = [['0', '1'], ['0', '0'], ['0', '0'], ['0', '1']] ∧
      ∀ ms' : Int64, 0 ≤ ms' → ms2Time 86401500 = ms2Time ms' →
        (86401500 : Int64).toInt / 1000 = ms'.toInt / 1000 :=
  ⟨by decide, by decide, (ms2Time_splits (show (0 : Int64) ≤ 86401500 by decide)).2.2⟩

/-! ## There and back -/

/-- The seconds of four numbers. -/
def seconds (day hour min sec : Int32) : Int :=
  86400 * day.toInt + 3600 * hour.toInt + 60 * min.toInt + sec.toInt

/-- **The seconds are added up in `int`s**, and only then widened. -/
theorem toInt_timeToMs (day hour min sec : Int32) :
    (timeToMs day hour min sec).toInt = 1000 * (seconds day hour min sec).bmod 4294967296 := by
  have hsum : (((day * constant24 + hour) * constant60 + min) * constant60 + sec).toInt =
      (seconds day hour min sec).bmod 4294967296 := by
    rw [Int32.toInt_add, Int32.toInt_mul, Int32.toInt_add, Int32.toInt_mul, Int32.toInt_add,
      Int32.toInt_mul, show constant24.toInt = 24 from rfl, show constant60.toInt = 60 from rfl]
    simp only [Int.bmod_add_bmod, Int.bmod_mul_bmod]
    congr 1
    rw [seconds]
    omega
  rw [timeToMs, ← hsum]
  refine (toInt_mul_of_fits ?_ ?_).trans ?_ <;>
    rw [Int32.toInt_toInt64, Int32.toInt_toInt64, show constant1000.toInt = 1000 from rfl]
  · have := Int32.le_toInt (((day * constant24 + hour) * constant60 + min) * constant60 + sec)
    omega
  · have := Int32.toInt_lt (((day * constant24 + hour) * constant60 + min) * constant60 + sec)
    omega

/-- **Four numbers come back as they were when their seconds are an
`int`**: the sum that does not fit wraps round, to a negative duration or
to one of other seconds. -/
theorem ms2Time_timeToMs_iff {day hour min sec : Int32} (hday : 0 ≤ day)
    (hhour : 0 ≤ hour ∧ hour < 24) (hmin : 0 ≤ min ∧ min < 60) (hsec : 0 ≤ sec ∧ sec < 60) :
    ms2Time (timeToMs day hour min sec) =
        spelled day.toInt.toNat hour.toInt.toNat min.toInt.toNat sec.toInt.toNat ↔
      86400 * day.toInt + 3600 * hour.toInt + 60 * min.toInt + sec.toInt ≤ 2147483647 := by
  have hday' : 0 ≤ day.toInt := Int32.le_iff_toInt_le.1 hday
  have hhour' : 0 ≤ hour.toInt ∧ hour.toInt < 24 :=
    ⟨Int32.le_iff_toInt_le.1 hhour.1, Int32.lt_iff_toInt_lt.1 hhour.2⟩
  have hmin' : 0 ≤ min.toInt ∧ min.toInt < 60 :=
    ⟨Int32.le_iff_toInt_le.1 hmin.1, Int32.lt_iff_toInt_lt.1 hmin.2⟩
  have hsec' : 0 ≤ sec.toInt ∧ sec.toInt < 60 :=
    ⟨Int32.le_iff_toInt_le.1 hsec.1, Int32.lt_iff_toInt_lt.1 hsec.2⟩
  have hms := toInt_timeToMs day hour min sec
  rw [seconds] at hms
  have hlt := Int.bmod_lt (x := 86400 * day.toInt + 3600 * hour.toInt + 60 * min.toInt + sec.toInt)
    (show 0 < 4294967296 by omega)
  by_cases hneg : (timeToMs day hour min sec).toInt < 0
  · -- the text shows a minus sign, and the seconds are no `int`
    have hminus : '-' ∈ ms2Time (timeToMs day hour min sec) := minus_mem_ms2Time (by omega)
    refine iff_of_false (fun heq => ?_) fun hfits => ?_
    · rw [heq] at hminus
      exact minus_not_mem_spelled hminus
    · rw [Int.bmod_eq_of_le_mul_two (by omega) (by omega)] at hms
      omega
  · rw [ms2Time_eq_spelled_iff (by omega) (by omega) (by omega) (by omega)]
    constructor
    · intro hsum
      omega
    · intro hfits
      rw [Int.bmod_eq_of_le_mul_two (by omega) (by omega)] at hms
      omega

/-- 24855 days and a bit are an `int` of seconds. -/
theorem ms2Time_timeToMs_days :
    (86400 * (24855 : Int32).toInt + 3600 * (3 : Int32).toInt + 60 * (14 : Int32).toInt +
        (7 : Int32).toInt ≤ 2147483647) ∧
      ms2Time (timeToMs 24855 3 14 7) = spelled 24855 3 14 7 :=
  ⟨by decide, (ms2Time_timeToMs_iff (show (0 : Int32) ≤ 24855 by decide)
    (show (0 : Int32) ≤ 3 ∧ (3 : Int32) < 24 by decide)
    (show (0 : Int32) ≤ 14 ∧ (14 : Int32) < 60 by decide)
    (show (0 : Int32) ≤ 7 ∧ (7 : Int32) < 60 by decide)).2 (by decide)⟩

/-- **One day more**, and the text is that of a negative duration. -/
theorem ms2Time_timeToMs_ne_spelled :
    ms2Time (timeToMs 24856 0 0 0) ≠ spelled 24856 0 0 0 := by
  decide

end DateUtil

end Zooffice
