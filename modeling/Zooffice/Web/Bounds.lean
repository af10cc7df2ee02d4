import Zooffice.Web.Labels
/-!
# The upper end of a chart

Both functions that draw a chart take the largest value of their data,
though only one of them looks for nulls (`largest`), and make of it an end
of the axis that is six times a whole number above it, so that the seven
ticks are whole numbers.
-/


namespace Zooffice

namespace DrawChart

/-- A series of nulls and whole numbers below 2^53. -/
def Counted (values : Series) : Prop :=
  ∀ value ∈ values, value = none ∨ ∃ n : ℕ, n < 9007199254740992 ∧ value = some (n : ℚ)

/-- The largest number of a series, zero if there is none. -/
structure IsMax (values : Series) (m : ℚ) : Prop where
  upper : ∀ x, some x ∈ values → x ≤ m
  attained : some m ∈ values ∨ m = 0 ∧ ∀ x, some x ∉ values

/-! ## The largest value -/

/-- The larger of a number and a value that may be null. -/
def larger (ymax : ℚ) (value : Option ℚ) : ℚ :=
  match value with
  | none => ymax
  | some x => max ymax x

/-- The largest of a number and some values. -/
def largest (ymax : ℚ) (values : Series) : ℚ := values.foldl larger ymax

theorem le_largest (ymax : ℚ) (values : Series) : ymax ≤ largest ymax values := by
  induction values generalizing ymax with
  | nil => exact le_rfl
  | cons value values ih =>
      refine le_trans ?_ (ih (larger ymax value))
      rcases value with _ | x
      · exact le_rfl
      · exact le_max_left ymax x

theorem largest_upper {ymax x : ℚ} {values : Series} (h : some x ∈ values) :
    x ≤ largest ymax values := by
  induction values generalizing ymax with
  | nil => exact absurd h List.not_mem_nil
  | cons value values ih =>
      rcases List.mem_cons.1 h with rfl | h
      · exact (le_max_right ymax x).trans (le_largest _ values)
      · exact ih h

theorem largest_attained (ymax : ℚ) (values : Series) :
    largest ymax values = ymax ∨ some (largest ymax values) ∈ values := by
  induction values generalizing ymax with
  | nil => exact Or.inl rfl
  | cons value values ih =>
      have hstep : larger ymax value = ymax ∨ some (larger ymax value) = value := by
        rcases value with _ | x
        · exact Or.inl rfl
        · exact (max_choice ymax x).imp id fun h => congrArg some h
      have hrest : largest ymax (value :: values) = largest (larger ymax value) values := rfl
      rw [hrest]
      rcases ih (larger ymax value) with h | h
      · rw [h]
        refine hstep.imp_right fun hvalue => ?_
        rw [hvalue]
        exact List.mem_cons_self
      · exact Or.inr (List.mem_cons_of_mem _ h)

/-- **From zero on**, the largest is the largest number of a series whose
numbers are not negative. -/
theorem isMax_largest {values : Series} (h : Counted values) : IsMax values (largest 0 values) := by
  refine ⟨fun x hx => largest_upper hx, ?_⟩
  rcases largest_attained 0 values with hzero | hmem
  · by_cases hnone : ∀ x, some x ∉ values
    · exact Or.inr ⟨hzero, hnone⟩
    · -- a number that is not above zero is zero
      push Not at hnone
      obtain ⟨x, hx⟩ := hnone
      have hle : x ≤ 0 := hzero ▸ largest_upper hx
      rcases h _ hx with hnull | ⟨n, -, hn⟩
      · exact absurd hnull (Option.some_ne_none x)
      · have hnonneg : 0 ≤ x := Option.some_inj.1 hn ▸ Nat.cast_nonneg n
        rw [hzero, ← le_antisymm hle hnonneg]
        exact Or.inl hx
  · exact Or.inl hmem

/-- The test of `getMaxValue` makes the larger one. -/
theorem step_getMaxValue {ymax : ℚ} (value : Option ℚ) :
    (if value ≠ none ∧ toNumber (some ymax) < toNumber value then value else some ymax) =
      some (larger ymax value) := by
  rcases value with _ | x
  · rfl
  · by_cases hlt : ymax < x
    · rw [if_pos ⟨Option.some_ne_none x, hlt⟩, larger, max_eq_right hlt.le]
    · rw [if_neg fun h => hlt h.2, larger, max_eq_left (not_lt.1 hlt)]

/-- So does that of `getMultiPlotMaxValue`: a null is compared as zero,
which is above nothing that comes up. -/
theorem step_getMultiPlotMaxValue {ymax : ℚ} (h : 0 ≤ ymax) (value : Option ℚ) :
    (if toNumber (some ymax) < toNumber value then value else some ymax) =
      some (larger ymax value) := by
  rcases value with _ | x
  · exact if_neg (not_lt.2 h)
  · show (if ymax < x then some x else some ymax) = some (larger ymax (some x))
    by_cases hlt : ymax < x
    · rw [if_pos hlt, larger, max_eq_right hlt.le]
    · rw [if_neg hlt, larger, max_eq_left (not_lt.1 hlt)]

variable (eval : Text → Series)

theorem getMaxValue_array (values : Series) :
    getMaxValue eval (some (.array values)) = some (some (largest 0 values)) := by
  have hfold : ∀ ymax : ℚ, values.foldl (fun ymax value =>
      if value ≠ none ∧ toNumber ymax < toNumber value then value else ymax) (some ymax) =
        some (largest ymax values) := by
    induction values with
    | nil => exact fun _ => rfl
    | cons value values ih =>
        intro ymax
        rw [List.foldl_cons, step_getMaxValue, ih]
        rfl
  exact congrArg some (hfold 0)

theorem getMultiPlotMaxValue_eq (data : List Series) :
    getMultiPlotMaxValue data = some (largest 0 data.flatten) := by
  have hfold : ∀ (values : Series) (ymax : ℚ), 0 ≤ ymax → values.foldl (fun ymax value =>
      if toNumber ymax < toNumber value then value else ymax) (some ymax) =
        some (largest ymax values) := by
    intro values
    induction values with
    | nil => exact fun _ _ => rfl
    | cons value values ih =>
        intro ymax hymax
        have hstep : 0 ≤ larger ymax value := hymax.trans (le_largest ymax [value])
        rw [List.foldl_cons, step_getMultiPlotMaxValue hymax, ih _ hstep]
        rfl
  rw [getMultiPlotMaxValue, ← List.foldl_flatten]
  exact hfold data.flatten 0 le_rfl

/-! ## The end of the axis -/

/-- What `parseInt` is called with is at least the whole part of the quotient
and one, however the two results are rounded. -/
theorem end_bounds {n : ℕ} (hn : n < 9007199254740992) :
    ((n / 5 + 1 : ℕ) : ℚ) ≤ Js.toDouble (Js.toDouble ((n : ℚ) / 5) + 1) ∧
      Js.toDouble (Js.toDouble ((n : ℚ) / 5) + 1) ≤ (2251799813685249 : ℕ) := by
  have hkeeps := Js.keeps_toDouble
  have hquot : ((n / 5 : ℕ) : ℚ) ≤ Js.toDouble ((n : ℚ) / 5) := by
    refine hkeeps.natCast_le (by omega) ?_
    exact_mod_cast (Nat.cast_div_le : ((n / 5 : ℕ) : ℚ) ≤ (n : ℚ) / (5 : ℕ))
  have hquot' : Js.toDouble ((n : ℚ) / 5) ≤ (2251799813685248 : ℕ) := by
    refine hkeeps.le_natCast (by omega) (by positivity) ?_
    rw [div_le_iff₀ (by norm_num)]
    exact_mod_cast (show n ≤ 2251799813685248 * 5 by omega)
  have hnonneg : 0 ≤ Js.toDouble ((n : ℚ) / 5) := (Nat.cast_nonneg (n / 5)).trans hquot
  constructor
  · refine hkeeps.natCast_le (by omega) ?_
    push_cast
    linarith
  · refine hkeeps.le_natCast (by omega) (by linarith) ?_
    push_cast at hquot' ⊢
    linarith

/-- Six times a whole number of so few digits is even, and stays. -/
theorem toDouble_six_mul {t : ℕ} (ht : t ≤ 2251799813685249) :
    Js.toDouble (6 * t : ℕ) = (6 * t : ℕ) := by
  have hexact := roundTo_natCast_mul_two (K := ℚ) (p := 53) (n := 3 * t) (by omega)
  rw [show ((6 * t : ℕ) : ℚ) = (3 * t : ℕ) * 2 by push_cast; ring]
  exact hexact

/-- **The formula** gives six times a whole number, and five times that
number is above the largest value already. -/
theorem end_spec {n : ℕ} (hn : n < 9007199254740992) :
    ∃ t : ℕ, Js.toDouble (Js.parseIntNumber (Js.toDouble (Js.toDouble ((n : ℚ) / 5) + 1)) * 6) =
        (6 * t : ℕ) ∧ n < 5 * t ∧ t ≤ 2251799813685249 := by
  obtain ⟨hlow, hhigh⟩ := end_bounds hn
  have hread : (n / 5 + 1 : ℕ) ≤ ⌊Js.toDouble (Js.toDouble ((n : ℚ) / 5) + 1)⌋ := by
    rw [Int.le_floor]
    exact_mod_cast hlow
  have hread' : ⌊Js.toDouble (Js.toDouble ((n : ℚ) / 5) + 1)⌋ ≤ 2251799813685249 := by
    have hfloor := (Int.floor_le _).trans hhigh
    exact_mod_cast hfloor
  obtain ⟨t, ht⟩ := Int.eq_ofNat_of_zero_le
    (show 0 ≤ ⌊Js.toDouble (Js.toDouble ((n : ℚ) / 5) + 1)⌋ by omega)
  refine ⟨t, ?_, by omega, by omega⟩
  have hone : (1 : ℚ) ≤ (n / 5 + 1 : ℕ) := by exact_mod_cast Nat.succ_pos (n / 5)
  have hreads := Js.reads_of_bounds (x := Js.toDouble (Js.toDouble ((n : ℚ) / 5) + 1))
    (by linarith) (hhigh.trans (by norm_num))
  rw [hreads.read, ht, Int.cast_natCast, show (t : ℚ) * 6 = (6 * t : ℕ) by push_cast; ring]
  exact toDouble_six_mul (by omega)

/-- **The seven ticks** of such an axis are whole numbers. -/
theorem ticks_whole {t : ℕ} (ht : t ≤ 2251799813685249) (formatter : ℚ → Text) :
    ∀ tick ∈ (Axis.mk 0 (6 * t : ℕ) 7 formatter).ticks, ∃ k : ℕ, tick = k := by
  have hrange : Js.toDouble (((6 * t : ℕ) : ℚ) - 0) = (6 * t : ℕ) := by
    rw [sub_zero, toDouble_six_mul ht]
  have hinterval : Js.toDouble (((6 * t : ℕ) : ℚ) / (7 - 1 : ℕ)) = t := by
    rw [Nat.cast_mul, show 7 - 1 = 6 from rfl, mul_div_cancel_left₀ _ (by norm_num)]
    exact Js.keeps_toDouble.nat t (by omega)
  intro tick htick
  simp only [Axis.ticks, hrange, hinterval, List.mem_map] at htick
  obtain ⟨i, -, rfl⟩ := htick
  obtain ⟨k, hk⟩ := Js.keeps_toDouble.whole (i * t)
  rw [zero_add, ← Nat.cast_mul, hk]
  exact Js.keeps_toDouble.whole k

/-! ## The charts -/

/-- A chart that shows all of its data: the upper end of the y-axis is a
multiple of six above every value, and the ticks are seven whole numbers. -/
structure Clear (plot : Plot) : Prop where
  multiple : ∃ t : ℕ, plot.yaxis.max = (6 * t : ℕ)
  above : ∀ series ∈ plot.values, ∀ x, some x ∈ series →
    plot.yaxis.min ≤ x ∧ x < plot.yaxis.max
  ticks : plot.yaxis.ticks.length = 7 ∧ ∀ tick ∈ plot.yaxis.ticks, ∃ k : ℕ, tick = k

theorem counted_flatten {data : List Series} (h : ∀ series ∈ data, Counted series) :
    Counted data.flatten := by
  intro value hvalue
  obtain ⟨series, hseries, hmem⟩ := List.mem_flatten.1 hvalue
  exact h series hseries value hmem

/-- The largest value of such data is a whole number below 2^53. -/
theorem exists_largest_eq {values : Series} (h : Counted values) :
    ∃ n : ℕ, n < 9007199254740992 ∧ largest 0 values = n := by
  rcases largest_attained 0 values with hzero | hmem
  · exact ⟨0, by omega, by rw [hzero, Nat.cast_zero]⟩
  · rcases h _ hmem with hnull | ⟨n, hn, heq⟩
    · exact absurd hnull (Option.some_ne_none _)
    · exact ⟨n, hn, Option.some_inj.1 heq⟩

/-- What both functions make of the largest value. -/
def axisEnd (ymax : ℚ) : ℚ :=
  Js.toDouble (Js.parseIntNumber (Js.toDouble (Js.toDouble ((if ymax < 5 then 5 else ymax) / 5) +
    1)) * 6)

theorem drawChart_array (eval : Text → Series) {values : Series} (hne : values ≠ [])
    (formatYaxis : Option (ℚ → Text)) (interval : Option ℚ) :
    drawChart eval (some (.array values)) formatYaxis interval = some
      { values := [values]
        xaxis := ⟨1, values.length, 10, timeFormatter (defaultInterval interval)⟩
        yaxis := ⟨0, axisEnd (largest 0 values), 7, formatYaxis.getD Js.toFixed0⟩ } := by
  have hlen : ¬ values.length = 0 := fun hlen => hne (List.length_eq_zero_iff.1 hlen)
  rw [drawChart, getMaxValue_array]
  exact if_neg hlen

theorem drawMultiPlotChart_arrays (eval : Text → Series) {data : List Series} (hne : data ≠ [])
    (hlast : data.getLast hne ≠ []) (interval : Option ℚ) :
    drawMultiPlotChart eval (some (.arrays data)) interval = some
      { values := data
        xaxis := ⟨1, (data.getLast hne).length, 10, timeFormatter (defaultInterval interval)⟩
        yaxis := ⟨0, axisEnd (largest 0 data.flatten), 7, Js.toFixed0⟩ } := by
  have hlen : ¬ data.length = 0 := fun hlen => hne (List.length_eq_zero_iff.1 hlen)
  have hlastLen : ¬ (data.getLast hne).length = 0 :=
    fun hlen => hlast (List.length_eq_zero_iff.1 hlen)
  have hgetLast : data.getLastD [] = data.getLast hne := by
    rw [List.getLastD_eq_getLast?, List.getLast?_eq_some_getLast hne, Option.getD_some]
  simp only [drawMultiPlotChart, preparedMultiData, Option.bind_eq_bind, Option.bind_some,
    getMultiPlotMaxValue_eq, hgetLast, if_neg hlen, if_neg hlastLen]
  rfl

/-- **An axis that ends at what is made of the largest value** shows all of
the data. -/
theorem clear_of_largest {plot : Plot} (h : ∀ series ∈ plot.values, Counted series)
    (hmin : plot.yaxis.min = 0) (hnumber : plot.yaxis.numberTicks = 7)
    (hmax : plot.yaxis.max = axisEnd (largest 0 plot.values.flatten)) : Clear plot := by
  obtain ⟨n, hn, hlargest⟩ := exists_largest_eq (counted_flatten h)
  have hfive : (if largest 0 plot.values.flatten < 5 then 5 else largest 0 plot.values.flatten) =
      ((max n 5 : ℕ) : ℚ) := by
    rw [hlargest]
    by_cases hlt : n < 5
    · rw [if_pos (by exact_mod_cast hlt), max_eq_right hlt.le, Nat.cast_ofNat]
    · rw [if_neg (by exact_mod_cast hlt), max_eq_left (by omega)]
  obtain ⟨t, ht, hlt, hle⟩ := end_spec (n := max n 5) (by omega)
  rw [axisEnd, hfive, ht] at hmax
  refine ⟨⟨t, hmax⟩, fun series hseries x hx => ?_, ?_⟩
  · have hflatten : some x ∈ plot.values.flatten := List.mem_flatten.2 ⟨series, hseries, hx⟩
    have hupper : x ≤ n := hlargest ▸ (isMax_largest (counted_flatten h)).upper x hflatten
    rcases h series hseries _ hx with hnull | ⟨k, -, hk⟩
    · exact absurd hnull (Option.some_ne_none x)
    · rw [hmin, hmax, Option.some_inj.1 hk]
      refine ⟨Nat.cast_nonneg k, ?_⟩
      rw [Option.some_inj.1 hk] at hupper
      have hkn : k ≤ n := by exact_mod_cast hupper
      exact_mod_cast (show k < 6 * t by omega)
  · have haxis : plot.yaxis = Axis.mk 0 (6 * t : ℕ) 7 plot.yaxis.formatter := by
      rw [← hmin, ← hmax, ← hnumber]
    rw [haxis]
    exact ⟨rfl, ticks_whole hle _⟩

/-- **The largest value is found and shown, by both functions**: a null
changes nothing, and the axis ends above every value. -/
theorem charts_clear (eval : Text → Series) :
    (∀ values, Counted values →
      ∃ m, getMaxValue eval (some (.array values)) = some (some m) ∧ IsMax values m) ∧
    (∀ values formatYaxis interval, values ≠ [] → Counted values →
      ∃ plot, drawChart eval (some (.array values)) formatYaxis interval = some plot ∧
        plot.values = [values] ∧ Clear plot) ∧
    (∀ data : List Series, (∀ series ∈ data, Counted series) →
      ∃ m, getMultiPlotMaxValue data = some m ∧ IsMax data.flatten m) ∧
    ∀ (data : List Series) interval, data ≠ [] →
      (∀ series ∈ data, series ≠ [] ∧ Counted series) →
      ∃ plot, drawMultiPlotChart eval (some (.arrays data)) interval = some plot ∧
        plot.values = data ∧ Clear plot := by
  refine ⟨fun values h => ⟨_, getMaxValue_array eval values, isMax_largest h⟩,
    fun values formatYaxis interval hne h => ?_,
    fun data h => ⟨_, getMultiPlotMaxValue_eq data, isMax_largest (counted_flatten h)⟩,
    fun data interval hne h => ?_⟩
  · refine ⟨_, drawChart_array eval hne formatYaxis interval, rfl, ?_⟩
    refine clear_of_largest (by simpa using h) rfl rfl ?_
    rw [List.flatten_singleton]
  · have hlast := (h _ (List.getLast_mem hne)).1
    refine ⟨_, drawMultiPlotChart_arrays eval hne hlast interval, rfl, ?_⟩
    exact clear_of_largest (fun series hseries => (h series hseries).2) rfl rfl rfl

end DrawChart

end Zooffice
