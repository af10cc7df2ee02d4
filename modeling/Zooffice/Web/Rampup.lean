import Zooffice.Web.Model.Rampup
/-!
# How far the ramp goes

The points of the ramp-up chart go up and to the right, and never above all
processes (`Rising`). The number of levels is the whole part of a quotient,
so the last one has all processes only when the increment divides what is
missing at the beginning.
-/


namespace Zooffice

namespace Rampup

/-- A chart that goes up and to the right, and ends with all processes. -/
structure Ramps (processes : ℚ) (series : List (ℚ × ℚ)) : Prop where
  x : series.Pairwise fun a b => a.1 ≤ b.1
  y : series.Pairwise fun a b => a.2 ≤ b.2
  top : ∀ point ∈ series, point.2 ≤ processes
  last : ∃ x, series.getLast? = some (x, processes)

/-- What holds of the loop at every turn: the points go up and to the right
and end before the cursor, which is not above the top. -/
structure Rising (fl : ℚ → ℚ) (top : ℚ) (cursor : RampCursor) : Prop where
  up : cursor.seriesArray.Pairwise fun a b => a.1 ≤ b.1 ∧ a.2 ≤ b.2
  before : ∀ point ∈ cursor.seriesArray, point.1 ≤ cursor.curX ∧ point.2 ≤ cursor.curY
  nonneg : 0 ≤ cursor.curX ∧ 0 ≤ cursor.curY
  kept : fl cursor.curX = cursor.curX ∧ fl cursor.curY = cursor.curY
  le_top : cursor.curY ≤ top

variable {fl : ℚ → ℚ} {bound : ℕ} {top internalTime : ℚ} {cursor : RampCursor}

/-- **A level** goes to the right, and stays as high as the cursor. -/
theorem Rising.pushLevel (hfl : Js.Keeps fl bound) (hbound : 1 ≤ bound)
    (htime : 1 ≤ internalTime) (h : Rising fl top cursor) :
    Rising fl top (pushLevel fl internalTime cursor) := by
  have hcent : 0 ≤ fl (1 / 100) := hfl.nonneg (by norm_num)
  have hcent' : fl (1 / 100) ≤ 1 := by
    have hle := hfl.le_natCast hbound (x := 1 / 100) (by norm_num) (by norm_num)
    rwa [Nat.cast_one] at hle
  have hx := h.nonneg.1
  -- the level begins behind the cursor and ends behind its beginning
  have hstart : cursor.curX ≤ fl (cursor.curX + fl (1 / 100)) := by
    have hmono := hfl.mono cursor.curX (cursor.curX + fl (1 / 100)) hx (by linarith)
    rwa [h.kept.1] at hmono
  have hend : fl (cursor.curX + fl (1 / 100)) ≤ fl (cursor.curX + internalTime) :=
    hfl.mono _ _ (by linarith) (by linarith)
  have hbefore : ∀ point ∈ (Rampup.pushLevel fl internalTime cursor).seriesArray,
      point.1 ≤ fl (cursor.curX + internalTime) ∧ point.2 ≤ cursor.curY := by
    intro point hpoint
    simp only [Rampup.pushLevel, List.mem_append, List.mem_cons, List.not_mem_nil, or_false]
      at hpoint
    rcases hpoint with hpoint | rfl | rfl
    · exact ⟨(h.before point hpoint).1.trans (hstart.trans hend), (h.before point hpoint).2⟩
    · exact ⟨hend, le_rfl⟩
    · exact ⟨le_rfl, le_rfl⟩
  refine ⟨?_, hbefore, ⟨hx.trans (hstart.trans hend), h.nonneg.2⟩,
    ⟨hfl.idem _ (by linarith), h.kept.2⟩, h.le_top⟩
  rw [Rampup.pushLevel, List.pairwise_append]
  refine ⟨h.up, by simpa using hend, fun a ha b hb => ?_⟩
  obtain ⟨hx', hy'⟩ := h.before a ha
  simp only [List.mem_cons, List.not_mem_nil, or_false] at hb
  rcases hb with rfl | rfl
  · exact ⟨hx'.trans hstart, hy'⟩
  · exact ⟨hx'.trans (hstart.trans hend), hy'⟩

/-- **More processes**, but not above the top. -/
theorem Rising.increase (hfl : Js.Keeps fl bound) {p : ℕ} (hp : p ≤ bound) {processInc : ℚ}
    (hinc : 0 ≤ processInc) (h : Rising fl p cursor) :
    Rising fl p (increase fl p processInc cursor) := by
  have hy := h.nonneg.2
  have hmore : cursor.curY ≤ fl (cursor.curY + processInc) := by
    have hmono := hfl.mono cursor.curY (cursor.curY + processInc) hy (by linarith)
    rwa [h.kept.2] at hmono
  rw [Rampup.increase]
  split
  · exact ⟨h.up, fun point hpoint => (h.before point hpoint).imp_right fun hle =>
      hle.trans h.le_top, ⟨h.nonneg.1, Nat.cast_nonneg p⟩, ⟨h.kept.1, hfl.nat p hp⟩, le_rfl⟩
  · next hle =>
      exact ⟨h.up, fun point hpoint => (h.before point hpoint).imp_right fun hle' =>
        hle'.trans hmore, ⟨h.nonneg.1, hy.trans hmore⟩, ⟨h.kept.1, hfl.idem _ (by linarith)⟩,
        not_lt.1 hle⟩

theorem getLast?_pushLevel (fl : ℚ → ℚ) (internalTime : ℚ) (cursor : RampCursor) :
    (pushLevel fl internalTime cursor).seriesArray.getLast? =
      some ((pushLevel fl internalTime cursor).curX, cursor.curY) := by
  rw [pushLevel, List.getLast?_append_of_ne_nil _ (by simp)]
  rfl

/-! ## The loop -/

/-- The loop, over the values of its variable. -/
def levels (fl : ℚ → ℚ) (processes processInc internalTime : ℚ) (steps : List ℕ)
    (cursor : RampCursor) : RampCursor :=
  steps.foldl (fun cursor _ => pushLevel fl internalTime (increase fl processes processInc cursor))
    cursor

/-- **The loop keeps going up**, and its last point is where the cursor
is. -/
theorem levels_rising (hfl : Js.Keeps fl bound) (hbound : 1 ≤ bound) (htime : 1 ≤ internalTime)
    {p : ℕ} (hp : p ≤ bound) {processInc : ℚ} (hinc : 0 ≤ processInc) (steps : List ℕ)
    (h : Rising fl p cursor)
    (hlast : cursor.seriesArray.getLast? = some (cursor.curX, cursor.curY)) :
    let cursor' := levels fl p processInc internalTime steps cursor
    Rising fl p cursor' ∧ cursor'.seriesArray.getLast? = some (cursor'.curX, cursor'.curY) := by
  induction steps generalizing cursor with
  | nil => exact ⟨h, hlast⟩
  | cons step steps ih =>
      exact ih ((h.increase hfl hp hinc).pushLevel hfl hbound htime) (getLast?_pushLevel _ _ _)

/-- **How high the loop gets**: by the increment at every turn, while that
is not above all processes. -/
theorem curY_levels (hfl : Js.Keeps fl bound) {p n m : ℕ} (hp : p ≤ bound) (steps : List ℕ)
    (hy : cursor.curY = n) (hle : n + steps.length * m ≤ p) :
    (levels fl p m internalTime steps cursor).curY = (n + steps.length * m : ℕ) := by
  induction steps generalizing cursor n with
  | nil => simpa [levels] using hy
  | cons step steps ih =>
      rw [List.length_cons, Nat.succ_mul] at hle
      have hsum : fl (cursor.curY + m) = (n + m : ℕ) := by
        rw [hy, ← Nat.cast_add]
        exact hfl.nat _ (by omega)
      have hstep : (pushLevel fl internalTime (increase fl p m cursor)).curY = (n + m : ℕ) := by
        rw [pushLevel, increase, hsum]
        exact if_neg (not_lt.2 (Nat.cast_le.2 (by omega)))
      have hrest := ih (n := n + m) hstep (by omega)
      rw [List.length_cons, Nat.succ_mul, ← Nat.add_assoc, Nat.add_right_comm]
      exact hrest

/-- At the top it stays. -/
theorem curY_increase_top (hfl : Js.Keeps fl bound) {p : ℕ} (hp : p ≤ bound) {processInc : ℚ}
    (hinc : 0 ≤ processInc) (hy : cursor.curY = p) :
    (increase fl p processInc cursor).curY = p := by
  have hle : (p : ℚ) ≤ fl (cursor.curY + processInc) :=
    hfl.natCast_le hp (by rw [hy]; linarith)
  rw [increase]
  split
  · rfl
  · next h => exact le_antisymm (not_lt.1 h) hle

/-! ## The series -/

/-- The first level, after the sleep if there is one. -/
theorem rising_start (hfl : Js.Keeps fl bound) {p i : ℕ} (hi : i ≤ p) (hp : p ≤ bound)
    {sleep : ℚ} (hsleep : 0 ≤ sleep) (hkept : fl sleep = sleep) :
    Rising fl p ⟨sleep, i, if 0 < sleep then [(0, 0), (sleep, 0)] else []⟩ where
  up := by split <;> simp [hsleep]
  before := by
    intro point hpoint
    split at hpoint
    · simp only [List.mem_cons, List.not_mem_nil, or_false] at hpoint
      rcases hpoint with rfl | rfl
      · exact ⟨hsleep, Nat.cast_nonneg i⟩
      · exact ⟨le_rfl, Nat.cast_nonneg i⟩
    · exact absurd hpoint List.not_mem_nil
  nonneg := ⟨hsleep, Nat.cast_nonneg i⟩
  kept := ⟨hkept, hfl.nat i (hi.trans hp)⟩
  le_top := Nat.cast_le.2 hi

/-- **How often the loop goes round**: once when there is nothing to add, and
else the whole part of the quotient. -/
theorem length_loopSteps_stepCount (hfl : Js.Keeps fl bound) {p i m : ℕ} (hi : i ≤ p)
    (hp : p < bound) (hm : 0 < m) :
    (Js.loopSteps 1 (stepCount fl p i m)).length = if p = i then 1 else (p - i) / m := by
  have hdiff : fl ((p : ℚ) - i) = (p - i : ℕ) := by
    rw [← Nat.cast_sub hi]
    exact hfl.nat _ (by omega)
  rw [stepCount, if_neg (Nat.cast_ne_zero.2 hm.ne'), hdiff]
  dsimp only
  by_cases heq : p = i
  · have hzero : fl (((p - i : ℕ) : ℚ) / m) = 0 := by
      rw [heq, Nat.sub_self, Nat.cast_zero, zero_div]
      exact_mod_cast hfl.nat 0 (Nat.zero_le _)
    rw [if_pos hzero, if_pos heq]
    rfl
  · have hpos : 0 < fl (((p - i : ℕ) : ℚ) / m) :=
      hfl.pos _ (div_pos (Nat.cast_pos.2 (by omega)) (Nat.cast_pos.2 hm))
    rw [if_neg hpos.ne', if_neg heq, Js.loopSteps, List.length_range',
      hfl.floor_div _ _ (by omega) hm, Nat.cast_one, add_sub_cancel_right, Int.toNat_natCast]

/-- A series that has been going up ends with all processes when the cursor
is at the top. -/
theorem Rising.ramps_iff {p : ℕ} (h : Rising fl p cursor)
    (hlast : cursor.seriesArray.getLast? = some (cursor.curX, cursor.curY)) :
    Ramps p cursor.seriesArray ↔ cursor.curY = p := by
  constructor
  · rintro ⟨-, -, -, x, hx⟩
    rw [hlast, Option.some_inj, Prod.mk.injEq] at hx
    exact hx.2
  · intro hy
    refine ⟨h.up.imp And.left, h.up.imp And.right, fun point hpoint => ?_, cursor.curX,
      by rw [hlast, hy]⟩
    exact (h.before point hpoint).2.trans h.le_top

/-- **The ramp reaches the top** when the increment divides what is
missing. -/
theorem ramps_rampSeries_iff (hfl : Js.Keeps fl bound) {p i m : ℕ} (hi : i ≤ p) (hp : p < bound)
    (hm : 0 < m) (htime : 1 ≤ internalTime) {sleep : ℚ} (hsleep : 0 ≤ sleep)
    (hkept : fl sleep = sleep) :
    Ramps p (rampSeries fl p i m internalTime sleep) ↔ m ∣ p - i := by
  have hbound : 1 ≤ bound := by omega
  have hm₀ : (0 : ℚ) ≤ m := Nat.cast_nonneg m
  have hstart := (rising_start hfl hi hp.le hsleep hkept).pushLevel hfl hbound htime
  obtain ⟨hrising, hlast⟩ := levels_rising hfl hbound htime hp.le hm₀
    (Js.loopSteps 1 (stepCount fl p i m)) hstart (getLast?_pushLevel _ _ _)
  have hlength := length_loopSteps_stepCount hfl hi hp hm
  refine (hrising.ramps_iff hlast).trans ?_
  by_cases heq : p = i
  · -- the one turn stays at the top
    rw [if_pos heq] at hlength
    obtain ⟨step, hstep⟩ := List.length_eq_one_iff.1 hlength
    rw [hstep, heq, Nat.sub_self]
    refine iff_of_true ?_ (dvd_zero m)
    exact curY_increase_top hfl (by omega) hm₀ rfl
  · rw [if_neg heq] at hlength
    have hle : i + (p - i) / m * m ≤ p := by
      have := Nat.div_mul_le_self (p - i) m
      omega
    rw [curY_levels hfl hp.le _ rfl (by rw [hlength]; exact hle), hlength, Nat.cast_inj]
    constructor
    · intro htop
      exact ⟨(p - i) / m, by rw [Nat.mul_comm]; omega⟩
    · intro hdvd
      rw [Nat.div_mul_cancel hdvd]
      omega

/-! ## The page -/

/-- The form has what the chart is made for: ramp-up is on, no more
processes at the beginning than in the end, and an increment and an
interval of one at least. -/
structure RampForm (page : RampPage) : Prop where
  checked : page.rampupChecked = true
  initial_nonneg : 0 ≤ page.initProcesses
  initial_le : page.initProcesses ≤ page.processes
  increment_pos : 1 ≤ page.processIncrement
  interval_pos : 1 ≤ page.processIncrementInterval
  sleep_nonneg : 0 ≤ page.initSleepTime

/-- The chart that is drawn goes up and to the right and ends with all
processes. -/
def DrawsRamp (fl : ℚ → ℚ) (page : RampPage) : Prop :=
  ∃ plot, (updateRampupChart fl page).plotObj = some plot ∧ Ramps page.processes plot.data

/-- What the page of such a form draws. -/
theorem plotObj_updateRampupChart {page : RampPage} {p i : ℕ} {m : ℚ}
    (hchecked : page.rampupChecked = true) (hp : fl page.processes = p)
    (hi : fl page.initProcesses = i) (hm : fl page.processIncrement = m) (hle : i ≤ p)
    (hpos : 0 < m) :
    ∃ maxY, (updateRampupChart fl page).plotObj =
      some ⟨rampSeries fl p i m (fl page.processIncrementInterval) (fl page.initSleepTime),
        fl page.processIncrementInterval, maxY⟩ := by
  rw [updateRampupChart, hp, hi, hm]
  dsimp only
  rw [if_neg (not_lt.2 (Nat.cast_le.2 hle)), if_neg fun h => hpos.ne' h.2, if_pos hchecked]
  exact ⟨_, rfl⟩

/-- An increment that is rounded divides the same differences. -/
theorem dvd_sub_iff (hfl : Js.Keeps fl bound) {p i inc m : ℕ} (hp : p < bound)
    (hm : fl inc = m) : m ∣ p - i ↔ inc ∣ p - i := by
  by_cases hinc : inc ≤ bound
  · have heq : (inc : ℚ) = m := (hfl.nat inc hinc).symm.trans hm
    rw [Nat.cast_inj.1 heq]
  · -- both are greater than the difference
    have hge : (bound : ℚ) ≤ m := hm ▸ hfl.natCast_le le_rfl (Nat.cast_le.2 (by omega))
    have hge' : bound ≤ m := Nat.cast_le.1 hge
    rw [Nat.dvd_iff_mod_eq_zero, Nat.dvd_iff_mod_eq_zero, Nat.mod_eq_of_lt (by omega),
      Nat.mod_eq_of_lt (by omega)]

/-- **The chart ends with all processes** when the increment divides what is
missing at the beginning, in every arithmetic that keeps so many. -/
theorem drawsRamp_iff (hfl : Js.Keeps fl bound) {page : RampPage} (h : RampForm page)
    (hbound : page.processes < bound) :
    DrawsRamp fl page ↔ page.processIncrement ∣ page.processes - page.initProcesses := by
  obtain ⟨hchecked, hinit, hle, hinc, htime, hsleep⟩ := h
  obtain ⟨i, hi⟩ := Int.eq_ofNat_of_zero_le hinit
  obtain ⟨p, hp⟩ := Int.eq_ofNat_of_zero_le (hinit.trans hle)
  obtain ⟨inc, hincNat⟩ := Int.eq_ofNat_of_zero_le (show 0 ≤ page.processIncrement by omega)
  obtain ⟨m, hm⟩ := hfl.whole inc
  have hle' : i ≤ p := by omega
  have hp' : p < bound := by omega
  have hone : ∀ x : ℤ, 1 ≤ x → 1 ≤ fl x := by
    intro x hx
    have hfl₁ := hfl.natCast_le (n := 1) (by omega) (x := x) (by exact_mod_cast hx)
    rwa [Nat.cast_one] at hfl₁
  have hm' : fl page.processIncrement = m := by rw [hincNat, Int.cast_natCast, hm]
  have hmpos : 0 < m := by
    have hge := hone _ hinc
    rw [hm'] at hge
    exact_mod_cast hge
  have hsleep' : (0 : ℚ) ≤ page.initSleepTime := by exact_mod_cast hsleep
  obtain ⟨maxY, hplot⟩ := plotObj_updateRampupChart hchecked
    (by rw [hp, Int.cast_natCast]; exact hfl.nat p hp'.le)
    (by rw [hi, Int.cast_natCast]; exact hfl.nat i (by omega)) hm' hle' (Nat.cast_pos.2 hmpos)
  have hramps := ramps_rampSeries_iff hfl hle' hp' hmpos (hone _ htime) (hfl.nonneg hsleep')
    (hfl.idem _ hsleep')
  have hdvd : page.processIncrement ∣ page.processes - page.initProcesses ↔ inc ∣ p - i := by
    rw [hincNat, hp, hi, ← Int.natCast_sub hle', Int.natCast_dvd_natCast]
  rw [hdvd, ← dvd_sub_iff hfl hp' hm, ← hramps, DrawsRamp, hplot, hp, Int.cast_natCast]
  constructor
  · rintro ⟨plot, hsome, hramp⟩
    rwa [← Option.some_inj.1 hsome] at hramp
  · intro hramp
    exact ⟨_, rfl, hramp⟩

/-- **The chart ends with all processes if and only if the increment divides
what is missing at the beginning**: for all whole numbers when they are
computed as they are, and in a browser's numbers below 2^53 processes. -/
theorem drawsRamp_iff_dvd {page : RampPage} (h : RampForm page) :
    (DrawsRamp id page ↔ page.processIncrement ∣ page.processes - page.initProcesses) ∧
      (page.processes < 9007199254740992 →
        (DrawsRamp Js.toDouble page ↔
          page.processIncrement ∣ page.processes - page.initProcesses)) := by
  refine ⟨drawsRamp_iff (Js.keeps_id (page.processes.toNat + 1)) h ?_,
    fun hbound => drawsRamp_iff Js.keeps_toDouble h (by omega)⟩
  have := h.initial_nonneg
  have := h.initial_le
  omega

/-- Ten processes in steps of two. -/
def evenPage : RampPage := ⟨10, 2, 0, 1000, 0, true, false, none⟩

theorem drawsRamp_evenPage : RampForm evenPage ∧ DrawsRamp id evenPage ∧
    DrawsRamp Js.toDouble evenPage :=
  have h : RampForm evenPage :=
    ⟨rfl, by decide, by decide, by decide, by decide, by decide⟩
  ⟨h, (drawsRamp_iff_dvd h).1.2 (by decide), ((drawsRamp_iff_dvd h).2 (by decide)).2 (by decide)⟩

/-- Ten processes in steps of three. -/
def oddPage : RampPage := ⟨10, 3, 0, 1000, 0, true, false, none⟩

/-- **Ten processes in steps of three**: the chart ends with nine. -/
theorem not_drawsRamp_oddPage : RampForm oddPage ∧ ¬ DrawsRamp id oddPage ∧
    ¬ DrawsRamp Js.toDouble oddPage := by
  have h : RampForm oddPage :=
    ⟨rfl, by decide, by decide, by decide, by decide, by decide⟩
  refine ⟨h, fun hdraws => ?_, fun hdraws => ?_⟩
  · exact absurd ((drawsRamp_iff (Js.keeps_id 11) h (by decide)).1 hdraws) (by decide)
  · exact absurd ((drawsRamp_iff Js.keeps_toDouble h (by decide)).1 hdraws) (by decide)

end Rampup

end Zooffice
