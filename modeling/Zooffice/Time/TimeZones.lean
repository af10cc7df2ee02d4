import Mathlib.Data.List.Induction
import Zooffice.Common.Joined
import Zooffice.Time.Model.DateUtil
/-!
# Time zones and their labels

A label shows an offset as a sign, hours and two digits of minutes, and
whoever reads it can tell the offset (`ReadsBack`). `getFilteredTimeZoneMap`
cuts hours and minutes off towards zero, so behind Greenwich both carry the
sign: the label has a second one, unless there are no minutes.
-/


namespace Zooffice

namespace DateUtil

/-- The label reads as a sign, hours and minutes, and these are the
offset. -/
def ReadsBack (text id : Text) (offset : Int) : Prop :=
  ∃ (sign : Char) (hours minutes : Nat), (sign = '+' ∨ sign = '-') ∧ minutes ≤ 59 ∧
    text = ['(', 'G', 'M', 'T'] ++ (sign :: decimal hours) ++ [':'] ++ padded minutes ++
      [')', ' '] ++ id ∧
    offset = (if sign = '-' then -1 else 1) * (3600000 * (hours : Int) + 60000 * (minutes : Int))

/-- What stands before and after the first colon of a label tells the two
parts. -/
theorem parts_inj {hour minutes hour' minutes' id : Text} (hhour : ':' ∉ hour)
    (hminutes : ':' ∉ minutes) (hhour' : ':' ∉ hour') (hminutes' : ':' ∉ minutes')
    (h : ['(', 'G', 'M', 'T'] ++ hour ++ [':'] ++ minutes ++ [')', ' '] ++ id =
      ['(', 'G', 'M', 'T'] ++ hour' ++ [':'] ++ minutes' ++ [')', ' '] ++ id) :
    hour = hour' ∧ minutes = minutes' := by
  have hparts : [':'].intercalate [hour, minutes] = [':'].intercalate [hour', minutes'] := by
    simp only [List.append_assoc, List.append_cancel_left_eq] at h
    simp only [← List.append_assoc, List.append_cancel_right_eq] at h
    simpa [List.intercalate_cons_cons] using h
  have heq := intercalate_inj (by simp) (by simp [hhour, hminutes]) (by simp)
    (by simp [hhour', hminutes']) hparts
  simpa using heq

theorem colon_not_mem_sign {sign : Char} (h : sign = '+' ∨ sign = '-') (n : Nat) :
    ':' ∉ sign :: decimal n := by
  rw [List.mem_cons, not_or]
  refine ⟨?_, not_mem_decimal rfl⟩
  rcases h with rfl | rfl <;> decide

/-- **A label that reads back** reads as one offset only. -/
theorem ReadsBack.unique {text id : Text} {offset offset' : Int} (h : ReadsBack text id offset)
    (h' : ReadsBack text id offset') : offset = offset' := by
  obtain ⟨sign, hours, minutes, hsign, -, htext, hoffset⟩ := h
  obtain ⟨sign', hours', minutes', hsign', -, htext', hoffset'⟩ := h'
  obtain ⟨hhours, hminutes⟩ := parts_inj (colon_not_mem_sign hsign _) (not_mem_padded rfl)
    (colon_not_mem_sign hsign' _) (not_mem_padded rfl) (htext.symm.trans htext')
  rw [List.cons.injEq, decimal_inj] at hhours
  rw [padded_inj] at hminutes
  rw [hoffset, hoffset', hhours.1, hhours.2, hminutes]

/-! ## The label of an offset -/

/-- The two numbers of a label are the offset, and both have its sign. -/
theorem offset_spec {offset : Int32} (h : 60000 ∣ offset.toInt) : ∃ hour minutes : Int,
    (offsetHour offset).toInt = hour ∧ (offsetMinutes offset).toInt = minutes ∧
      offset.toInt = 3600000 * hour + 60000 * minutes ∧ -60 < minutes ∧ minutes < 60 ∧
      (0 ≤ offset.toInt → 0 ≤ hour ∧ 0 ≤ minutes) ∧
      (offset.toInt ≤ 0 → hour ≤ 0 ∧ minutes ≤ 0) := by
  have hsecond : (offset / constant1000).toInt = offset.toInt.tdiv 1000 :=
    toInt_div32_of_pos (b := constant1000) (by decide)
  have hhour : (offsetHour offset).toInt = (offset.toInt.tdiv 1000).tdiv 3600 := by
    rw [offsetHour, toInt_div32_of_pos (by decide), hsecond]
    rfl
  have hminutes : (offsetMinutes offset).toInt = ((offset.toInt.tdiv 1000).tmod 3600).tdiv 60 := by
    rw [offsetMinutes, toInt_div32_of_pos (by decide), Int32.toInt_mod, hsecond]
    rfl
  refine ⟨_, _, hhour, hminutes, ?_⟩
  have h₁ := tdiv_spec offset.toInt (b := 1000) (by omega)
  have h₂ := tdiv_spec (offset.toInt.tdiv 1000) (b := 3600) (by omega)
  have h₃ := tdiv_spec ((offset.toInt.tdiv 1000).tmod 3600) (b := 60) (by omega)
  omega

theorem formatSigned_of_nonneg {n : Int} (h : 0 ≤ n) : formatSigned n = '+' :: decimal n.natAbs :=
  if_neg (by omega)

theorem formatSigned_of_neg {n : Int} (h : n < 0) : formatSigned n = '-' :: decimal n.natAbs :=
  if_pos h

theorem format02d_of_nonneg {n : Int} (h : 0 ≤ n) : format02d n = padded n.natAbs :=
  if_neg (by omega)

theorem format02d_of_neg {n : Int} (h : n < 0) : format02d n = '-' :: decimal n.natAbs :=
  if_pos h

/-- **A label reads back when its offset is not behind Greenwich, or is in
whole hours.** -/
theorem readsBack_label_iff {offset : Int32} {id : Text} (h : 60000 ∣ offset.toInt) :
    ReadsBack (label offset id) id offset.toInt ↔ 0 ≤ offset.toInt ∨ 3600000 ∣ offset.toInt := by
  obtain ⟨hour, minutes, hhour, hminutes, hsum, hlower, hupper, hnonneg, hnonpos⟩ := offset_spec h
  rw [label, hhour, hminutes]
  constructor
  · rintro ⟨sign, hours, minutes', hsign, -, htext, -⟩
    by_contra hcond
    have hneg : minutes < 0 := by omega
    -- the minutes would have to be without a sign
    rw [format02d_of_neg hneg] at htext
    have hcolon : ':' ∉ formatSigned hour := by
      rw [formatSigned]
      split <;> exact colon_not_mem_sign (by simp) _
    have hparts := parts_inj hcolon (colon_not_mem_sign (Or.inr rfl) _)
      (colon_not_mem_sign hsign _) (not_mem_padded rfl) htext
    exact not_mem_padded (n := minutes') rfl (hparts.2 ▸ List.mem_cons_self : '-' ∈ padded minutes')
  · intro hcond
    rw [format02d_of_nonneg (by omega)]
    by_cases hneg : hour < 0
    · refine ⟨'-', hour.natAbs, minutes.natAbs, Or.inr rfl, by omega, ?_, ?_⟩
      · rw [formatSigned_of_neg hneg]
      · rw [if_pos rfl]
        omega
    · refine ⟨'+', hour.natAbs, minutes.natAbs, Or.inl rfl, by omega, ?_, ?_⟩
      · rw [formatSigned_of_nonneg (by omega)]
      · rw [if_neg (by decide)]
        omega

/-! ## The map -/

theorem get_put_self (name value : Text) (map : TimezoneIDMap) :
    get (put name value map) name = some value := by
  induction map with
  | nil => simp [put, get]
  | cons entry map ih =>
      rw [put]
      by_cases hname : entry.1 = name
      · rw [if_pos hname]
        simp [get]
      · rw [if_neg hname, get, List.find?_cons_of_neg (by simpa using hname)]
        exact ih

/-- The map when the loop has come that far. -/
def filled (zones : TimeZones) (ids : List Text) : TimezoneIDMap := ids.foldl (putZone zones) []

variable {zones : TimeZones}

theorem filled_concat (ids : List Text) (id : Text) :
    filled zones (ids ++ [id]) = putZone zones (filled zones ids) id := by
  rw [filled, List.foldl_append]
  rfl

/-- The label that is written for an id is under its zone's name when its
turn is over. -/
theorem get_filled_concat (ids : List Text) (id : Text) :
    get (filled zones (ids ++ [id])) (zones.timeZone id).displayName =
      some (label (zones.timeZone id).rawOffset id) := by
  rw [filled_concat, putZone, get_put_self]

/-- **Every label that is written reads back** if and only if each zone is
not behind Greenwich or whole hours behind. -/
theorem labels_read_back_iff
    (h : ∀ id ∈ zones.availableIDs, 60000 ∣ (zones.timeZone id).rawOffset.toInt) :
    (∀ ids id, ids ++ [id] <+: zones.availableIDs →
        ∃ text, get (filled zones (ids ++ [id])) (zones.timeZone id).displayName = some text ∧
          ReadsBack text id (zones.timeZone id).rawOffset.toInt) ↔
      ∀ id ∈ zones.availableIDs, 0 ≤ (zones.timeZone id).rawOffset.toInt ∨
        3600000 ∣ (zones.timeZone id).rawOffset.toInt := by
  constructor
  · intro hlabels id hid
    obtain ⟨before, after, hsplit⟩ := List.append_of_mem hid
    obtain ⟨text, hget, hreads⟩ := hlabels before id ⟨after, by rw [hsplit]; simp⟩
    rw [get_filled_concat, Option.some_inj] at hget
    rw [← hget] at hreads
    exact (readsBack_label_iff (h id hid)).1 hreads
  · intro hzones ids id hprefix
    have hid : id ∈ zones.availableIDs := hprefix.subset (by simp)
    exact ⟨_, get_filled_concat ids id, (readsBack_label_iff (h id hid)).2 (hzones id hid)⟩

/-- A zone three hours and a half behind Greenwich. -/
def newfoundland : TimeZones where
  availableIDs := [['C', 'N', 'T']]
  timeZone _ := ⟨['N', 'S', 'T'], -12600000⟩

/-- A zone five hours and a half ahead of Greenwich. -/
def india : TimeZones where
  availableIDs := [['I', 'S', 'T']]
  timeZone _ := ⟨['I', 'S', 'T'], 19800000⟩

theorem labels_read_back_india :
    (∀ id ∈ india.availableIDs, 60000 ∣ (india.timeZone id).rawOffset.toInt) ∧
      ∀ ids id, ids ++ [id] <+: india.availableIDs →
        ∃ text, get (filled india (ids ++ [id])) (india.timeZone id).displayName = some text ∧
          ReadsBack text id (india.timeZone id).rawOffset.toInt :=
  have h : ∀ id ∈ india.availableIDs, 60000 ∣ (india.timeZone id).rawOffset.toInt := by
    intro id _
    exact ⟨330, rfl⟩
  ⟨h, (labels_read_back_iff h).2 fun _ _ => Or.inl (show 0 ≤ (19800000 : Int32).toInt by decide)⟩

/-- **The label `(GMT-3:-30) CNT`** does not read back. -/
theorem not_labels_read_back_newfoundland :
    getFilteredTimeZoneMap newfoundland none =
        [(['N', 'S', 'T'], "(GMT-3:-30) CNT".toList)] ∧
      ¬ ∀ ids id, ids ++ [id] <+: newfoundland.availableIDs →
        ∃ text, get (filled newfoundland (ids ++ [id]))
            (newfoundland.timeZone id).displayName = some text ∧
          ReadsBack text id (newfoundland.timeZone id).rawOffset.toInt := by
  refine ⟨by decide, fun hlabels => ?_⟩
  obtain ⟨text, hget, hreads⟩ := hlabels [] ['C', 'N', 'T'] List.prefix_rfl
  rw [get_filled_concat, Option.some_inj] at hget
  rw [← hget] at hreads
  have hminutes : 60000 ∣ (newfoundland.timeZone ['C', 'N', 'T']).rawOffset.toInt := ⟨-210, rfl⟩
  exact absurd ((readsBack_label_iff hminutes).1 hreads) (by decide)

end DateUtil

end Zooffice
