import Mathlib.Data.List.Nodup
import Mathlib.Data.List.Perm.Subperm
/-!
# A table with a primary key and a unique column

`Table pk key` is a list of rows no two of which share the primary key
`pk` or the unique column `key`; the two constraints are fields, so an
insert or an update that would break one is not a table (`insert?`,
`replace?` answer `none`). The lemmas say which rows each operation
leaves.
-/


namespace Zooffice

variable {ρ ι κ : Type*}

/-- Rows with distinct primary keys and distinct unique columns. -/
structure Table (pk : ρ → ι) (key : ρ → κ) where
  rows : List ρ
  nodup_pk : (rows.map pk).Nodup
  nodup_key : (rows.map key).Nodup

namespace Table

variable {pk : ρ → ι} {key : ρ → κ}

instance : Membership ρ (Table pk key) := ⟨fun t r => r ∈ t.rows⟩

theorem mem_def {t : Table pk key} {r : ρ} : r ∈ t ↔ r ∈ t.rows := Iff.rfl

/-- The table without rows. -/
def empty : Table pk key := ⟨[], List.nodup_nil, List.nodup_nil⟩

@[simp] theorem not_mem_empty {r : ρ} : ¬ r ∈ (empty : Table pk key) := List.not_mem_nil

/-- Rows that share the primary key are one row. -/
theorem eq_of_pk_eq (t : Table pk key) {r r' : ρ} (h : r ∈ t) (h' : r' ∈ t)
    (he : pk r = pk r') : r = r' :=
  List.inj_on_of_nodup_map t.nodup_pk h h' he

/-- Rows that share the unique column are one row. -/
theorem eq_of_key_eq (t : Table pk key) {r r' : ρ} (h : r ∈ t) (h' : r' ∈ t)
    (he : key r = key r') : r = r' :=
  List.inj_on_of_nodup_map t.nodup_key h h' he

variable [DecidableEq ι] [DecidableEq κ]

/-- The row with a primary key. -/
def find? (t : Table pk key) (i : ι) : Option ρ := t.rows.find? fun r => pk r = i

/-- The row with a value in the unique column. -/
def findKey? (t : Table pk key) (k : κ) : Option ρ := t.rows.find? fun r => key r = k

omit [DecidableEq κ] in
theorem find?_eq_some_iff {t : Table pk key} {i : ι} {r : ρ} :
    t.find? i = some r ↔ r ∈ t ∧ pk r = i := by
  constructor
  · intro h
    exact ⟨List.mem_of_find?_eq_some h, by simpa using List.find?_some h⟩
  · rintro ⟨hr, hi⟩
    obtain ⟨r', h'⟩ := Option.isSome_iff_exists.1
      (List.find?_isSome.2 ⟨r, hr, by simpa using hi⟩ : (t.rows.find? fun r => pk r = i).isSome)
    -- the row that is found has the same primary key
    have : r' = r := t.eq_of_pk_eq (List.mem_of_find?_eq_some h') hr
      ((by simpa using List.find?_some h' : pk r' = i).trans hi.symm)
    exact this ▸ h'

omit [DecidableEq ι] in
theorem findKey?_eq_some_iff {t : Table pk key} {k : κ} {r : ρ} :
    t.findKey? k = some r ↔ r ∈ t ∧ key r = k := by
  constructor
  · intro h
    exact ⟨List.mem_of_find?_eq_some h, by simpa using List.find?_some h⟩
  · rintro ⟨hr, hk⟩
    obtain ⟨r', h'⟩ := Option.isSome_iff_exists.1
      (List.find?_isSome.2 ⟨r, hr, by simpa using hk⟩ : (t.rows.find? fun r => key r = k).isSome)
    have : r' = r := t.eq_of_key_eq (List.mem_of_find?_eq_some h') hr
      ((by simpa using List.find?_some h' : key r' = k).trans hk.symm)
    exact this ▸ h'

omit [DecidableEq κ] in
theorem find?_eq_none_iff {t : Table pk key} {i : ι} :
    t.find? i = none ↔ ∀ r ∈ t, pk r ≠ i := by
  simp [find?, mem_def]

/-! ## Insert, replace, remove -/

/-- Add a row, unless its primary key or its unique column is taken. -/
def insert? (t : Table pk key) (r : ρ) : Option (Table pk key) :=
  if h : (∀ r' ∈ t.rows, pk r' ≠ pk r) ∧ ∀ r' ∈ t.rows, key r' ≠ key r then
    some
      { rows := t.rows ++ [r]
        nodup_pk := by
          rw [List.map_append, List.nodup_append]
          refine ⟨t.nodup_pk, by simp, fun i hi j hj => ?_⟩
          obtain ⟨r', hr', rfl⟩ := List.mem_map.1 hi
          simp only [List.map_cons, List.map_nil, List.mem_singleton] at hj
          exact hj ▸ h.1 r' hr'
        nodup_key := by
          rw [List.map_append, List.nodup_append]
          refine ⟨t.nodup_key, by simp, fun k hk k' hk' => ?_⟩
          obtain ⟨r', hr', rfl⟩ := List.mem_map.1 hk
          simp only [List.map_cons, List.map_nil, List.mem_singleton] at hk'
          exact hk' ▸ h.2 r' hr' }
  else none

/-- Put a row in the place of the row with its primary key. -/
def replaceRow (pk : ρ → ι) (r x : ρ) : ρ := if pk x = pk r then r else x

omit [DecidableEq κ] in
theorem pk_replaceRow (r x : ρ) : pk (replaceRow pk r x) = pk x := by
  unfold replaceRow
  split
  · next h => exact h.symm
  · rfl

/-- Change the row with `r`'s primary key to `r`, unless another row
holds its unique column. -/
def replace? (t : Table pk key) (r : ρ) : Option (Table pk key) :=
  if h : ∀ r' ∈ t.rows, key r' = key r → pk r' = pk r then
    some
      { rows := t.rows.map (replaceRow pk r)
        nodup_pk := by
          rw [List.map_map, show pk ∘ replaceRow pk r = pk from funext (pk_replaceRow r)]
          exact t.nodup_pk
        nodup_key := by
          rw [List.map_map]
          refine List.Nodup.map_on (fun x hx y hy hxy => ?_) (List.Nodup.of_map _ t.nodup_pk)
          simp only [Function.comp_apply, replaceRow] at hxy
          -- two rows with one unique column: either is `r` or an old row
          by_cases hxr : pk x = pk r <;> by_cases hyr : pk y = pk r
          · exact t.eq_of_pk_eq hx hy (hxr.trans hyr.symm)
          · rw [if_pos hxr, if_neg hyr] at hxy
            exact absurd (h y hy hxy.symm) hyr
          · rw [if_neg hxr, if_pos hyr] at hxy
            exact absurd (h x hx hxy) hxr
          · rw [if_neg hxr, if_neg hyr] at hxy
            exact t.eq_of_key_eq hx hy hxy }
  else none

/-- Take out the row with a primary key. -/
def remove (t : Table pk key) (i : ι) : Table pk key where
  rows := t.rows.filter fun r => pk r ≠ i
  nodup_pk := t.nodup_pk.sublist (List.filter_sublist.map _)
  nodup_key := t.nodup_key.sublist (List.filter_sublist.map _)

variable {t t' : Table pk key} {r : ρ}

/-- **What an insert leaves**: the row was new in both columns, and the
rows are the old ones and it. -/
theorem insert?_eq_some (h : t.insert? r = some t') :
    (∀ x ∈ t, pk x ≠ pk r ∧ key x ≠ key r) ∧ ∀ x, x ∈ t' ↔ x ∈ t ∨ x = r := by
  unfold insert? at h
  split at h
  · next hfresh =>
      rw [Option.some.injEq] at h
      subst h
      exact ⟨fun x hx => ⟨hfresh.1 x hx, hfresh.2 x hx⟩, fun x => by simp [mem_def]⟩
  · simp at h

/-- **What a replacement leaves**: `r` in the place of the row with its
primary key, every other row as it was. -/
theorem mem_of_replace?_eq_some (h : t.replace? r = some t') {old : ρ} (hold : old ∈ t)
    (hid : pk old = pk r) (x : ρ) : x ∈ t' ↔ x = r ∨ (x ∈ t ∧ pk x ≠ pk r) := by
  unfold replace? at h
  split at h
  · rw [Option.some.injEq] at h
    subst h
    simp only [mem_def, List.mem_map, replaceRow]
    constructor
    · rintro ⟨y, hy, rfl⟩
      by_cases hyr : pk y = pk r
      · exact Or.inl (if_pos hyr)
      · rw [if_neg hyr]
        exact Or.inr ⟨hy, hyr⟩
    · rintro (rfl | ⟨hx, hne⟩)
      · exact ⟨old, hold, if_pos hid⟩
      · exact ⟨x, hx, if_neg hne⟩
  · simp at h

/-- The row put in place shares its unique column with no other row. -/
theorem key_of_replace?_eq_some (h : t.replace? r = some t') {x : ρ} (hx : x ∈ t)
    (hkey : key x = key r) : pk x = pk r := by
  unfold replace? at h
  split at h
  · next hkeys => exact hkeys x hx hkey
  · simp at h

/-- A row is added when it is new in both columns. -/
theorem exists_insert? (h : ∀ x ∈ t, pk x ≠ pk r ∧ key x ≠ key r) : ∃ t', t.insert? r = some t' :=
  ⟨_, dif_pos ⟨fun x hx => (h x hx).1, fun x hx => (h x hx).2⟩⟩

/-- A row is put in place when no other row holds its unique column. -/
theorem exists_replace? (h : ∀ x ∈ t, key x = key r → pk x = pk r) :
    ∃ t', t.replace? r = some t' :=
  ⟨_, dif_pos h⟩

omit [DecidableEq κ] in
theorem mem_remove {i : ι} {x : ρ} : x ∈ t.remove i ↔ x ∈ t ∧ pk x ≠ i := by
  simp [mem_def, remove]

end Table

end Zooffice
