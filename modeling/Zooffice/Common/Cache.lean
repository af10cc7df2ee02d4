import Mathlib.Data.Option.Basic
/-!
# A read-through cache beside a store

`lookup` is what the store returns for a key at the moment. A cache is
coherent with it when no entry differs (`Coherent`). Reading through the
cache keeps it coherent; a write of the store followed by the eviction
of one key keeps it coherent exactly when the write has changed what no
other cached key returns (`coherent_evict_iff`).
-/


namespace Zooffice

variable {κ ν : Type*}

/-- The entries a cache holds. -/
def Cache (κ ν : Type*) : Type _ := κ → Option ν

namespace Cache

/-- The cache that holds nothing. -/
def empty : Cache κ ν := fun _ => none

/-- The entry under a key. -/
def get? (c : Cache κ ν) (k : κ) : Option ν := c k

/-- A cache is what it has under each key. -/
theorem ext {c c' : Cache κ ν} (h : ∀ k, c.get? k = c'.get? k) : c = c' := funext h

variable [DecidableEq κ]

/-- Store a value under a key. -/
def put (c : Cache κ ν) (k : κ) (v : ν) : Cache κ ν :=
  fun k' => if k' = k then some v else c k'

/-- Remove the entry under a key. -/
def evict (c : Cache κ ν) (k : κ) : Cache κ ν :=
  fun k' => if k' = k then none else c k'

/-- The value read through the cache: the entry, or on a miss what the
store returns. -/
def read (c : Cache κ ν) (lookup : κ → ν) (k : κ) : ν := (c.get? k).getD (lookup k)

/-- The cache a read leaves: on a miss the value is stored. -/
def afterRead (c : Cache κ ν) (lookup : κ → ν) (k : κ) : Cache κ ν :=
  match c.get? k with
  | some _ => c
  | none => c.put k (lookup k)

@[simp] theorem get?_put_self (c : Cache κ ν) (k : κ) (v : ν) : (c.put k v).get? k = some v := by
  simp [get?, put]

theorem get?_put_of_ne {c : Cache κ ν} {k k' : κ} {v : ν} (h : k' ≠ k) :
    (c.put k v).get? k' = c.get? k' := by
  simp [get?, put, h]

@[simp] theorem get?_evict_self (c : Cache κ ν) (k : κ) : (c.evict k).get? k = none := by
  simp [get?, evict]

theorem get?_evict_of_ne {c : Cache κ ν} {k k' : κ} (h : k' ≠ k) :
    (c.evict k).get? k' = c.get? k' := by
  simp [get?, evict, h]

/-- An eviction takes away one entry. -/
theorem get?_evict_eq_some_iff {c : Cache κ ν} {k k' : κ} {v : ν} :
    (c.evict k).get? k' = some v ↔ k' ≠ k ∧ c.get? k' = some v := by
  by_cases hk : k' = k
  · simp [hk]
  · simp [get?_evict_of_ne hk, hk]

/-- What is stored under a key takes the place of what was there. -/
theorem put_evict (c : Cache κ ν) (k : κ) (v : ν) : (c.evict k).put k v = c.put k v := by
  refine ext fun k' => ?_
  by_cases hk : k' = k
  · subst hk
    rw [get?_put_self, get?_put_self]
  · rw [get?_put_of_ne hk, get?_put_of_ne hk, get?_evict_of_ne hk]

theorem evict_evict (c : Cache κ ν) (k : κ) : (c.evict k).evict k = c.evict k := by
  refine ext fun k' => ?_
  by_cases hk : k' = k
  · subst hk
    rw [get?_evict_self, get?_evict_self]
  · rw [get?_evict_of_ne hk]

/-- An entry of the cache after a read is an old entry, or what the
store returned for the key read. -/
theorem get?_afterRead {c : Cache κ ν} {lookup : κ → ν} {k k' : κ} {v : ν}
    (h : (c.afterRead lookup k).get? k' = some v) :
    c.get? k' = some v ∨ (k' = k ∧ v = lookup k) := by
  unfold afterRead at h
  cases hc : c.get? k with
  | some w => rw [hc] at h; exact Or.inl h
  | none =>
      rw [hc] at h
      -- a miss stores one entry
      by_cases hk : k' = k
      · subst hk
        simp only [get?_put_self, Option.some.injEq] at h
        exact Or.inr ⟨rfl, h.symm⟩
      · rw [get?_put_of_ne hk] at h
        exact Or.inl h

/-- A read leaves the entries of the other keys. -/
theorem get?_afterRead_of_ne {c : Cache κ ν} {lookup : κ → ν} {k k' : κ} (h : k' ≠ k) :
    (c.afterRead lookup k).get? k' = c.get? k' := by
  unfold afterRead
  cases c.get? k with
  | some w => rfl
  | none => exact get?_put_of_ne h

/-! ## Coherence -/

/-- **Every entry is what the store returns for its key.** -/
def Coherent (c : Cache κ ν) (lookup : κ → ν) : Prop :=
  ∀ k v, c.get? k = some v → v = lookup k

omit [DecidableEq κ] in
theorem coherent_empty (lookup : κ → ν) : (empty : Cache κ ν).Coherent lookup :=
  fun k v h => absurd h (by simp [empty, get?])

omit [DecidableEq κ] in
/-- Through a coherent cache one reads what the store returns. -/
theorem Coherent.read_eq {c : Cache κ ν} {lookup : κ → ν} (h : c.Coherent lookup) (k : κ) :
    c.read lookup k = lookup k := by
  unfold read
  cases hc : c.get? k with
  | some v => exact h k v hc
  | none => rfl

theorem Coherent.afterRead {c : Cache κ ν} {lookup : κ → ν} (h : c.Coherent lookup) (k : κ) :
    (c.afterRead lookup k).Coherent lookup := by
  intro k' v hv
  rcases get?_afterRead hv with hold | ⟨rfl, hnew⟩
  · exact h k' v hold
  · exact hnew

/-- **Evicting one key is enough exactly when the write changed no other
cached key.** -/
theorem coherent_evict_iff {c : Cache κ ν} {lookup lookup' : κ → ν} {k : κ}
    (h : c.Coherent lookup) :
    (c.evict k).Coherent lookup' ↔
      ∀ k', k' ≠ k → c.get? k' ≠ none → lookup' k' = lookup k' := by
  constructor
  · intro hc k' hne hcached
    obtain ⟨v, hv⟩ := Option.ne_none_iff_exists'.1 hcached
    rw [← hc k' v (by rw [get?_evict_of_ne hne, hv]), h k' v hv]
  · intro hw k' v hv
    by_cases hk : k' = k
    · subst hk
      simp at hv
    · rw [get?_evict_of_ne hk] at hv
      rw [hw k' hk (by simp [hv])]
      exact h k' v hv

omit [DecidableEq κ] in
/-- A write that evicts nothing keeps the cache coherent exactly when it
changed no cached key. -/
theorem coherent_write_iff {c : Cache κ ν} {lookup lookup' : κ → ν} (h : c.Coherent lookup) :
    c.Coherent lookup' ↔ ∀ k, c.get? k ≠ none → lookup' k = lookup k := by
  constructor
  · intro hc k hcached
    obtain ⟨v, hv⟩ := Option.ne_none_iff_exists'.1 hcached
    rw [← hc k v hv, h k v hv]
  · intro hw k v hv
    rw [hw k (by simp [hv])]
    exact h k v hv

end Cache

end Zooffice
