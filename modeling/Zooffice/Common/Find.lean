import Mathlib.Data.List.Pairwise
/-!
# The first that passes a test

What `find?` gives in a list in order, and with a test that is stronger
than another one.
-/


namespace Zooffice

variable {α : Type*} {l : List α} {p q : α → Bool} {a : α}

/-- In a list in order, what comes strictly before all others that are
looked for is found. -/
theorem find?_of_pairwise {r : α → α → Prop} (hl : l.Pairwise r) (ha : a ∈ l) (hp : p a = true)
    (h : ∀ d ∈ l, p d = true → d ≠ a → ¬ r d a) : l.find? p = some a := by
  induction l with
  | nil => exact absurd ha List.not_mem_nil
  | cons d l ih =>
      rw [List.pairwise_cons] at hl
      by_cases hd : d = a
      · rw [hd, List.find?_cons_of_pos hp]
      · have hal : a ∈ l := (List.mem_cons.1 ha).resolve_left fun heq => hd heq.symm
        have hpd : ¬ p d = true := fun hpd => h d List.mem_cons_self hpd hd (hl.1 a hal)
        rw [List.find?_cons_of_neg hpd,
          ih hl.2 hal fun d' hd' => h d' (List.mem_cons_of_mem _ hd')]

/-- What is found with one test is found with a stronger one that it
passes. -/
theorem find?_of_imp (h : l.find? p = some a) (hq : q a = true)
    (himp : ∀ d ∈ l, q d = true → p d = true) : l.find? q = some a := by
  rw [List.find?_eq_some_iff_append] at h ⊢
  obtain ⟨-, as, bs, hl, has⟩ := h
  refine ⟨hq, as, bs, hl, fun d hd => ?_⟩
  have hp := has d hd
  have hdl : d ∈ l := hl ▸ List.mem_append_left _ hd
  by_contra hqd
  rw [himp d hdl (by simpa using hqd)] at hp
  cases hp

end Zooffice
