import Mathlib.Computability.RegularExpressions
/-!
# Patterns

Character classes and optional parts, as regular expressions, and what
matches them as a whole.
-/


namespace Zooffice

namespace Pattern

open RegularExpression

variable {α : Type*}

/-- One of some characters. -/
def anyOf : List α → RegularExpression α
  | [] => 0
  | c :: cs => char c + anyOf cs

/-- The pattern or nothing. -/
def optional (p : RegularExpression α) : RegularExpression α := 1 + p

/-- The pattern so many times, with a separator in between. -/
def separated (p : RegularExpression α) (sep : α) : ℕ → RegularExpression α
  | 0 => p
  | n + 1 => p * char sep * separated p sep n

variable [DecidableEq α]

theorem anyOf_rmatch_iff {cs t : List α} :
    (anyOf cs).rmatch t = true ↔ ∃ c ∈ cs, t = [c] := by
  induction cs with
  | nil => simp [anyOf]
  | cons c cs ih => rw [anyOf, add_rmatch_iff, char_rmatch_iff, ih, List.exists_mem_cons_iff]

theorem optional_rmatch_iff {p : RegularExpression α} {t : List α} :
    (optional p).rmatch t = true ↔ t = [] ∨ p.rmatch t = true := by
  rw [optional, add_rmatch_iff, one_rmatch_iff]

/-- A class in front takes the first character. -/
theorem anyOf_mul_rmatch_iff {cs t : List α} {p : RegularExpression α} :
    (anyOf cs * p).rmatch t = true ↔ ∃ c ∈ cs, ∃ u, t = c :: u ∧ p.rmatch u = true := by
  rw [mul_rmatch_iff]
  constructor
  · rintro ⟨t, u, rfl, ht, hu⟩
    obtain ⟨c, hc, rfl⟩ := anyOf_rmatch_iff.1 ht
    exact ⟨c, hc, u, rfl, hu⟩
  · rintro ⟨c, hc, u, rfl, hu⟩
    exact ⟨[c], u, rfl, anyOf_rmatch_iff.2 ⟨c, hc, rfl⟩, hu⟩

theorem optional_mul_rmatch_iff {p q : RegularExpression α} {t : List α} :
    (optional p * q).rmatch t = true ↔ q.rmatch t = true ∨ (p * q).rmatch t = true := by
  rw [mul_rmatch_iff, mul_rmatch_iff]
  constructor
  · rintro ⟨t, u, rfl, ht, hu⟩
    rcases optional_rmatch_iff.1 ht with rfl | ht
    · exact Or.inl hu
    · exact Or.inr ⟨t, u, rfl, ht, hu⟩
  · rintro (hq | ⟨t, u, rfl, ht, hu⟩)
    · exact ⟨[], t, rfl, optional_rmatch_iff.2 (Or.inl rfl), hq⟩
    · exact ⟨t, u, rfl, optional_rmatch_iff.2 (Or.inr ht), hu⟩

/-- **Separated parts** are the pieces between the separators, when the
separator is in none of them. -/
theorem separated_rmatch_iff {p : RegularExpression α} {sep : α}
    (hsep : ∀ t, p.rmatch t = true → sep ∉ t) {n : ℕ} {t : List α} :
    (separated p sep n).rmatch t = true ↔
      (t.splitOn sep).length = n + 1 ∧ ∀ piece ∈ t.splitOn sep, p.rmatch piece = true := by
  induction n generalizing t with
  | zero =>
      rw [separated]
      constructor
      · intro ht
        rw [List.splitOn_eq_singleton (hsep t ht)]
        exact ⟨rfl, List.forall_mem_singleton.2 ht⟩
      · rintro ⟨hlen, hpieces⟩
        obtain ⟨u, hu⟩ := List.length_eq_one_iff.1 hlen
        have hjoin : [sep].intercalate (t.splitOn sep) = t := List.intercalate_splitOn sep
        rw [hu, List.intercalate_singleton] at hjoin
        rw [← hjoin]
        exact hpieces u (by rw [hu]; exact List.mem_singleton_self u)
  | succ n ih =>
      rw [separated, mul_rmatch_iff]
      constructor
      · rintro ⟨w, v, rfl, hw, hv⟩
        obtain ⟨u, s, rfl, hu, hs⟩ := (mul_rmatch_iff _ _ _).1 hw
        rw [char_rmatch_iff] at hs
        obtain ⟨hlen, hpieces⟩ := ih.1 hv
        rw [hs, List.append_assoc, List.singleton_append,
          List.splitOn_append_cons_self_of_not_mem (hsep u hu)]
        exact ⟨by rw [List.length_cons, hlen], List.forall_mem_cons.2 ⟨hu, hpieces⟩⟩
      · rintro ⟨hlen, hpieces⟩
        by_cases hmem : sep ∈ t
        · obtain ⟨u, v, rfl, hu⟩ := List.eq_append_cons_of_mem hmem
          rw [List.splitOn_append_cons_self_of_not_mem hu, List.length_cons] at hlen
          rw [List.splitOn_append_cons_self_of_not_mem hu, List.forall_mem_cons] at hpieces
          refine ⟨u ++ [sep], v, by simp, ?_, ih.2 ⟨by omega, hpieces.2⟩⟩
          exact (mul_rmatch_iff _ _ _).2 ⟨u, [sep], rfl, hpieces.1, (char_rmatch_iff _ _).2 rfl⟩
        · rw [List.splitOn_eq_singleton hmem, List.length_singleton] at hlen
          omega

end Pattern

end Zooffice
