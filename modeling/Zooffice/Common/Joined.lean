import Mathlib.Data.List.Basic
/-!
# Texts joined one after the other

A text that grows by one more at a time, with a separator in front of each
unless there is nothing yet, is what has been added, joined: up to the
empty texts at the beginning, which leave nothing behind
(`joined_concat`). Texts without the separator can be told from what they
are joined to (`intercalate_inj`).
-/


namespace Zooffice

variable {α : Type*}

/-- The texts with the separator between them, without the empty ones that
they begin with. -/
def joined (sep : List α) (texts : List (List α)) : List α :=
  sep.intercalate (texts.dropWhile List.isEmpty)

@[simp] theorem joined_nil (sep : List α) : joined sep [] = [] := rfl

theorem intercalate_concat (sep more : List α) {texts : List (List α)} (h : texts ≠ []) :
    sep.intercalate (texts ++ [more]) = sep.intercalate texts ++ sep ++ more := by
  induction texts with
  | nil => exact absurd rfl h
  | cons t texts ih =>
      by_cases htexts : texts = []
      · rw [htexts, List.singleton_append, List.intercalate_cons_cons, List.intercalate_singleton,
          List.intercalate_singleton]
      · rw [List.cons_append, List.intercalate_cons_of_ne_nil (by simp), ih htexts,
          List.intercalate_cons_of_ne_nil htexts]
        simp only [List.append_assoc]

/-- What is in joined texts is in the separator or in one of them. -/
theorem mem_of_mem_intercalate {a : α} {sep : List α} {texts : List (List α)}
    (h : a ∈ sep.intercalate texts) : a ∈ sep ∨ ∃ t ∈ texts, a ∈ t := by
  induction texts with
  | nil => cases h
  | cons t texts ih =>
      by_cases htexts : texts = []
      · rw [htexts, List.intercalate_singleton] at h
        exact .inr ⟨t, List.mem_cons_self, h⟩
      · rw [List.intercalate_cons_of_ne_nil htexts, List.mem_append, List.mem_append] at h
        rcases h with (h | h) | h
        · exact .inr ⟨t, List.mem_cons_self, h⟩
        · exact .inl h
        · refine (ih h).imp_right ?_
          rintro ⟨t', ht', ha⟩
          exact ⟨t', List.mem_cons_of_mem _ ht', ha⟩

/-- **Joined texts can be told apart**, when they do not have the
separator. -/
theorem intercalate_inj [DecidableEq α] {sep : α} {texts texts' : List (List α)}
    (hne : texts ≠ []) (hsep : ∀ t ∈ texts, sep ∉ t) (hne' : texts' ≠ [])
    (hsep' : ∀ t ∈ texts', sep ∉ t)
    (h : [sep].intercalate texts = [sep].intercalate texts') : texts = texts' := by
  rw [← List.splitOn_intercalate sep hsep hne, h, List.splitOn_intercalate sep hsep' hne']

/-- With a first text that is not empty there is something. -/
theorem joined_eq_nil {sep : List α} {texts : List (List α)} :
    joined sep texts = [] ↔ texts.dropWhile List.isEmpty = [] := by
  rw [joined]
  refine ⟨fun h => ?_, fun h => by rw [h]; rfl⟩
  rcases hdrop : texts.dropWhile List.isEmpty with _ | ⟨t, ts⟩
  · rfl
  · have ht : t.isEmpty ≠ true := by
      have hhead := List.head?_dropWhile_not List.isEmpty texts
      rw [hdrop, List.head?_cons] at hhead
      simpa using hhead
    rw [hdrop] at h
    by_cases hts : ts = []
    · rw [hts, List.intercalate_singleton] at h
      exact absurd (by rw [h]; rfl) ht
    · rw [List.intercalate_cons_of_ne_nil hts, List.append_assoc, List.append_eq_nil_iff] at h
      exact absurd (by rw [h.1]; rfl) ht

/-- **One more text** comes behind a separator, unless there is nothing
yet. -/
theorem joined_concat (sep : List α) (texts : List (List α)) (more : List α) :
    joined sep (texts ++ [more]) =
      (if joined sep texts ≠ [] then joined sep texts ++ sep else joined sep texts) ++ more := by
  by_cases h : texts.dropWhile List.isEmpty = []
  · have hnil : joined sep texts = [] := joined_eq_nil.2 h
    rw [if_neg (not_not.2 hnil), hnil, List.nil_append, joined, List.dropWhile_append, h,
      List.isEmpty_nil, if_pos rfl]
    by_cases hmore : more = []
    · rw [hmore]
      rfl
    · rw [List.dropWhile_cons_of_neg (by simpa using hmore), List.intercalate_singleton]
  · rw [if_pos (mt joined_eq_nil.1 h), joined, List.dropWhile_append,
      if_neg (by simpa using h), intercalate_concat sep more h, joined]

/-- Nothing between the texts. -/
theorem intercalate_empty (texts : List (List α)) :
    ([] : List α).intercalate texts = texts.flatten := by
  induction texts with
  | nil => rfl
  | cons t texts ih =>
      by_cases htexts : texts = []
      · rw [htexts, List.intercalate_singleton, List.flatten_singleton]
      · rw [List.intercalate_cons_of_ne_nil htexts, ih, List.append_nil, List.flatten_cons]

theorem length_intercalate (sep : List α) (texts : List (List α)) :
    (sep.intercalate texts).length =
      sep.length * (texts.length - 1) + texts.flatten.length := by
  induction texts with
  | nil => simp
  | cons t texts ih =>
      cases texts with
      | nil => simp
      | cons t' texts =>
          simp only [List.length_cons, Nat.add_sub_cancel, List.flatten_cons,
            List.length_append] at ih ⊢
          simp only [List.intercalate_cons_cons, List.length_append, ih, Nat.mul_succ]
          omega

/-- **The separator once in front is as good as between the texts** where
there is none, or where it comes once and can change places with the text
before it. -/
theorem intercalate_eq_append_flatten_iff {sep : List α} {texts : List (List α)} :
    sep.intercalate texts = sep ++ texts.flatten ↔
      sep = [] ∨ ∃ a b, texts = [a, b] ∧ a ++ sep = sep ++ a := by
  constructor
  · intro h
    have hlength := congrArg List.length h
    rw [length_intercalate, List.length_append] at hlength
    match texts, h with
    | [], _ =>
        left
        exact List.length_eq_zero_iff.1 (by simpa using hlength.symm)
    | [a], _ =>
        left
        exact List.length_eq_zero_iff.1 (by simpa using hlength.symm)
    | [a, b], h =>
        right
        rw [List.intercalate_cons_cons, List.intercalate_singleton, List.flatten_cons,
          List.flatten_singleton, ← List.append_assoc, List.append_cancel_right_eq] at h
        exact ⟨a, b, rfl, h⟩
    | a :: b :: c :: texts, _ =>
        -- the lengths differ by that of the separator at least
        left
        rw [Nat.add_right_cancel_iff] at hlength
        simp only [List.length_cons, Nat.add_sub_cancel, Nat.mul_succ] at hlength
        exact List.length_eq_zero_iff.1 (by omega)
  · rintro (rfl | ⟨a, b, rfl, h⟩)
    · rw [intercalate_empty, List.nil_append]
    · rw [List.intercalate_cons_cons, List.intercalate_singleton, h, List.flatten_cons,
        List.flatten_singleton, List.append_assoc]

end Zooffice
