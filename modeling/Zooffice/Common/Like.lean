import Mathlib.Data.List.Infix
/-!
# SQL patterns

A pattern is a text in which `%` stands for any text and `_` for any one
character; every other character stands for itself. A text without the
two signs, set between two `%`, matches exactly the texts that contain it.
-/


namespace Zooffice

/-- `value LIKE pattern`. -/
def like : List Char → List Char → Bool
  | [], value => value.isEmpty
  | p :: pattern, value =>
      if p = '%' then value.tails.any (like pattern)
      else
        match value with
        | [] => false
        | c :: value => (p = '_' || p = c) && like pattern value

/-- The text has none of the signs that stand for something else. -/
def Plain (text : List Char) : Prop := '%' ∉ text ∧ '_' ∉ text

instance (text : List Char) : Decidable (Plain text) :=
  inferInstanceAs (Decidable (_ ∧ _))

theorem like_percent {pattern value : List Char} :
    like ('%' :: pattern) value = true ↔ ∃ rest, rest <:+ value ∧ like pattern rest = true := by
  simp [like, List.mem_tails]

theorem like_cons_nil {p : Char} {pattern : List Char} (hp : p ≠ '%') :
    like (p :: pattern) [] = false := by
  simp [like, hp]

theorem like_cons_cons {p c : Char} {pattern value : List Char} (hp : p ≠ '%') :
    like (p :: pattern) (c :: value) = true ↔ (p = '_' ∨ p = c) ∧ like pattern value = true := by
  simp [like, hp]

/-- A lone `%` matches every text. -/
@[simp] theorem like_percent_nil (value : List Char) : like ['%'] value = true :=
  like_percent.2 ⟨[], List.nil_suffix, rfl⟩

/-- **A plain text before a `%`** matches the texts that begin with it. -/
theorem like_plain_percent {text value : List Char} (h : Plain text) :
    like (text ++ ['%']) value = true ↔ text <+: value := by
  induction text generalizing value with
  | nil => simp
  | cons p text ih =>
      obtain ⟨hpercent, hunderscore⟩ := h
      rw [List.mem_cons, not_or] at hpercent hunderscore
      have hp : p ≠ '%' := Ne.symm hpercent.1
      have hp' : p ≠ '_' := Ne.symm hunderscore.1
      cases value with
      | nil => simp [like_cons_nil hp]
      | cons c value =>
          rw [List.cons_append, like_cons_cons hp, ih ⟨hpercent.2, hunderscore.2⟩,
            List.cons_prefix_cons]
          simp [hp']

/-- **A plain text between two `%`** matches the texts that contain it. -/
theorem like_percent_plain_percent {text value : List Char} (h : Plain text) :
    like ('%' :: text ++ ['%']) value = true ↔ text <:+: value := by
  rw [List.cons_append, like_percent, List.infix_iff_prefix_suffix]
  constructor
  · rintro ⟨rest, hsuffix, hlike⟩
    exact ⟨rest, (like_plain_percent h).1 hlike, hsuffix⟩
  · rintro ⟨rest, hprefix, hsuffix⟩
    exact ⟨rest, hsuffix, (like_plain_percent h).2 hprefix⟩

/-! ## What a sign stands for -/

/-- The text with another character for each of the two signs. -/
def fillIn (filler : Char) (text : List Char) : List Char :=
  text.map fun p => if p = '%' ∨ p = '_' then filler else p

/-- A sign of the pattern may stand for one character. -/
theorem like_fillIn (filler : Char) (text : List Char) :
    like (text ++ ['%']) (fillIn filler text) = true := by
  induction text with
  | nil => exact like_percent_nil []
  | cons p text ih =>
      rw [fillIn, List.map_cons, List.cons_append]
      by_cases hp : p = '%'
      · subst hp
        exact like_percent.2 ⟨_, List.suffix_cons _ _, ih⟩
      · refine (like_cons_cons hp).2 ⟨?_, ih⟩
        by_cases hp' : p = '_'
        · exact Or.inl hp'
        · right
          rw [if_neg (not_or.2 ⟨hp, hp'⟩)]

/-- What is filled in has no sign left, so it does not contain the
pattern's own text unless that is plain. -/
theorem plain_of_infix_fillIn {filler : Char} (hfiller : filler ≠ '%' ∧ filler ≠ '_')
    {text : List Char} (h : text <:+: fillIn filler text) : Plain text := by
  have hsign : ∀ c, c = '%' ∨ c = '_' → c ∉ fillIn filler text := by
    intro c hc hmem
    obtain ⟨p, -, hp⟩ := List.mem_map.1 hmem
    split at hp
    · subst hp
      exact hc.elim hfiller.1 hfiller.2
    next hno => exact hno (hp ▸ hc)
  exact ⟨fun hmem => hsign '%' (Or.inl rfl) (h.subset hmem),
    fun hmem => hsign '_' (Or.inr rfl) (h.subset hmem)⟩

end Zooffice
