import Mathlib.Data.List.Basic
import Mathlib.Data.List.Infix
/-!
# The first occurrence in a text

What occurs is given by a function of the rest of the text: it says what
is left behind an occurrence that the rest begins with. The first one is
found by going through the text letter by letter.
-/


namespace Zooffice

variable {α : Type*} {occurs : List α → Option (List α)} {text before rest : List α}

/-- The texts before and behind the first occurrence. -/
def firstOccurrence (occurs : List α → Option (List α)) : List α → Option (List α × List α)
  | [] => (occurs []).map fun rest => ([], rest)
  | c :: cs =>
      match occurs (c :: cs) with
      | some rest => some ([], rest)
      | none => (firstOccurrence occurs cs).map fun found => (c :: found.1, found.2)

theorem firstOccurrence_of_occurs (h : occurs text = some rest) :
    firstOccurrence occurs text = some ([], rest) := by
  cases text with
  | nil => rw [firstOccurrence, h, Option.map_some]
  | cons c cs => rw [firstOccurrence, h]

theorem firstOccurrence_cons_of_none {c : α} {cs : List α} (h : occurs (c :: cs) = none) :
    firstOccurrence occurs (c :: cs) =
      (firstOccurrence occurs cs).map fun found => (c :: found.1, found.2) := by
  rw [firstOccurrence, h]

/-- **What no rest before it begins with** is the first occurrence. -/
theorem firstOccurrence_append {tail : List α} (h : occurs tail = some rest)
    (hnone : ∀ b, b ≠ [] → b <:+ before → occurs (b ++ tail) = none) :
    firstOccurrence occurs (before ++ tail) = some (before, rest) := by
  induction before with
  | nil => exact firstOccurrence_of_occurs h
  | cons c before ih =>
      have hcons : occurs (c :: (before ++ tail)) = none :=
        hnone (c :: before) (List.cons_ne_nil _ _) (List.suffix_refl _)
      rw [List.cons_append, firstOccurrence_cons_of_none hcons,
        ih fun b hb hsuffix => hnone b hb (hsuffix.trans (List.suffix_cons _ _)), Option.map_some]

/-! ## Literal occurrences -/

variable [BEq α] [LawfulBEq α] {pattern : List α}

theorem isPrefixOf?_eq_some_iff :
    pattern.isPrefixOf? text = some rest ↔ text = pattern ++ rest := by
  induction pattern generalizing text with
  | nil => rw [List.isPrefixOf?.eq_def, List.nil_append, Option.some_inj]
  | cons p pattern ih =>
      cases text with
      | nil => exact iff_of_false (by simp [List.isPrefixOf?]) (by simp)
      | cons c cs =>
          rw [List.cons_append, List.cons_eq_cons]
          by_cases h : p = c
          · have hstep : (p :: pattern).isPrefixOf? (c :: cs) = pattern.isPrefixOf? cs :=
              if_pos (by rw [h]; exact beq_self_eq_true c)
            rw [hstep, ih]
            exact ⟨fun hcs => ⟨h.symm, hcs⟩, And.right⟩
          · have hstep : (p :: pattern).isPrefixOf? (c :: cs) = none := if_neg (by rwa [beq_iff_eq])
            rw [hstep]
            exact iff_of_false (by simp) fun hc => h hc.1.symm

theorem isPrefixOf?_append (pattern rest : List α) :
    pattern.isPrefixOf? (pattern ++ rest) = some rest := isPrefixOf?_eq_some_iff.2 rfl

/-- **There is a first occurrence where there is any.** -/
theorem firstOccurrence_eq_none_iff :
    firstOccurrence pattern.isPrefixOf? text = none ↔ ¬ pattern <:+: text := by
  induction text with
  | nil =>
      rw [firstOccurrence, Option.map_eq_none_iff, List.infix_nil,
        Option.eq_none_iff_forall_ne_some]
      refine ⟨fun h hnil => h [] (isPrefixOf?_eq_some_iff.2 (by rw [hnil]; rfl)),
        fun h rest hrest => h ?_⟩
      exact (List.append_eq_nil_iff.1 (isPrefixOf?_eq_some_iff.1 hrest).symm).1
  | cons c cs ih =>
      rw [List.infix_cons_iff, not_or]
      rcases hfound : pattern.isPrefixOf? (c :: cs) with _ | rest
      · have hbegins : ¬ pattern <+: c :: cs := by
          rintro ⟨rest, hrest⟩
          rw [← hrest, isPrefixOf?_append] at hfound
          cases hfound
        rw [firstOccurrence_cons_of_none hfound, Option.map_eq_none_iff, ih, and_iff_right hbegins]
      · have hbegins : pattern <+: c :: cs := ⟨rest, (isPrefixOf?_eq_some_iff.1 hfound).symm⟩
        rw [firstOccurrence_of_occurs hfound]
        exact iff_of_false (by simp) fun h => h.1 hbegins

/-- What is found is an occurrence. -/
theorem eq_of_firstOccurrence (h : firstOccurrence pattern.isPrefixOf? text = some (before, rest)) :
    text = before ++ (pattern ++ rest) := by
  induction text generalizing before with
  | nil =>
      rw [firstOccurrence, Option.map_eq_some_iff] at h
      obtain ⟨rest', hrest, heq⟩ := h
      obtain ⟨rfl, rfl⟩ := Prod.mk.inj heq
      rw [List.nil_append, ← isPrefixOf?_eq_some_iff, hrest]
  | cons c cs ih =>
      rcases hfound : pattern.isPrefixOf? (c :: cs) with _ | rest'
      · rw [firstOccurrence_cons_of_none hfound, Option.map_eq_some_iff] at h
        obtain ⟨⟨before', rest'⟩, hrest, heq⟩ := h
        obtain ⟨rfl, rfl⟩ := Prod.mk.inj heq
        rw [ih hrest, List.cons_append]
      · rw [firstOccurrence_of_occurs hfound, Option.some_inj] at h
        obtain ⟨rfl, rfl⟩ := Prod.mk.inj h
        rw [List.nil_append, ← isPrefixOf?_eq_some_iff, hfound]

/-- And there is none in front of it. -/
theorem not_infix_of_firstOccurrence (hpattern : pattern ≠ [])
    (h : firstOccurrence pattern.isPrefixOf? text = some (before, rest)) :
    ¬ pattern <:+: before := by
  induction text generalizing before with
  | nil =>
      rw [firstOccurrence, Option.map_eq_some_iff] at h
      obtain ⟨rest', -, heq⟩ := h
      obtain ⟨rfl, -⟩ := Prod.mk.inj heq
      rwa [List.infix_nil]
  | cons c cs ih =>
      rcases hfound : pattern.isPrefixOf? (c :: cs) with _ | rest'
      · have htext := eq_of_firstOccurrence h
        rw [firstOccurrence_cons_of_none hfound, Option.map_eq_some_iff] at h
        obtain ⟨⟨before', rest'⟩, hrest, heq⟩ := h
        obtain ⟨rfl, rfl⟩ := Prod.mk.inj heq
        rw [List.infix_cons_iff, not_or]
        refine ⟨?_, ih hrest⟩
        rintro ⟨more, hmore⟩
        rw [htext, ← hmore, List.append_assoc, isPrefixOf?_append] at hfound
        cases hfound
      · rw [firstOccurrence_of_occurs hfound, Option.some_inj] at h
        obtain ⟨rfl, -⟩ := Prod.mk.inj h
        rwa [List.infix_nil]

/-! ## Patterns that do not overlap

A pattern that begins with a letter it has nowhere else does not reach
into another occurrence of that letter. -/

section Separate

variable {α : Type*} {a : α} {q b t rest : List α}

theorem prefix_of_prefix_append_cons (hq : a ∉ q) (hb : b ≠ [])
    (h : a :: q <+: b ++ a :: rest) : a :: q <+: b := by
  rcases List.prefix_or_prefix_of_prefix h (List.prefix_append b (a :: rest)) with hle | hle
  · exact hle
  · obtain ⟨c, b', rfl⟩ := List.exists_cons_of_ne_nil hb
    obtain ⟨more, hmore⟩ := hle
    rw [List.cons_append, List.cons_eq_cons] at hmore
    obtain ⟨rfl, hmore⟩ := hmore
    cases more with
    | nil => rw [← hmore, List.append_nil]
    | cons d more =>
        -- the letter behind `b` is one of the pattern
        rw [← hmore, List.cons_append, List.cons_prefix_cons, List.prefix_append_right_inj,
          List.cons_prefix_cons] at h
        obtain rfl : d = c := h.2.1
        exact absurd (hmore ▸ List.mem_append_right _ List.mem_cons_self) hq

/-- **An occurrence is before the letter, or it begins there or later.** -/
theorem infix_append_cons_iff (hq : a ∉ q) :
    a :: q <:+: b ++ a :: rest ↔ a :: q <:+: b ∨ a :: q <:+: a :: rest := by
  constructor
  · intro h
    induction b with
    | nil => exact Or.inr h
    | cons c b ih =>
        rcases List.infix_cons_iff.1 h with hbegins | hoccurs
        · left
          exact (prefix_of_prefix_append_cons hq (List.cons_ne_nil c b) hbegins).isInfix
        · exact (ih hoccurs).imp_left fun h => h.trans (List.suffix_cons c b).isInfix
  · rintro (h | h)
    · exact h.trans (List.prefix_append _ _).isInfix
    · exact h.trans (List.suffix_append _ _).isInfix

/-- A text without the letter is passed over. -/
theorem infix_append_iff_of_not_mem (ht : a ∉ t) :
    a :: q <:+: t ++ rest ↔ a :: q <:+: rest := by
  refine ⟨fun h => ?_, fun h => h.trans (List.suffix_append _ _).isInfix⟩
  induction t with
  | nil => exact h
  | cons c t ih =>
      rw [List.mem_cons, not_or] at ht
      rcases List.infix_cons_iff.1 h with hbegins | hoccurs
      · exact absurd (List.cons_prefix_cons.1 hbegins).1 ht.1
      · exact ih ht.2 hoccurs

/-- **An occurrence is found again**, when the text behind is changed for one
that has the same occurrences and begins with the same texts without the
letter. -/
theorem infix_append_of_imp {more : List α} (hq : a ∉ q)
    (hoccurs : a :: q <:+: rest → a :: q <:+: more)
    (hbegins : ∀ l, a ∉ l → l <+: rest → l <+: more) (h : a :: q <:+: t ++ rest) :
    a :: q <:+: t ++ more := by
  rw [List.infix_append_iff] at h ⊢
  rcases h with h | h | ⟨l, l', hl, hsuffix, hpre⟩
  · exact Or.inl h
  · exact Or.inr (Or.inl (hoccurs h))
  · cases l with
    | nil =>
        rw [List.nil_append] at hl
        exact Or.inr (Or.inl (hoccurs (hl ▸ hpre.isInfix)))
    | cons c l =>
        -- what reaches into the text behind is without the letter
        have htail : q = l ++ l' := (List.cons_eq_cons.1 hl).2
        have hnot : a ∉ l' := fun hmem => hq (htail ▸ List.mem_append_right _ hmem)
        exact Or.inr (Or.inr ⟨c :: l, l', hl, hsuffix, hbegins l' hnot hpre⟩)

end Separate

end Zooffice
