import Zooffice.Common.Occurrence
import Zooffice.Js.Text
/-!
# `replace` with a plain pattern

The first occurrence is replaced, and in the replacement a dollar with
one of four characters behind it stands for a text.
-/


namespace Zooffice

namespace Js

variable {matched before behind text pattern replacement : Text}

/-- What a dollar and the character behind it stand for: a dollar, the text that
is replaced, and the texts before and behind it. Those for groups stand for
nothing when the pattern has none. -/
def dollarText (matched before behind : Text) : Char → Option Text
  | '$' => some ['$']
  | '&' => some matched
  | '\x60' => some before
  | '\'' => some behind
  | _ => none

/-- The replacement, where a dollar may have been read already. -/
def expandFrom (matched before behind : Text) : Bool → Text → Text
  | false, [] => []
  | true, [] => ['$']
  | false, c :: cs =>
      if c = '$' then expandFrom matched before behind true cs
      else c :: expandFrom matched before behind false cs
  | true, c :: cs =>
      match dollarText matched before behind c with
      | some t => t ++ expandFrom matched before behind false cs
      | none => '$' :: c :: expandFrom matched before behind false cs

/-- The text that an occurrence is replaced by. -/
def expand (matched before behind replacement : Text) : Text :=
  expandFrom matched before behind false replacement

/-- `text.replace(pattern, replacement)` -/
def replace (text pattern replacement : Text) : Text :=
  match firstOccurrence pattern.isPrefixOf? text with
  | some (before, behind) => before ++ expand pattern before behind replacement ++ behind
  | none => text

/-- A replacement in which no dollar stands for a text. -/
def Literal (replacement : Text) : Prop :=
  ∀ c ∈ ['$', '&', '\x60', '\''], ¬ ['$', c] <:+: replacement

instance (replacement : Text) : Decidable (Literal replacement) := List.decidableBAll _ _

theorem literal_of_not_mem (h : '$' ∉ replacement) : Literal replacement :=
  fun _ _ hoccurs => h (hoccurs.subset List.mem_cons_self)

theorem Literal.of_cons {c : Char} (h : Literal (c :: replacement)) : Literal replacement :=
  fun d hd hoccurs => h d hd (hoccurs.trans (List.suffix_cons _ _).isInfix)

theorem Literal.dollarText {c : Char} (h : Literal ('$' :: c :: replacement)) :
    dollarText matched before behind c = none := by
  have hnot : c ∉ ['$', '&', '\x60', '\''] := fun hc =>
    h c hc (List.prefix_append ['$', c] replacement).isInfix
  simp only [List.mem_cons, List.not_mem_nil, or_false, not_or] at hnot
  obtain ⟨h₁, h₂, h₃, h₄⟩ := hnot
  unfold Js.dollarText
  split
  · exact absurd rfl h₁
  · exact absurd rfl h₂
  · exact absurd rfl h₃
  · exact absurd rfl h₄
  · rfl

/-- **A literal replacement is itself.** -/
theorem expand_of_literal (h : Literal replacement) :
    expand matched before behind replacement = replacement := by
  -- behind a dollar as well, which is then taken along
  have hboth : (Literal replacement →
      expandFrom matched before behind false replacement = replacement) ∧
      (Literal ('$' :: replacement) →
        expandFrom matched before behind true replacement = '$' :: replacement) := by
    clear h
    induction replacement with
    | nil => exact ⟨fun _ => rfl, fun _ => rfl⟩
    | cons c cs ih =>
        refine ⟨fun h => ?_, fun h => ?_⟩
        · rw [expandFrom]
          split
          · next hc => rw [ih.2 (hc ▸ h), hc]
          · rw [ih.1 h.of_cons]
        · rw [expandFrom, h.dollarText]
          simp only [ih.1 h.of_cons.of_cons]
  exact hboth.1 h

theorem replace_of_not_infix (h : ¬ pattern <:+: text) :
    replace text pattern replacement = text := by
  rw [replace, firstOccurrence_eq_none_iff.2 h]

/-- The replaced occurrence is the first one. -/
theorem replace_of_infix (h : pattern <:+: text) : ∃ before behind,
    text = before ++ (pattern ++ behind) ∧ replace text pattern replacement =
      before ++ expand pattern before behind replacement ++ behind := by
  rcases hfound : firstOccurrence pattern.isPrefixOf? text with _ | ⟨before, behind⟩
  · exact absurd h (firstOccurrence_eq_none_iff.1 hfound)
  · refine ⟨before, behind, eq_of_firstOccurrence hfound, ?_⟩
    rw [replace, hfound]

/-- **The occurrence that none is before**, with a pattern that does not
overlap. -/
theorem replace_append {a : Char} {q : Text} (hq : a ∉ q) (hbefore : ¬ a :: q <:+: before) :
    replace (before ++ (a :: q ++ behind)) (a :: q) replacement =
      before ++ expand (a :: q) before behind replacement ++ behind := by
  have hnone : ∀ b, b ≠ [] → b <:+ before →
      (a :: q).isPrefixOf? (b ++ (a :: q ++ behind)) = none := by
    intro b hb hsuffix
    rw [Option.eq_none_iff_forall_ne_some]
    intro rest hrest
    rw [isPrefixOf?_eq_some_iff] at hrest
    have hbegins : a :: q <+: b := prefix_of_prefix_append_cons hq hb ⟨rest, hrest.symm⟩
    exact hbefore (hbegins.isInfix.trans hsuffix.isInfix)
  rw [replace, firstOccurrence_append (isPrefixOf?_append _ _) hnone]

/-- An occurrence replaced by itself. -/
theorem replace_self (h : Literal pattern) : replace text pattern pattern = text := by
  by_cases hoccurs : pattern <:+: text
  · obtain ⟨before, behind, htext, hreplace⟩ := replace_of_infix hoccurs
    rw [hreplace, expand_of_literal h, List.append_assoc, ← htext]
  · exact replace_of_not_infix hoccurs

end Js

end Zooffice
