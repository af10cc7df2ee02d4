import Zooffice.User.Model.User
/-!
# The algebra of the merge

A record is merged property by property, and each rule is an overlay: a
source that says something replaces the target, one that says nothing
leaves it. Overlays are associative, and laying the same one twice is
laying it once. The email differs in that its setter lower-cases what is
copied; a copy of a copy is lower-cased twice.
-/


namespace Zooffice

namespace User

variable {α : Type} {toLowerCase : String → String}

theorem mergeObject_assoc (target s₁ s₂ : Option α) :
    mergeObject (mergeObject target s₁) s₂ = mergeObject target (mergeObject s₁ s₂) := by
  cases s₂ <;> rfl

/-- The rule of a string is the rule of an object, on the sources that
say something. -/
theorem mergeString_eq_ite (force : Bool) (target source : Option String) :
    mergeString force target source =
      if (source.isSome && (force || isNotBlank source)) = true then source else target := by
  cases source with
  | none => rfl
  | some v => rfl

theorem mergeString_assoc (force : Bool) (target s₁ s₂ : Option String) :
    mergeString force (mergeString force target s₁) s₂ =
      mergeString force target (mergeString force s₁ s₂) := by
  rw [mergeString_eq_ite force _ s₂, mergeString_eq_ite force s₁ s₂]
  split
  next hsays => rw [mergeString_eq_ite force target s₂, if_pos hsays]
  · rfl

/-- **The email**, which is lower-cased each time it is copied. -/
theorem mergeEmail_assoc (hlower : ∀ v, toLowerCase (toLowerCase v) = toLowerCase v)
    (target s₁ s₂ : Option String) :
    mergeString true (mergeString true target (s₁.map toLowerCase)) (s₂.map toLowerCase) =
      mergeString true target ((mergeString true s₁ (s₂.map toLowerCase)).map toLowerCase) := by
  rw [mergeString_assoc]
  congr 1
  cases s₂ with
  | none => rfl
  | some v => exact congrArg some (hlower v).symm

/-- **Merging one source after the other** is merging their merge. -/
theorem merge_assoc (hlower : ∀ v, toLowerCase (toLowerCase v) = toLowerCase v)
    (target s₁ s₂ : User) :
    (target.merge toLowerCase s₁).merge toLowerCase s₂ =
      target.merge toLowerCase (s₁.merge toLowerCase s₂) := by
  simp only [merge, mergeObject_assoc, mergeString_assoc, mergeEmail_assoc hlower]

/-- **Merging a source twice** is merging it once. -/
theorem merge_merge_self (target source : User) :
    (target.merge toLowerCase source).merge toLowerCase source =
      target.merge toLowerCase source := by
  simp only [merge, mergeObject_assoc, mergeString_assoc, mergeObject_self, mergeString_self]

/-- **The merge is an action of the sources on the records**: two sources
act like their merge, and one source acts once. -/
theorem merge_assoc_and_idempotent (hlower : ∀ v, toLowerCase (toLowerCase v) = toLowerCase v)
    (target s₁ s₂ : User) :
    (target.merge toLowerCase s₁).merge toLowerCase s₂ =
        target.merge toLowerCase (s₁.merge toLowerCase s₂) ∧
      (target.merge toLowerCase s₁).merge toLowerCase s₁ = target.merge toLowerCase s₁ :=
  ⟨merge_assoc hlower target s₁ s₂, merge_merge_self target s₁⟩

/-- Three records with values, blanks and nulls; the texts are in lower
case already. -/
theorem merge_assoc_and_idempotent_texts :
    let toLowerCase : String → String := fun v => v
    let target : User := { id := some 1, email := some "a@x", userName := some "a" }
    let s₁ : User := { email := some "", userName := some " ", enabled := false }
    let s₂ : User := { email := some "b@x", role := some .admin }
    (target.merge toLowerCase s₁).merge toLowerCase s₂ =
        target.merge toLowerCase (s₁.merge toLowerCase s₂) ∧
      (target.merge toLowerCase s₁).merge toLowerCase s₁ = target.merge toLowerCase s₁ :=
  merge_assoc_and_idempotent (fun _ => rfl) _ _ _

end User

end Zooffice
