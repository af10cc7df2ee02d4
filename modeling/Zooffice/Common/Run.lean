import Mathlib.Data.List.Basic
import Zooffice.Common.Effect
/-!
# Runs of a deterministic system

A system performs actions one after the other; an action it does not
perform ends the run (`perform`). A condition on the state before each
action (`Along`) is what a result about some runs only is stated with,
and `perform_invariant` is the one induction over runs the development
uses.
-/


namespace Zooffice

universe u

variable {σ ι : Type*}

/-- Perform the actions in order. -/
def perform (step : σ → ι → Option σ) : σ → List ι → Option σ
  | s, [] => some s
  | s, a :: as => (step s a).bind fun s' => perform step s' as

/-- Every action of the run meets the condition in the state it is
performed in. -/
def Along (step : σ → ι → Option σ) (G : σ → ι → Prop) : σ → List ι → Prop
  | _, [] => True
  | s, a :: as => G s a ∧ ∀ s', step s a = some s' → Along step G s' as

variable {step : σ → ι → Option σ} {G : σ → ι → Prop} {I : σ → Prop}

/-- A condition that can be decided is decided along a run. -/
instance decidableAlong [∀ s a, Decidable (G s a)] :
    ∀ (s : σ) (as : List ι), Decidable (Along step G s as)
  | _, [] => isTrue trivial
  | s, a :: as =>
      match h : step s a with
      | none =>
          decidable_of_iff (G s a) ⟨fun hG => ⟨hG, fun s' hs' => by simp [h] at hs'⟩, And.left⟩
      | some s' =>
          have := decidableAlong s' as
          decidable_of_iff (G s a ∧ Along step G s' as)
            (and_congr_right fun _ => ⟨fun hrest t ht => Option.some.inj (h.symm.trans ht) ▸ hrest,
              fun hrest => hrest s' h⟩)

@[simp] theorem perform_nil (s : σ) : perform step s [] = some s := rfl

theorem perform_cons_eq_some {s s'' : σ} {a : ι} {as : List ι} :
    perform step s (a :: as) = some s'' ↔
      ∃ s', step s a = some s' ∧ perform step s' as = some s'' :=
  Option.bind_eq_some_iff

/-- The state after a run that goes to its end. -/
theorem perform_eq_some_getD {s : σ} {as : List ι} (h : (perform step s as).isSome = true)
    (s' : σ) : perform step s as = some ((perform step s as).getD s') :=
  (Option.getD_of_ne_none (Option.isSome_iff_ne_none.1 h) s').symm

/-- A run of two parts. -/
theorem perform_append {s : σ} {as bs : List ι} :
    perform step s (as ++ bs) = (perform step s as).bind fun s' => perform step s' bs := by
  induction as generalizing s with
  | nil => rfl
  | cons a as ih =>
      rw [List.cons_append, perform, perform, Option.bind_assoc]
      exact congrArg _ (funext fun s' => ih)

/-- A run and one action more. -/
theorem perform_concat_eq_some {s s'' : σ} {as : List ι} {a : ι} :
    perform step s (as ++ [a]) = some s'' ↔
      ∃ s', perform step s as = some s' ∧ step s' a = some s'' := by
  simp only [perform_append, Option.bind_eq_some_iff, perform_cons_eq_some, perform_nil,
    Option.some.injEq, exists_eq_right]

/-- The condition holds along a run and before one action more. -/
theorem along_concat {s : σ} {as : List ι} {a : ι} :
    Along step G s (as ++ [a]) ↔
      Along step G s as ∧ ∀ s', perform step s as = some s' → G s' a := by
  induction as generalizing s with
  | nil => simp [Along]
  | cons b as ih =>
      simp only [List.cons_append, Along, ih, perform_cons_eq_some, and_assoc]
      refine and_congr_right fun _ =>
        ⟨fun h => ⟨fun s' hs' => (h s' hs').1, ?_⟩, fun h s' hs' => ?_⟩
      · rintro s' ⟨s₁, hs₁, hrun⟩
        exact (h s₁ hs₁).2 s' hrun
      · exact ⟨h.1 s' hs', fun s'' hrun => h.2 s'' ⟨s', hs', hrun⟩⟩

/-- **What each guarded step keeps, a guarded run keeps.** -/
theorem perform_invariant
    (hstep : ∀ s a s', I s → G s a → step s a = some s' → I s') :
    ∀ {as : List ι} {s s' : σ}, I s → Along step G s as → perform step s as = some s' → I s' := by
  intro as
  -- on the actions, for every state the run may start from
  induction as with
  | nil =>
      intro s s' hI _ h
      rw [perform_nil, Option.some.injEq] at h
      exact h ▸ hI
  | cons a as ih =>
      rintro s s'' hI ⟨hG, hrest⟩ h
      obtain ⟨s', h', h''⟩ := perform_cons_eq_some.1 h
      exact ih (hstep s a s' hI hG h') (hrest s' h') h''

/-- The condition that always holds guards every run. -/
theorem along_true (s : σ) (as : List ι) : Along step (fun _ _ => True) s as := by
  induction as generalizing s with
  | nil => trivial
  | cons a as ih => exact ⟨trivial, fun s' _ => ih s'⟩

/-- A condition that every action of the list meets where an invariant of
the steps holds guards its run. -/
theorem along_of_invariant {as : List ι} (hstep : ∀ s a s', I s → step s a = some s' → I s')
    (h : ∀ a ∈ as, ∀ s, I s → G s a) {s : σ} (hI : I s) : Along step G s as := by
  induction as generalizing s with
  | nil => trivial
  | cons a as ih =>
      exact ⟨h a List.mem_cons_self s hI, fun s' hs' =>
        ih (fun b hb => h b (List.mem_cons_of_mem a hb)) (hstep s a s' hI hs')⟩

/-- A condition that every action of the list meets in every state guards
its run. -/
theorem along_of_forall {as : List ι} (h : ∀ a ∈ as, ∀ s, G s a) (s : σ) : Along step G s as :=
  along_of_invariant (I := fun _ => True) (fun _ _ _ _ _ => trivial) (fun a ha s _ => h a ha s)
    trivial

/-- A condition that follows from another, action by action, guards the
runs that the other guards. -/
theorem Along.imp {H : σ → ι → Prop} (h : ∀ s a, G s a → H s a) {s : σ} {as : List ι}
    (hG : Along step G s as) : Along step H s as := by
  induction as generalizing s with
  | nil => trivial
  | cons a as ih => exact ⟨h s a hG.1, fun s' hs' => ih (hG.2 s' hs')⟩

/-- Two conditions guard a run together. -/
theorem Along.and {H : σ → ι → Prop} {s : σ} {as : List ι} (hG : Along step G s as)
    (hH : Along step H s as) : Along step (fun s a => G s a ∧ H s a) s as := by
  induction as generalizing s with
  | nil => trivial
  | cons a as ih =>
      exact ⟨⟨hG.1, hH.1⟩, fun s' hs' => ih (hG.2 s' hs') (hH.2 s' hs')⟩

/-- **Conditions that agree where an invariant of the steps holds** guard
the same runs from there. -/
theorem along_congr {H : σ → ι → Prop} (hstep : ∀ s a s', I s → step s a = some s' → I s')
    (h : ∀ s a, I s → (G s a ↔ H s a)) {s : σ} (hI : I s) (as : List ι) :
    Along step G s as ↔ Along step H s as := by
  induction as generalizing s with
  | nil => exact Iff.rfl
  | cons a as ih =>
      refine and_congr (h s a hI) (forall_congr' fun s' => ?_)
      exact imp_congr_right fun hs' => ih (hstep s a s' hI hs')

/-- And what every step keeps, every run keeps. -/
theorem perform_invariant_of_step (hstep : ∀ s a s', I s → step s a = some s' → I s')
    {as : List ι} {s s' : σ} (hI : I s) (h : perform step s as = some s') : I s' :=
  perform_invariant (G := fun _ _ => True) (fun s a s' hs _ => hstep s a s' hs) hI
    (along_true s as) h

/-- **A relation that every guarded computation keeps**, whether it returns
or throws, is kept by all of them run in order. -/
theorem Along.rel_forEach {σ ε : Type u} {R : σ → σ → Prop} [Std.Refl R] [IsTrans σ R]
    {x : ι → Eff σ ε PUnit} {G : σ → ι → Prop} (h : ∀ s a, G s a → R s ((x a).run s).2)
    {as : List ι} {s : σ} (hG : Along (Eff.next x) G s as) :
    R s ((Eff.forEach x as).run s).2 := by
  induction as generalizing s with
  | nil => exact Std.Refl.refl s
  | cons a as ih =>
      have hfirst := h s a hG.1
      rw [Eff.forEach, Eff.run_bind]
      rcases hrun : (x a).run s with ⟨e | _, s'⟩
      · rwa [hrun] at hfirst
      · rw [hrun] at hfirst
        exact IsTrans.trans _ _ _ hfirst (ih (hG.2 s' (Eff.next_eq_some.2 hrun)))

end Zooffice
