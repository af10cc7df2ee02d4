import Zooffice.Common.Effect
/-!
# Rules for computations that return or throw

A triple says what holds of the state when a computation ends, for every
state it may start in that meets a condition: one condition for what is
returned, and another for when it throws. There is one rule for each way to
make a computation of others.
-/


namespace Zooffice

universe u

namespace Eff

variable {σ ε : Type u} {α β : Type u} {P : σ → Prop} {Q : α → σ → Prop} {E : σ → Prop}
  {s s' : σ}

/-- **From a state with `P` the computation returns with `Q` or throws with
`E`.** -/
structure Triple (P : σ → Prop) (x : Eff σ ε α) (Q : α → σ → Prop) (E : σ → Prop) : Prop where
  returns : ∀ s a s', P s → x.run s = (.ok a, s') → Q a s'
  throws : ∀ s e s', P s → x.run s = (.error e, s') → E s'

/-- What holds of the state however the computation ends. -/
theorem Triple.ends {x : Eff σ ε α} {I : σ → Prop} (h : Triple P x Q E) (hs : P s)
    (hQ : ∀ a s', Q a s' → I s') (hE : ∀ s', E s' → I s') : I (x.run s).2 := by
  rcases hrun : x.run s with ⟨e | a, s'⟩
  · exact hE s' (h.throws s e s' hs hrun)
  · exact hQ a s' (h.returns s a s' hs hrun)

theorem Triple.imp {x : Eff σ ε α} {P' : σ → Prop} {Q' : α → σ → Prop} {E' : σ → Prop}
    (h : Triple P x Q E) (hP : ∀ s, P' s → P s) (hQ : ∀ a s, Q a s → Q' a s)
    (hE : ∀ s, E s → E' s) : Triple P' x Q' E' where
  returns s a s' hs hrun := hQ a s' (h.returns s a s' (hP s hs) hrun)
  throws s e s' hs hrun := hE s' (h.throws s e s' (hP s hs) hrun)

theorem triple_pure {a : α} (h : ∀ s, P s → Q a s) : Triple P (pure a : Eff σ ε α) Q E where
  returns s b s' hs hrun := by
    rw [run_pure, Prod.mk.injEq, Except.ok.injEq] at hrun
    obtain ⟨rfl, rfl⟩ := hrun
    exact h s hs
  throws s e s' _ hrun := by cases hrun

theorem triple_throw {e : ε} (h : ∀ s, P s → E s) : Triple P (throw e : Eff σ ε α) Q E where
  returns s a s' _ hrun := by cases hrun
  throws s e' s' hs hrun := by
    rw [run_throw, Prod.mk.injEq] at hrun
    exact hrun.2 ▸ h s hs

/-- A pure check changes nothing, whether it passes or throws. -/
theorem triple_ofExcept {r : Except ε α} (hQ : ∀ a s, P s → Q a s) (hE : ∀ s, P s → E s) :
    Triple P (ofExcept r : Eff σ ε α) Q E where
  returns s a s' hs hrun := by
    rw [run_ofExcept, Prod.mk.injEq] at hrun
    exact hrun.2 ▸ hQ a s hs
  throws s e s' hs hrun := by
    rw [run_ofExcept, Prod.mk.injEq] at hrun
    exact hrun.2 ▸ hE s hs

/-- **One after the other**: the second goes on from what the first has
returned. -/
theorem triple_bind {x : Eff σ ε α} {f : α → Eff σ ε β} {R : α → σ → Prop}
    {Q : β → σ → Prop} (hx : Triple P x R E) (hf : ∀ a, Triple (R a) (f a) Q E) :
    Triple P (x >>= f) Q E where
  returns s b s'' hs hrun := by
    obtain ⟨a, s', hfirst, hrest⟩ := run_bind_eq_ok.1 hrun
    exact (hf a).returns s' b s'' (hx.returns s a s' hs hfirst) hrest
  throws s e s'' hs hrun := by
    rcases run_bind_eq_error.1 hrun with hfirst | ⟨a, s', hfirst, hrest⟩
    · exact hx.throws s e s'' hs hfirst
    · exact (hf a).throws s' e s'' (hx.returns s a s' hs hfirst) hrest

/-- What is thrown may be rewrapped. -/
theorem triple_mapError {ε' : Type u} {f : ε → ε'} {x : Eff σ ε α} (hx : Triple P x Q E) :
    Triple P (mapError f x) Q E where
  returns s a s' hs hrun := hx.returns s a s' hs (run_mapError_eq_ok.1 hrun)
  throws s e s' hs hrun := by
    rw [run_mapError] at hrun
    rcases hthrew : x.run s with ⟨e' | a, s₁⟩
    · rw [hthrew] at hrun
      exact (Prod.mk.inj hrun).2 ▸ hx.throws s e' s₁ hs hthrew
    · rw [hthrew] at hrun
      cases hrun

/-- **A handler** goes on from what was thrown. -/
theorem triple_tryCatch {x : Eff σ ε α} {handle : ε → Eff σ ε α} {E' : σ → Prop}
    (hx : Triple P x Q E') (hhandle : ∀ e, Triple E' (handle e) Q E) :
    Triple P (tryCatch x handle) Q E where
  returns s a s'' hs hrun := by
    rcases run_tryCatch_eq_ok.1 hrun with hrun | ⟨e, s', hthrew, hrest⟩
    · exact hx.returns s a s'' hs hrun
    · exact (hhandle e).returns s' a s'' (hx.throws s e s' hs hthrew) hrest
  throws s e s'' hs hrun := by
    rw [run_tryCatch] at hrun
    rcases hthrew : x.run s with ⟨e' | a, s'⟩
    · rw [hthrew] at hrun
      exact (hhandle e').throws s' e s'' (hx.throws s e' s' hs hthrew) hrun
    · rw [hthrew] at hrun
      cases hrun

end Eff

end Zooffice
