import Mathlib.Data.List.Forall2
import Mathlib.Order.Defs.Unbundled
/-!
# Stateful computations that may throw

An `Eff σ ε α` runs on a state, and returns a value or throws; the state
it has reached is there either way. That is what a service method does:
an exception ends it, and what it wrote before stays written unless a
transaction takes it back (`transactional`).

Two kinds of rule are stated. `run_bind_eq_ok` takes a computation that
returned apart, step by step. `Keeps` follows a reflexive and transitive
relation between the state before and the state after through the
combinators, whether the computation returns or throws.
-/


namespace Zooffice

universe u

/-- A pure sequence returned exactly when both of its halves did. -/
theorem except_bind_eq_ok {ε α β : Type*} {x : Except ε α} {f : α → Except ε β} {b : β} :
    x.bind f = .ok b ↔ ∃ a, x = .ok a ∧ f a = .ok b := by
  cases x with
  | error e => simp [Except.bind]
  | ok a => simp [Except.bind]

/-- It threw exactly when the first half did, or the second after it. -/
theorem except_bind_eq_error {ε α β : Type*} {x : Except ε α} {f : α → Except ε β} {e : ε} :
    x.bind f = .error e ↔ x = .error e ∨ ∃ a, x = .ok a ∧ f a = .error e := by
  cases x with
  | error e' => simp [Except.bind]
  | ok a => simp [Except.bind]

/-- **A list computed item by item** has for each item what it computes. -/
theorem mapM_eq_ok {ε α β : Type*} {f : α → Except ε β} {as : List α} {bs : List β} :
    as.mapM f = .ok bs ↔ List.Forall₂ (fun a b => f a = .ok b) as bs := by
  induction as generalizing bs with
  | nil =>
      rw [List.mapM_nil, List.forall₂_nil_left_iff]
      exact ⟨fun h => (Except.ok.inj h).symm, fun h => h ▸ rfl⟩
  | cons a as ih =>
      rw [List.mapM_cons, List.forall₂_cons_left_iff]
      refine except_bind_eq_ok.trans ⟨?_, ?_⟩
      · rintro ⟨b, hb, h⟩
        obtain ⟨bs', hbs, h⟩ := except_bind_eq_ok.1 h
        exact ⟨b, bs', hb, ih.1 hbs, (Except.ok.inj h).symm⟩
      · rintro ⟨b, bs', hb, hbs, rfl⟩
        exact ⟨b, hb, except_bind_eq_ok.2 ⟨bs', ih.2 hbs, rfl⟩⟩

/-- A computation over the state `σ` that returns an `α` or throws an `ε`. -/
def Eff (σ ε α : Type u) : Type u := σ → Except ε α × σ

namespace Eff

variable {σ ε α β : Type u}

/-- Run the computation from a state. -/
def run (x : Eff σ ε α) (s : σ) : Except ε α × σ := x s

instance : Monad (Eff σ ε) where
  pure a := fun s => (.ok a, s)
  bind x f := fun s =>
    match x s with
    | (.ok a, s') => f a s'
    | (.error e, s') => (.error e, s')

/-- Throw, leaving the state as it is. -/
def throw (e : ε) : Eff σ ε α := fun s => (.error e, s)

/-- Read the state. -/
def get : Eff σ ε σ := fun s => (.ok s, s)

/-- Change the state. -/
def modify (f : σ → σ) : Eff σ ε PUnit := fun s => (.ok ⟨⟩, f s)

/-- A pure result that may be an exception. -/
def ofExcept (r : Except ε α) : Eff σ ε α := fun s => (r, s)

/-- Run, and take back with `restore` what a run that throws has done. -/
def transactional (restore : σ → σ → σ) (x : Eff σ ε α) : Eff σ ε α := fun s =>
  match x s with
  | (.ok a, s') => (.ok a, s')
  | (.error e, s') => (.error e, restore s s')

/-- Run, and let `handle` go on from where a run that throws has got to. -/
def tryCatch (x : Eff σ ε α) (handle : ε → Eff σ ε α) : Eff σ ε α := fun s =>
  match x s with
  | (.ok a, s') => (.ok a, s')
  | (.error e, s') => handle e s'

/-- Run, and throw `f` of what a run that throws has thrown. -/
def mapError {ε' : Type u} (f : ε → ε') (x : Eff σ ε α) : Eff σ ε' α := fun s =>
  match x s with
  | (.ok a, s') => (.ok a, s')
  | (.error e, s') => (.error (f e), s')

/-- Run, and then `last`, whether the run has returned or thrown. What
`last` throws takes the place of that. -/
def finallyRun (x : Eff σ ε α) (last : Eff σ ε PUnit) : Eff σ ε α := fun s =>
  match last (x s).2 with
  | (.ok _, s') => ((x s).1, s')
  | (.error e, s') => (.error e, s')

/-! ## Running the combinators -/

@[simp] theorem run_pure (a : α) (s : σ) : (pure a : Eff σ ε α).run s = (.ok a, s) := rfl

@[simp] theorem run_throw (e : ε) (s : σ) : (throw e : Eff σ ε α).run s = (.error e, s) := rfl

@[simp] theorem run_get (s : σ) : (get : Eff σ ε σ).run s = (.ok s, s) := rfl

@[simp] theorem run_modify (f : σ → σ) (s : σ) :
    (modify f : Eff σ ε PUnit).run s = (.ok ⟨⟩, f s) := rfl

@[simp] theorem run_ofExcept (r : Except ε α) (s : σ) :
    (ofExcept r : Eff σ ε α).run s = (r, s) := rfl

theorem run_bind (x : Eff σ ε α) (f : α → Eff σ ε β) (s : σ) :
    (x >>= f).run s =
      match x.run s with
      | (.ok a, s') => (f a).run s'
      | (.error e, s') => (.error e, s') := rfl

/-- A step that returned is followed by the rest, from the state it left. -/
theorem run_bind_of_ok {x : Eff σ ε α} {f : α → Eff σ ε β} {s s' : σ} {a : α}
    (h : x.run s = (.ok a, s')) : (x >>= f).run s = (f a).run s' := by
  rw [run_bind, h]

/-- A step that threw ends the computation. -/
theorem run_bind_of_error {x : Eff σ ε α} {f : α → Eff σ ε β} {s s' : σ} {e : ε}
    (h : x.run s = (.error e, s')) : (x >>= f).run s = (.error e, s') := by
  rw [run_bind, h]

/-- **A sequence returned exactly when both of its halves did.** -/
theorem run_bind_eq_ok {x : Eff σ ε α} {f : α → Eff σ ε β} {s s'' : σ} {b : β} :
    (x >>= f).run s = (.ok b, s'') ↔
      ∃ a s', x.run s = (.ok a, s') ∧ (f a).run s' = (.ok b, s'') := by
  rw [run_bind]
  rcases x.run s with ⟨e | a, s'⟩
  · simp
  · simp only [Prod.mk.injEq, Except.ok.injEq]
    constructor
    · exact fun h => ⟨a, s', ⟨rfl, rfl⟩, h⟩
    · rintro ⟨_, _, ⟨rfl, rfl⟩, h⟩
      exact h

/-- It threw exactly when the first half did, or the second after it. -/
theorem run_bind_eq_error {x : Eff σ ε α} {f : α → Eff σ ε β} {s s'' : σ} {e : ε} :
    (x >>= f).run s = (.error e, s'') ↔
      x.run s = (.error e, s'') ∨
        ∃ a s', x.run s = (.ok a, s') ∧ (f a).run s' = (.error e, s'') := by
  rw [run_bind]
  rcases x.run s with ⟨e' | a, s'⟩
  · simp
  · simp only [Prod.mk.injEq, reduceCtorEq, false_and, false_or, Except.ok.injEq]
    constructor
    · exact fun h => ⟨a, s', ⟨rfl, rfl⟩, h⟩
    · rintro ⟨_, _, ⟨rfl, rfl⟩, h⟩
      exact h

theorem run_ofExcept_bind (r : Except ε α) (f : α → Eff σ ε β) (s : σ) :
    (ofExcept r >>= f).run s =
      match r with
      | .ok a => (f a).run s
      | .error e => (.error e, s) := by
  rw [run_bind, run_ofExcept]
  rcases r with e | a <;> rfl

/-- A pure check at the head of a sequence that returned has passed. -/
theorem run_ofExcept_bind_eq_ok {r : Except ε α} {f : α → Eff σ ε β} {s s' : σ} {b : β} :
    (ofExcept r >>= f).run s = (.ok b, s') ↔ ∃ a, r = .ok a ∧ (f a).run s = (.ok b, s') := by
  rw [run_bind, run_ofExcept]
  rcases r with e | a <;> simp

theorem run_ofExcept_bind_eq_error {r : Except ε α} {f : α → Eff σ ε β} {s s' : σ} {e : ε} :
    (ofExcept r >>= f).run s = (.error e, s') ↔
      (r = .error e ∧ s' = s) ∨ ∃ a, r = .ok a ∧ (f a).run s = (.error e, s') := by
  rw [run_bind, run_ofExcept]
  rcases r with e' | a <;> simp [eq_comm]

@[simp] theorem run_get_bind (f : σ → Eff σ ε β) (s : σ) : (get >>= f).run s = (f s).run s := rfl

@[simp] theorem run_modify_bind (g : σ → σ) (f : PUnit → Eff σ ε β) (s : σ) :
    (modify g >>= f).run s = (f ⟨⟩).run (g s) := rfl

theorem run_transactional (restore : σ → σ → σ) (x : Eff σ ε α) (s : σ) :
    (transactional restore x).run s =
      match x.run s with
      | (.ok a, s') => (.ok a, s')
      | (.error e, s') => (.error e, restore s s') := rfl

/-- A transaction that returned is the computation that returned. -/
theorem run_transactional_eq_ok {restore : σ → σ → σ} {x : Eff σ ε α} {s s' : σ} {a : α} :
    (transactional restore x).run s = (.ok a, s') ↔ x.run s = (.ok a, s') := by
  rw [run_transactional]
  rcases x.run s with ⟨_ | b, s₁⟩ <;> simp

/-- And one that threw leaves the restored state. -/
theorem run_transactional_eq_error {restore : σ → σ → σ} {x : Eff σ ε α} {s s' : σ} {e : ε} :
    (transactional restore x).run s = (.error e, s') ↔
      ∃ s₁, x.run s = (.error e, s₁) ∧ s' = restore s s₁ := by
  rw [run_transactional]
  rcases x.run s with ⟨e' | b, s₁⟩
  · simp only [Prod.mk.injEq, Except.error.injEq]
    constructor
    · rintro ⟨rfl, rfl⟩
      exact ⟨s₁, ⟨rfl, rfl⟩, rfl⟩
    · rintro ⟨_, ⟨rfl, rfl⟩, rfl⟩
      exact ⟨rfl, rfl⟩
  · simp

theorem run_tryCatch (x : Eff σ ε α) (handle : ε → Eff σ ε α) (s : σ) :
    (tryCatch x handle).run s =
      match x.run s with
      | (.ok a, s') => (.ok a, s')
      | (.error e, s') => (handle e).run s' := rfl

/-- A computation under a handler returned when it returned itself, or
when the handler returned after it threw. -/
theorem run_tryCatch_eq_ok {x : Eff σ ε α} {handle : ε → Eff σ ε α} {s s' : σ} {a : α} :
    (tryCatch x handle).run s = (.ok a, s') ↔
      x.run s = (.ok a, s') ∨
        ∃ e s₁, x.run s = (.error e, s₁) ∧ (handle e).run s₁ = (.ok a, s') := by
  rw [run_tryCatch]
  rcases x.run s with ⟨e' | b, s₁⟩
  · simp only [Prod.mk.injEq, reduceCtorEq, false_and, false_or, Except.error.injEq]
    constructor
    · exact fun h => ⟨e', s₁, ⟨rfl, rfl⟩, h⟩
    · rintro ⟨_, _, ⟨rfl, rfl⟩, h⟩
      exact h
  · simp

/-- A handler that only throws leaves the state as it finds it. -/
theorem snd_run_tryCatch_throw (x : Eff σ ε α) (f : ε → ε) (s : σ) :
    ((tryCatch x fun e => throw (f e)).run s).2 = (x.run s).2 := by
  rw [run_tryCatch]
  rcases x.run s with ⟨e | a, s'⟩ <;> rfl

/-- A pure step at the end leaves the state as it finds it. -/
theorem snd_run_bind_pure (x : Eff σ ε α) (f : α → β) (s : σ) :
    ((x >>= fun a => pure (f a)).run s).2 = (x.run s).2 := by
  rw [run_bind]
  rcases x.run s with ⟨e | a, s'⟩ <;> rfl

theorem run_mapError {ε' : Type u} (f : ε → ε') (x : Eff σ ε α) (s : σ) :
    (mapError f x).run s =
      match x.run s with
      | (.ok a, s') => (.ok a, s')
      | (.error e, s') => (.error (f e), s') := rfl

theorem run_mapError_eq_ok {ε' : Type u} {f : ε → ε'} {x : Eff σ ε α} {s s' : σ} {a : α} :
    (mapError f x).run s = (.ok a, s') ↔ x.run s = (.ok a, s') := by
  rw [run_mapError]
  rcases x.run s with ⟨_ | b, s₁⟩ <;> simp

theorem run_finallyRun (x : Eff σ ε α) (last : Eff σ ε PUnit) (s : σ) :
    (finallyRun x last).run s =
      match last.run (x.run s).2 with
      | (.ok _, s') => ((x.run s).1, s')
      | (.error e, s') => (.error e, s') := rfl

/-- What comes last throws: nothing else matters. -/
theorem run_finallyRun_of_error {x : Eff σ ε α} {last : Eff σ ε PUnit} {s s' : σ} {e : ε}
    (h : last.run (x.run s).2 = (.error e, s')) : (finallyRun x last).run s = (.error e, s') := by
  rw [run_finallyRun, h]

theorem run_finallyRun_of_ok {x : Eff σ ε α} {last : Eff σ ε PUnit} {s s' : σ} {u : PUnit}
    (h : last.run (x.run s).2 = (.ok u, s')) :
    (finallyRun x last).run s = ((x.run s).1, s') := by
  rw [run_finallyRun, h]

/-- Both returned, when the whole did. -/
theorem run_finallyRun_eq_ok {x : Eff σ ε α} {last : Eff σ ε PUnit} {s s'' : σ} {a : α} :
    (finallyRun x last).run s = (.ok a, s'') ↔
      ∃ s', x.run s = (.ok a, s') ∧ last.run s' = (.ok ⟨⟩, s'') := by
  rw [run_finallyRun]
  constructor
  · intro h
    rcases hlast : last.run (x.run s).2 with ⟨_ | _, s₁⟩
    · rw [hlast] at h
      cases h
    · rw [hlast] at h
      obtain ⟨hres, rfl⟩ := Prod.ext_iff.1 h
      exact ⟨(x.run s).2, Prod.ext hres rfl, hlast⟩
  · rintro ⟨s', hrun, hlast⟩
    rw [hrun, hlast]

/-! ## One computation after the other -/

/-- Run the computations of the items in order. -/
def forEach {ι : Type*} (x : ι → Eff σ ε PUnit) : List ι → Eff σ ε PUnit
  | [] => pure ⟨⟩
  | a :: as => do
      x a
      forEach x as

/-- The state in which a computation that returned has left off. -/
def next {ι : Type*} (x : ι → Eff σ ε PUnit) (s : σ) (a : ι) : Option σ :=
  match (x a).run s with
  | (.ok _, s') => some s'
  | (.error _, _) => none

theorem next_eq_some {ι : Type*} {x : ι → Eff σ ε PUnit} {s s' : σ} {a : ι} :
    next x s a = some s' ↔ (x a).run s = (.ok ⟨⟩, s') := by
  unfold next
  rcases (x a).run s with ⟨_ | _, s₁⟩ <;> simp

theorem forEach_append {ι : Type*} (x : ι → Eff σ ε PUnit) (as bs : List ι) (s : σ) :
    (forEach x (as ++ bs)).run s = (forEach x as >>= fun _ => forEach x bs).run s := by
  induction as generalizing s with
  | nil => rfl
  | cons a as ih =>
      rw [List.cons_append, forEach, forEach, run_bind, run_bind, run_bind]
      rcases (x a).run s with ⟨e | _, s'⟩
      · rfl
      · exact ih s'

/-! ## What every run keeps -/

/-- Whether it returns or throws, the computation relates the state it
starts from to the state it ends in. -/
def Keeps (R : σ → σ → Prop) (x : Eff σ ε α) : Prop := ∀ s, R s (x.run s).2

variable {R : σ → σ → Prop}

theorem keeps_pure [Std.Refl R] (a : α) : Keeps R (pure a : Eff σ ε α) :=
  fun s => Std.Refl.refl s

theorem keeps_throw [Std.Refl R] (e : ε) : Keeps R (throw e : Eff σ ε α) :=
  fun s => Std.Refl.refl s

theorem keeps_ofExcept [Std.Refl R] (r : Except ε α) : Keeps R (ofExcept r : Eff σ ε α) :=
  fun s => Std.Refl.refl s

theorem keeps_get [Std.Refl R] : Keeps R (get : Eff σ ε σ) :=
  fun s => Std.Refl.refl s

theorem keeps_bind [IsTrans σ R] {x : Eff σ ε α} {f : α → Eff σ ε β}
    (hx : Keeps R x) (hf : ∀ a, Keeps R (f a)) : Keeps R (x >>= f) := by
  intro s
  have h := hx s
  rw [run_bind]
  rcases hr : x.run s with ⟨_ | a, s'⟩
  · rwa [hr] at h
  · rw [hr] at h
    exact IsTrans.trans _ _ _ h (hf a s')

/-- A transaction keeps what its body keeps and the restoring does not
lose. -/
theorem keeps_transactional {restore : σ → σ → σ} {x : Eff σ ε α} (hx : Keeps R x)
    (hrestore : ∀ s s', R s s' → R s (restore s s')) : Keeps R (transactional restore x) := by
  intro s
  have h := hx s
  rw [run_transactional]
  rcases hr : x.run s with ⟨e | a, s'⟩
  · rw [hr] at h
    exact hrestore s s' h
  · rwa [hr] at h

theorem keeps_tryCatch [IsTrans σ R] {x : Eff σ ε α} {handle : ε → Eff σ ε α}
    (hx : Keeps R x) (hhandle : ∀ e, Keeps R (handle e)) : Keeps R (tryCatch x handle) := by
  intro s
  have h := hx s
  rw [run_tryCatch]
  rcases hr : x.run s with ⟨e | a, s'⟩
  · rw [hr] at h
    exact IsTrans.trans _ _ _ h (hhandle e s')
  · rwa [hr] at h

theorem keeps_mapError {ε' : Type u} {f : ε → ε'} {x : Eff σ ε α} (hx : Keeps R x) :
    Keeps R (mapError f x) := by
  intro s
  have h := hx s
  rw [run_mapError]
  rcases hr : x.run s with ⟨e | a, s'⟩
  · rwa [hr] at h
  · rwa [hr] at h

/-! ## What a run keeps unless it ends as it should -/

/-- **All or nothing**: a run relates the state before to the state
after, unless its result is one of `P`. -/
def KeepsUnless (P : Except ε α → Prop) (R : σ → σ → Prop) (x : Eff σ ε α) : Prop :=
  ∀ s, P (x.run s).1 ∨ R s (x.run s).2

theorem keepsUnless_of_keeps {P : Except ε α → Prop} {x : Eff σ ε α} (hx : Keeps R x) :
    KeepsUnless P R x := fun s => .inr (hx s)

/-- Steps that keep the relation stand in front of the one that may
break it. -/
theorem keepsUnless_bind [IsTrans σ R] {P : Except ε β → Prop} {x : Eff σ ε α}
    {f : α → Eff σ ε β} (hx : Keeps R x) (hf : ∀ a, KeepsUnless P R (f a)) :
    KeepsUnless P R (x >>= f) := by
  intro s
  have h := hx s
  rw [run_bind]
  rcases hr : x.run s with ⟨_ | a, s'⟩
  · rw [hr] at h
    exact .inr h
  · rw [hr] at h
    exact (hf a s').imp_right (IsTrans.trans _ _ _ h)

/-- What is thrown may be rewrapped. -/
theorem keepsUnless_mapError {ε' : Type u} {P : Except ε α → Prop} {P' : Except ε' α → Prop}
    {f : ε → ε'} {x : Eff σ ε α} (hx : KeepsUnless P R x) (hok : ∀ a, P (.ok a) → P' (.ok a))
    (herror : ∀ e, P (.error e) → P' (.error (f e))) : KeepsUnless P' R (mapError f x) := by
  intro s
  have h := hx s
  rw [run_mapError]
  rcases hr : x.run s with ⟨e | a, s'⟩
  · rw [hr] at h
    exact h.imp_left (herror e)
  · rw [hr] at h
    exact h.imp_left (hok a)

/-- And what comes last and keeps the relation goes behind: the result is
not one of `P` then, or it is what comes last that throws. -/
theorem keepsUnless_finallyRun [IsTrans σ R] {P : Except ε α → Prop} {x : Eff σ ε α}
    {last : Eff σ ε PUnit} (hx : KeepsUnless P R x) (hlast : Keeps R last) (s : σ) :
    P (x.run s).1 ∨ R s ((finallyRun x last).run s).2 := by
  refine (hx s).imp_right fun h => ?_
  have hkept := IsTrans.trans _ _ _ h (hlast (x.run s).2)
  rw [run_finallyRun]
  rcases hrun : last.run (x.run s).2 with ⟨_ | _, s'⟩
  · rwa [hrun] at hkept
  · rwa [hrun] at hkept

end Eff

end Zooffice
