import Zooffice.Lock.Model.Calls
/-!
# The lock service when database calls fail

The flag of the service, the map of the services and the committed lock
row move together. Everything in front of the commit only touches the open
transaction (`SameLock`), and behind it no call of the `try` block is left
that could fail. So an `acquireLock` that does not return true and a
`releaseLock` that throws have changed none of them, whatever subset of
the database calls fails and whatever the others return; but where the
rollback of the `finally` block throws what is not swallowed there, behind
calls that have all gone well, they throw and have changed them.
-/


namespace Zooffice

open TrueOrFalseBooleanType

namespace LockState

variable {δ ι : Type}

/-- The flag, the map and the committed row are as before. -/
def SameLock (s s' : LockState δ ι) : Prop :=
  s'.hasChangeLogLock = s.hasChangeLogLock ∧ s'.instances = s.instances ∧
    s'.committed = s.committed

instance : Std.Refl (SameLock (δ := δ) (ι := ι)) := ⟨fun _ => ⟨rfl, rfl, rfl⟩⟩

instance : IsTrans (LockState δ ι) SameLock :=
  ⟨fun _ _ _ ⟨hflag, hinst, hrow⟩ ⟨hflag', hinst', hrow'⟩ =>
    ⟨hflag'.trans hflag, hinst'.trans hinst, hrow'.trans hrow⟩⟩

theorem sameLock_rollback (s : LockState δ ι) : SameLock s s.rollback := ⟨rfl, rfl, rfl⟩

/-- An update stays in the open transaction. -/
theorem sameLock_update (s : LockState δ ι) (rows : Nat) (columns : LockColumns) :
    SameLock s (s.update rows columns) := by
  unfold update
  split
  · exact Std.Refl.refl s
  · exact ⟨rfl, rfl, rfl⟩

/-- What a `try` block of `acquireLock` leaves that has got the lock. -/
def acquired (calls : AcquireCalls) (s : LockState δ ι) : LockState δ ι :=
  ⟨true, s.instances, ⟨some trueBooleanValue, some calls.now, some calls.host⟩, none⟩

/-- What a `try` block of `releaseLock` leaves that has released it. -/
def released [DecidableEq δ] (database : δ) (s : LockState δ ι) : LockState δ ι :=
  ⟨false, Function.update s.instances database none, ⟨some falseBooleanValue, none, none⟩, none⟩

/-- The service is released: the flag, the map and the row. -/
def IsReleased (database : δ) (s : LockState δ ι) : Prop :=
  s.hasChangeLogLock = false ∧ s.instances database = none ∧
    s.committed = ⟨some falseBooleanValue, none, none⟩

/-- Releasing changes nothing exactly where all is released. -/
theorem sameLock_released_iff [DecidableEq δ] {database : δ} {s : LockState δ ι} :
    SameLock s (s.released database) ↔ IsReleased database s := by
  constructor
  · rintro ⟨hflag, hinst, hrow⟩
    have hnone : (s.released database).instances database = none := Function.update_self ..
    rw [hinst] at hnone
    exact ⟨hflag.symm, hnone, hrow.symm⟩
  · rintro ⟨hflag, hnone, hrow⟩
    exact ⟨hflag.symm, by rw [released, ← hnone, Function.update_eq_self], hrow.symm⟩

theorem isReleased_of_released [DecidableEq δ] {database : δ} {s s' : LockState δ ι}
    (h : SameLock (s.released database) s') : IsReleased database s' :=
  ⟨h.1, (congrFun h.2.1 database).trans (Function.update_self ..), h.2.2⟩

end LockState

/-- The last rollback throws what the `finally` block does not swallow. -/
def NotSwallowed (outcome : Except Throwable Unit) : Prop :=
  ∃ e, outcome = .error e ∧ e.cls ≠ .database

/-- The calls of the `try` block of `acquireLock` lock the row. -/
structure AcquireCalls.Locks (calls : AcquireCalls) : Prop where
  rollback : calls.rollback = .ok ()
  table : calls.checkDatabaseChangeLogLockTable = .ok ()
  unlocked : ∃ v, calls.queryForObject = .ok v ∧ checkReturnValue v = .ok false
  update : calls.update = .ok 1
  commit : calls.commit = .ok ()

/-- The calls of the `try` block of `releaseLock` unlock the row. -/
structure ReleaseCalls.Unlocks (calls : ReleaseCalls) : Prop where
  table : calls.hasDatabaseChangeLogLockTable = .ok true
  rollback : calls.rollback = .ok ()
  update : calls.update = .ok 1
  commit : calls.commit = .ok ()

namespace LockServiceEx

open LockState

variable {δ ι : Type}

theorem keeps_finalRollback (outcome : Except Throwable Unit) :
    Eff.Keeps SameLock (finalRollback outcome : Eff (LockState δ ι) LockFailure Unit) := by
  unfold finalRollback
  split
  · exact fun s => sameLock_rollback s
  · split
    · exact Eff.keeps_pure _
    · exact Eff.keeps_throw _

/-- The last rollback throws what is not swallowed, and nothing else. -/
theorem run_finalRollback_eq_error {outcome : Except Throwable Unit} {s s' : LockState δ ι}
    {e : LockFailure} (h : (finalRollback outcome).run s = (.error e, s')) :
    NotSwallowed outcome ∧ ∃ e', e = .thrown e' := by
  unfold finalRollback at h
  split at h
  · cases h
  · next e' =>
      split at h
      · cases h
      · next hcls => exact ⟨⟨e', rfl, hcls⟩, e', (Except.error.inj (Prod.ext_iff.1 h).1).symm⟩

theorem run_finalRollback_of_notSwallowed {outcome : Except Throwable Unit}
    (h : NotSwallowed outcome) :
    ∃ e, ∀ s : LockState δ ι, (finalRollback outcome).run s = (.error (.thrown e), s) := by
  obtain ⟨e, rfl, hcls⟩ := h
  refine ⟨e, fun s => ?_⟩
  rw [finalRollback, if_neg hcls]
  rfl

/-! ## The calls in front of the commit -/

theorem run_call_eq_ok {α : Type} {outcome : Except Throwable α}
    {effect : α → LockState δ ι → LockState δ ι} {s s' : LockState δ ι} {a : α} :
    (call outcome effect).run s = (.ok a, s') ↔ outcome = .ok a ∧ s' = effect a s := by
  rcases outcome with e | b
  · simp [call, Eff.run_bind]
  · simp only [call, Eff.run_bind, Eff.run_ofExcept, Eff.run_modify, Eff.run_pure,
      Prod.mk.injEq, Except.ok.injEq]
    constructor
    · rintro ⟨rfl, rfl⟩
      exact ⟨rfl, rfl⟩
    · rintro ⟨rfl, rfl⟩
      exact ⟨rfl, rfl⟩

/-- A call keeps what its effect keeps; one that throws has none. -/
theorem keeps_call {α : Type} {outcome : Except Throwable α}
    {effect : α → LockState δ ι → LockState δ ι} (h : ∀ a s, SameLock s (effect a s)) :
    Eff.Keeps SameLock (call outcome effect) := by
  intro s
  rcases outcome with e | a
  · exact Std.Refl.refl s
  · exact h a s

theorem keeps_query {α : Type} {outcome : Except Throwable α} :
    Eff.Keeps SameLock (query outcome : Eff (LockState δ ι) Throwable α) :=
  Eff.keeps_ofExcept outcome

/-- The commit is the last call of a `try` block that can fail: what
stands behind it returns. -/
theorem keepsUnless_commit {α : Type} {P : Except Throwable α → Prop}
    {outcome : Except Throwable Unit} {rest : Eff (LockState δ ι) Throwable α}
    (hrest : ∀ s, P (rest.run s).1) :
    Eff.KeepsUnless P SameLock (call outcome (fun _ => LockState.commit) >>= fun _ => rest) := by
  intro s
  rw [Eff.run_bind]
  rcases outcome with e | _
  · exact .inr (Std.Refl.refl s)
  · exact .inl (hrest _)

/-! ## `acquireLock` -/

/-- A `try` block that does not return true has committed nothing. -/
theorem keepsUnless_tryAcquire (calls : AcquireCalls) :
    Eff.KeepsUnless (· = .ok true) SameLock
      (tryAcquire calls : Eff (LockState δ ι) Throwable Bool) := by
  refine Eff.keepsUnless_bind (keeps_call fun _ => sameLock_rollback) fun _ => ?_
  refine Eff.keepsUnless_bind keeps_query fun _ => ?_
  refine Eff.keepsUnless_bind keeps_query fun lockObject => ?_
  refine Eff.keepsUnless_bind (Eff.keeps_ofExcept _) fun locked => ?_
  split
  · exact Eff.keepsUnless_of_keeps (Eff.keeps_pure _)
  · refine Eff.keepsUnless_bind (keeps_call fun rows s => sameLock_update s rows _)
      fun rowsUpdated => ?_
    split
    · exact Eff.keepsUnless_of_keeps (Eff.keeps_throw _)
    split
    · exact Eff.keepsUnless_of_keeps (Eff.keeps_pure _)
    · exact keepsUnless_commit fun _ => rfl

/-- **A `try` block returns true** exactly when its calls lock the row. -/
theorem run_tryAcquire_eq_true {calls : AcquireCalls} {s s' : LockState δ ι} :
    (tryAcquire calls).run s = (.ok true, s') ↔ calls.Locks ∧ s' = s.acquired calls := by
  constructor
  · intro h
    obtain ⟨_, s₁, hrollback, h⟩ := Eff.run_bind_eq_ok.1 h
    obtain ⟨hroll, rfl⟩ := run_call_eq_ok.1 hrollback
    obtain ⟨_, htable, h⟩ := Eff.run_ofExcept_bind_eq_ok.1 h
    obtain ⟨lockObject, hselect, h⟩ := Eff.run_ofExcept_bind_eq_ok.1 h
    obtain ⟨locked, hjudged, h⟩ := Eff.run_ofExcept_bind_eq_ok.1 h
    split at h
    · cases h
    next hlocked =>
      obtain rfl : locked = false := Bool.eq_false_iff.2 hlocked
      obtain ⟨rows, s₂, hupdate, h⟩ := Eff.run_bind_eq_ok.1 h
      obtain ⟨hrows, rfl⟩ := run_call_eq_ok.1 hupdate
      split at h
      · cases h
      next hmany =>
        split at h
        · cases h
        next hnone =>
          obtain ⟨_, s₃, hcommit, h⟩ := Eff.run_bind_eq_ok.1 h
          obtain ⟨hcom, rfl⟩ := run_call_eq_ok.1 hcommit
          obtain rfl := (Prod.ext_iff.1 h).2
          -- the one row updated is the row with ID 1
          obtain rfl : rows = 1 := by omega
          exact ⟨⟨hroll, htable, ⟨lockObject, hselect, hjudged⟩, hrows, hcom⟩, rfl⟩
  · rintro ⟨⟨hroll, htable, ⟨v, hselect, hjudged⟩, hrows, hcom⟩, rfl⟩
    simp [tryAcquire, call, query, Eff.run_bind, hroll, htable, hselect, hjudged, hrows, hcom]
    rfl

/-- **An `acquireLock` that does not return true** was called without the
lock. It leaves the flag, the map and the committed row as they were, or
has got the lock and throws what the last rollback throws. -/
theorem run_acquireLock_cases {calls : AcquireCalls} {s s' : LockState δ ι}
    {result : Except LockFailure Bool} (hrun : (acquireLock calls).run s = (result, s'))
    (hresult : result ≠ .ok true) :
    s.hasChangeLogLock = false ∧
      (SameLock s s' ∨ calls.Locks ∧ NotSwallowed calls.finalRollback ∧
        s'.hasChangeLogLock = true ∧ ∃ e, result = .error (.thrown e)) := by
  rw [acquireLock, Eff.run_get_bind] at hrun
  split at hrun
  · exact absurd (Prod.ext_iff.1 hrun).1.symm hresult
  next hflag =>
    refine ⟨Bool.eq_false_iff.2 hflag, ?_⟩
    have hblock : Eff.KeepsUnless (· = .ok true) SameLock
        (Eff.mapError rethrown (tryAcquire calls) : Eff (LockState δ ι) LockFailure Bool) :=
      Eff.keepsUnless_mapError (keepsUnless_tryAcquire calls)
        (fun _ h => by rw [Except.ok.inj h]) (fun _ h => nomatch h)
    have h := Eff.keepsUnless_finallyRun hblock (keeps_finalRollback calls.finalRollback) s
    rw [hrun] at h
    refine h.symm.imp_right fun hlocked => ?_
    -- the block has returned true, so it is the last rollback that throws
    rcases hlast : (finalRollback calls.finalRollback).run
      ((Eff.mapError rethrown (tryAcquire calls)).run s).2 with ⟨e | _, s₁⟩
    · rw [Eff.run_finallyRun_of_error hlast, Prod.mk.injEq] at hrun
      obtain ⟨hnot, e', rfl⟩ := run_finalRollback_eq_error hlast
      obtain ⟨hlocks, hafter⟩ :=
        run_tryAcquire_eq_true.1 (Eff.run_mapError_eq_ok.1 (Prod.ext hlocked rfl))
      have hkept := (keeps_finalRollback calls.finalRollback
        ((Eff.mapError rethrown (tryAcquire calls)).run s).2).1
      rw [hlast, hrun.2] at hkept
      exact ⟨hlocks, hnot, hkept.trans (congrArg hasChangeLogLock hafter), e', hrun.1.symm⟩
    · rw [Eff.run_finallyRun_of_ok hlast, hlocked, Prod.mk.injEq] at hrun
      exact absurd hrun.1.symm hresult

/-! ## `releaseLock` -/

variable [DecidableEq δ]

/-- A `try` block that throws has committed nothing. -/
theorem keepsUnless_tryRelease (database : δ) (calls : ReleaseCalls) :
    Eff.KeepsUnless (· = .ok ()) SameLock
      (tryRelease database calls : Eff (LockState δ ι) Throwable Unit) := by
  refine Eff.keepsUnless_bind keeps_query fun hasTable => ?_
  split
  · refine Eff.keepsUnless_bind (keeps_call fun _ => sameLock_rollback) fun _ => ?_
    refine Eff.keepsUnless_bind (keeps_call fun rows s => sameLock_update s rows _)
      fun updatedRows => ?_
    split
    · exact Eff.keepsUnless_of_keeps
        (Eff.keeps_bind keeps_query fun _ => Eff.keeps_throw _)
    · exact keepsUnless_commit fun _ => rfl
  · exact Eff.keepsUnless_of_keeps (Eff.keeps_pure _)

/-- **A `try` block returns**, where there is a lock table, exactly when
its calls unlock the row. -/
theorem run_tryRelease_eq_ok {database : δ} {calls : ReleaseCalls} {s s' : LockState δ ι}
    (htable : calls.hasDatabaseChangeLogLockTable ≠ .ok false) :
    (tryRelease database calls).run s = (.ok (), s') ↔
      calls.Unlocks ∧ s' = s.released database := by
  constructor
  · intro h
    obtain ⟨hasTable, htrue, h⟩ := Eff.run_ofExcept_bind_eq_ok.1 h
    split at h
    next hyes =>
      obtain ⟨_, s₁, hrollback, h⟩ := Eff.run_bind_eq_ok.1 h
      obtain ⟨hroll, rfl⟩ := run_call_eq_ok.1 hrollback
      obtain ⟨updatedRows, s₂, hupdate, h⟩ := Eff.run_bind_eq_ok.1 h
      obtain ⟨hrows, rfl⟩ := run_call_eq_ok.1 hupdate
      split at h
      · obtain ⟨_, -, hthrow⟩ := Eff.run_ofExcept_bind_eq_ok.1 h
        cases hthrow
      next hone =>
        obtain ⟨_, s₃, hcommit, h⟩ := Eff.run_bind_eq_ok.1 h
        obtain ⟨hcom, rfl⟩ := run_call_eq_ok.1 hcommit
        obtain rfl := (Prod.ext_iff.1 h).2
        obtain rfl : updatedRows = 1 := by omega
        exact ⟨⟨hyes ▸ htrue, hroll, hrows, hcom⟩, rfl⟩
    next hno =>
      have hfalse : hasTable = false := Bool.eq_false_iff.2 hno
      exact absurd (hfalse ▸ htrue) htable
  · rintro ⟨⟨htrue, hroll, hrows, hcom⟩, rfl⟩
    simp [tryRelease, call, query, Eff.run_bind, htrue, hroll, hrows, hcom]
    rfl

/-- **What a `releaseLock` leaves**, where there is a lock table. One that
returns has released the service. One that throws leaves the flag, the map
and the committed row as they were, or has released the service and throws
what the last rollback throws. -/
theorem run_releaseLock_cases {database : δ} {calls : ReleaseCalls} {s s' : LockState δ ι}
    {result : Except LockFailure Unit}
    (htable : calls.hasDatabaseChangeLogLockTable ≠ .ok false)
    (hrun : (releaseLock database calls).run s = (result, s')) :
    (result ≠ .ok () ∧ SameLock s s') ∨
      (SameLock (s.released database) s' ∧ (result = .ok () ∨ calls.Unlocks ∧
        NotSwallowed calls.finalRollback ∧ ∃ e, result = .error (.thrown e))) := by
  rw [releaseLock, Eff.run_finallyRun, Eff.run_mapError] at hrun
  rcases hblock : (tryRelease database calls).run s with ⟨e | _, s₁⟩
  · -- the block has thrown, and the whole throws
    left
    have hsame := (keepsUnless_tryRelease database calls s).resolve_left
      (by rw [hblock]; exact nofun)
    have hkept := keeps_finalRollback calls.finalRollback s₁
    rw [hblock] at hrun hsame
    dsimp only at hrun hsame
    rcases hlast : (finalRollback calls.finalRollback).run s₁ with ⟨e | _, s₂⟩
    all_goals
      rw [hlast] at hrun hkept
      obtain ⟨rfl, rfl⟩ := Prod.ext_iff.1 hrun
      exact ⟨nofun, IsTrans.trans _ _ _ hsame hkept⟩
  · right
    obtain ⟨hunlocks, rfl⟩ := (run_tryRelease_eq_ok htable).1 hblock
    have hkept := keeps_finalRollback calls.finalRollback (s.released database)
    rw [hblock] at hrun
    dsimp only at hrun
    rcases hlast : (finalRollback calls.finalRollback).run (s.released database) with ⟨e | _, s₂⟩
    all_goals
      rw [hlast] at hrun hkept
      obtain ⟨rfl, rfl⟩ := Prod.ext_iff.1 hrun
      refine ⟨hkept, ?_⟩
    · obtain ⟨hnot, e', rfl⟩ := run_finalRollback_eq_error hlast
      exact .inr ⟨hunlocks, hnot, e', rfl⟩
    · exact .inl rfl

/-! ## All or nothing -/

/-- What is asked of the two: an `acquireLock` that throws or returns false
has no effect on the lock, nor has a `releaseLock` that throws; and a
`releaseLock` that returns has released it everywhere. -/
def AllOrNothing (database : δ) (acquire : AcquireCalls) (release : ReleaseCalls)
    (s : LockState δ ι) : Prop :=
  (∀ result s', (acquireLock acquire).run s = (result, s') → result ≠ .ok true →
    s.hasChangeLogLock = false ∧ s'.hasChangeLogLock = false ∧ s'.committed = s.committed) ∧
  (∀ e s', (releaseLock database release).run s = (.error e, s') →
    s'.hasChangeLogLock = s.hasChangeLogLock ∧ s'.instances = s.instances ∧
      s'.committed = s.committed) ∧
  (∀ s', (releaseLock database release).run s = (.ok (), s') →
    s'.hasChangeLogLock = false ∧ s'.committed.locked = some falseBooleanValue ∧
      s'.instances database = none)

/-- What stands behind the commits goes well, or does not matter: the last
rollback throws nothing that is not swallowed behind calls that have
locked the row, unless the service had the lock before; nor behind calls
that have unlocked it, unless it was released before. -/
def EndsWithCommit (database : δ) (acquire : AcquireCalls) (release : ReleaseCalls)
    (s : LockState δ ι) : Prop :=
  (acquire.Locks → NotSwallowed acquire.finalRollback → s.hasChangeLogLock = true) ∧
    (release.Unlocks → NotSwallowed release.finalRollback → IsReleased database s)

omit [DecidableEq δ] in
/-- An `acquireLock` of which the last rollback throws behind the commit
throws with the lock. -/
theorem run_acquireLock_of_notSwallowed {calls : AcquireCalls} {s : LockState δ ι}
    (hflag : s.hasChangeLogLock = false) (hlocks : calls.Locks)
    (hnot : NotSwallowed calls.finalRollback) :
    ∃ e, (acquireLock calls).run s = (.error e, s.acquired calls) := by
  obtain ⟨e, hlast⟩ := run_finalRollback_of_notSwallowed (δ := δ) (ι := ι) hnot
  refine ⟨.thrown e, ?_⟩
  rw [acquireLock, Eff.run_get_bind, if_neg (by rw [hflag]; decide), Eff.run_finallyRun,
    Eff.run_mapError, run_tryAcquire_eq_true.2 ⟨hlocks, rfl⟩]
  simp only [hlast]

/-- A `releaseLock` of which the last rollback throws behind the commit
throws with the service released. -/
theorem run_releaseLock_of_notSwallowed {database : δ} {calls : ReleaseCalls}
    (hunlocks : calls.Unlocks) (hnot : NotSwallowed calls.finalRollback) (s : LockState δ ι) :
    ∃ e, (releaseLock database calls).run s = (.error e, s.released database) := by
  obtain ⟨e, hlast⟩ := run_finalRollback_of_notSwallowed (δ := δ) (ι := ι) hnot
  have htable : calls.hasDatabaseChangeLogLockTable ≠ .ok false := by
    rw [hunlocks.table]
    exact nofun
  refine ⟨.thrown e, ?_⟩
  rw [releaseLock, Eff.run_finallyRun, Eff.run_mapError,
    (run_tryRelease_eq_ok htable).2 ⟨hunlocks, rfl⟩]
  simp only [hlast]

/-- **All or nothing, both ways**, exactly when nothing is thrown behind
the commits that is not swallowed, or it does not matter. -/
theorem allOrNothing_iff (database : δ) (acquire : AcquireCalls) (release : ReleaseCalls)
    (htable : release.hasDatabaseChangeLogLockTable ≠ .ok false) (s : LockState δ ι) :
    AllOrNothing database acquire release s ↔ EndsWithCommit database acquire release s := by
  constructor
  · rintro ⟨hacquire, hrelease, -⟩
    refine ⟨fun hlocks hnot => ?_, fun hunlocks hnot => ?_⟩
    · by_contra hflag
      obtain ⟨e, hrun⟩ :=
        run_acquireLock_of_notSwallowed (Bool.eq_false_iff.2 hflag) hlocks hnot
      have hfalse := (hacquire _ _ hrun nofun).2.1
      cases hfalse
    · obtain ⟨e, hrun⟩ := run_releaseLock_of_notSwallowed hunlocks hnot s
      exact sameLock_released_iff.1 (hrelease e _ hrun)
  · rintro ⟨hlocks, hunlocks⟩
    refine ⟨fun result s' hrun hresult => ?_, fun e s' hrun => ?_, fun s' hrun => ?_⟩
    · obtain ⟨hfree, hsame | ⟨hl, hnot, -⟩⟩ := run_acquireLock_cases hrun hresult
      · exact ⟨hfree, hsame.1.trans hfree, hsame.2.2⟩
      · exact absurd (hfree.symm.trans (hlocks hl hnot)) Bool.false_ne_true
    · rcases run_releaseLock_cases htable hrun with ⟨-, hsame⟩ | ⟨hafter, hok | ⟨hu, hnot, -⟩⟩
      · exact hsame
      · cases hok
      · -- released before and after
        have hbefore := sameLock_released_iff.2 (hunlocks hu hnot)
        exact (IsTrans.trans _ _ _ hbefore hafter : SameLock s s')
    · rcases run_releaseLock_cases htable hrun with ⟨hne, -⟩ | ⟨hafter, -⟩
      · exact absurd rfl hne
      · obtain ⟨hflag, hnone, hrow⟩ := isReleased_of_released hafter
        exact ⟨hflag, by rw [hrow], hnone⟩

/-- A service that has not the lock, and calls that all return or of which
the commit or the last rollback fails. -/
def freeState : LockState Unit Unit :=
  ⟨false, fun _ => some (), ⟨some falseBooleanValue, none, none⟩, none⟩

def commitFails : Throwable := ⟨.database, none⟩

def returningAcquire : AcquireCalls :=
  ⟨"host", 0, .ok (), .ok (), .ok (.string falseBooleanValue), .ok 1, .ok (), .ok ()⟩

def failingAcquire : AcquireCalls :=
  { returningAcquire with commit := .error commitFails, finalRollback := .error commitFails }

def returningRelease : ReleaseCalls :=
  ⟨"Executor", .ok true, .ok (), .ok 1, .ok 1, .ok (), .ok ()⟩

/-- The commit of `acquireLock` fails, and its last rollback with an
exception that is not swallowed; `releaseLock` returns. -/
theorem allOrNothing_iff_failingAcquire :
    AllOrNothing () { failingAcquire with finalRollback := .error ⟨.nullPointer, none⟩ }
      returningRelease freeState :=
  (allOrNothing_iff () { failingAcquire with finalRollback := .error ⟨.nullPointer, none⟩ }
    returningRelease nofun freeState).2
    ⟨fun h => absurd h.commit nofun, fun _ ⟨_, h, _⟩ => absurd h nofun⟩

/-- An `acquireLock` whose last rollback throws an exception of the driver
behind the commit throws, and has the lock. -/
theorem not_allOrNothing_lastRollback :
    ¬ ∀ (acquire : AcquireCalls) (release : ReleaseCalls) (s : LockState Unit Unit),
      release.hasDatabaseChangeLogLockTable ≠ .ok false → AllOrNothing () acquire release s := by
  intro h
  have hacquire := (h { returningAcquire with finalRollback := .error ⟨.nullPointer, none⟩ }
    returningRelease freeState nofun).1 (.error (.thrown ⟨.nullPointer, none⟩)) _ rfl nofun
  exact absurd hacquire.2.1 (by decide)

end LockServiceEx

end Zooffice
