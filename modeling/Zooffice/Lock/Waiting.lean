import Mathlib.Algebra.Ring.Int.Defs
import Mathlib.Data.Nat.Cast.Basic
import Zooffice.Lock.Failures
import Zooffice.Lock.Model.Waiting
/-!
# How long an update waits, and what it leaves

The loop of `waitForLock` reads the clock at the head of each round and
sleeps at its end, so it has as many rounds as the recheck time fits into
the wait time. It ends with the lock, or with everything as it was; but an
attempt whose last rollback throws behind the commit ends it by an
exception, and with the lock. An update that comes to its change log ends
with `releaseLock`, and reports what the change log has thrown whether the
lock could be released or not.
-/


namespace Zooffice

namespace LockServiceEx

open LockState

variable {δ ι : Type} {times : LockTimes} {wait : WaitCalls} {format : Int → String}
  {s s' : LockState δ ι}

/-! ## The loop -/

/-- An `acquireLock` that returns true has the lock. -/
theorem hasChangeLogLock_of_run_acquireLock {calls : AcquireCalls}
    (hrun : (acquireLock calls).run s = (.ok true, s')) : s'.hasChangeLogLock = true := by
  rw [acquireLock, Eff.run_get_bind] at hrun
  split at hrun
  next hflag =>
    obtain rfl := (Prod.ext_iff.1 hrun).2
    exact hflag
  next =>
    obtain ⟨s₁, hblock, hlast⟩ := Eff.run_finallyRun_eq_ok.1 hrun
    obtain ⟨-, rfl⟩ := run_tryAcquire_eq_true.1 (Eff.run_mapError_eq_ok.1 hblock)
    have hkept := (keeps_finalRollback calls.finalRollback (s.acquired calls)).1
    rw [hlast] at hkept
    exact hkept

/-- A waiting that has thrown what the last rollback of its last attempt
throws, and has the lock. -/
def ThrowsWithLock (e : WaitFailure) (s : LockState δ ι) : Prop :=
  s.hasChangeLogLock = true ∧ ∃ e', e = .lock (.thrown e')

/-- What the loop leaves: the lock when it returns true; otherwise the
service, the map and the committed row as they were, or the lock behind an
exception of a last rollback. -/
theorem run_waitLoop {n k : Nat} {r : Except WaitFailure (Option Bool)}
    (hrun : (waitLoop times wait n k).run s = (r, s')) :
    (r = .ok (some true) → s'.hasChangeLogLock = true) ∧
      (r ≠ .ok (some true) → SameLock s s' ∨ ∃ e, r = .error e ∧ ThrowsWithLock e s') := by
  induction n generalizing k s with
  | zero =>
      obtain ⟨rfl, rfl⟩ := Prod.ext_iff.1 hrun
      exact ⟨nofun, fun _ => .inl (Std.Refl.refl s)⟩
  | succ n ih =>
      rw [waitLoop] at hrun
      split at hrun
      · rw [Eff.run_bind, Eff.run_mapError] at hrun
        rcases hacquire : (acquireLock (wait.rounds k).calls).run s with ⟨e | _ | _, s₁⟩
        · -- the attempt has thrown
          rw [hacquire] at hrun
          obtain ⟨rfl, rfl⟩ := Prod.ext_iff.1 hrun
          refine ⟨nofun, fun _ => (run_acquireLock_cases hacquire nofun).2.imp_right ?_⟩
          rintro ⟨-, -, hflag, e', he⟩
          exact ⟨_, rfl, hflag, e', congrArg WaitFailure.lock (Except.error.inj he)⟩
        · -- it has returned false, and nothing has changed
          rw [hacquire] at hrun
          have hsame : SameLock s s₁ := by
            obtain ⟨-, hsame | ⟨-, -, -, e, he⟩⟩ := run_acquireLock_cases hacquire nofun
            · exact hsame
            · cases he
          dsimp only at hrun
          rw [if_neg Bool.false_ne_true, Eff.run_ofExcept_bind] at hrun
          split at hrun
          · obtain ⟨hlocked, hkept⟩ := ih hrun
            exact ⟨hlocked, fun hne => (hkept hne).imp_left (IsTrans.trans _ _ _ hsame)⟩
          · obtain ⟨rfl, rfl⟩ := Prod.ext_iff.1 hrun
            exact ⟨nofun, fun _ => .inl hsame⟩
        · rw [hacquire] at hrun
          obtain ⟨rfl, rfl⟩ := Prod.ext_iff.1 hrun
          exact ⟨fun _ => hasChangeLogLock_of_run_acquireLock hacquire, fun h => absurd rfl h⟩
      · obtain ⟨rfl, rfl⟩ := Prod.ext_iff.1 hrun
        exact ⟨nofun, fun _ => .inl (Std.Refl.refl s)⟩

/-- A loop that goes on has read a time before the one to give up in each
of its rounds. -/
theorem lt_of_run_waitLoop {n k : Nat} (hrun : (waitLoop times wait n k).run s = (.ok none, s')) :
    ∀ j < n, (wait.rounds (k + j)).now < wait.start + times.changeLogLockWaitTime := by
  induction n generalizing k s with
  | zero => exact fun j hj => absurd hj (Nat.not_lt_zero j)
  | succ n ih =>
      rw [waitLoop] at hrun
      split at hrun
      next hnow =>
        rw [Eff.run_bind_eq_ok] at hrun
        obtain ⟨locked, s₁, -, hrun⟩ := hrun
        split at hrun
        · cases hrun
        · obtain ⟨_, -, hrun⟩ := Eff.run_ofExcept_bind_eq_ok.1 hrun
          rintro (_ | j) hj
          · exact hnow
          · have hlater := ih hrun j (by omega)
            rwa [show k + 1 + j = k + (j + 1) by omega] at hlater
      next => cases hrun

/-- The clock goes on by the recheck time at least in each round. -/
def Ticks (times : LockTimes) (wait : WaitCalls) : Prop :=
  wait.start ≤ (wait.rounds 0).now ∧
    ∀ k, (wait.rounds k).now + times.changeLogLocRecheckTime ≤ (wait.rounds (k + 1)).now

theorem le_now_of_ticks (h : Ticks times wait) (k : Nat) :
    wait.start + k * times.changeLogLocRecheckTime ≤ (wait.rounds k).now := by
  induction k with
  | zero => simpa using h.1
  | succ k ih =>
      have hnext := h.2 k
      rw [Nat.cast_add, Nat.cast_one, add_mul, one_mul]
      omega

/-- **The loop ends** when the recheck time has fitted into the wait
time. -/
theorem run_waitLoop_ne_none {n : Nat} (hticks : Ticks times wait)
    (hn : times.changeLogLockWaitTime ≤ n * times.changeLogLocRecheckTime) :
    (waitLoop times wait (n + 1) 0).run s ≠ (.ok none, s') := by
  intro hrun
  have hlt := lt_of_run_waitLoop hrun n (Nat.lt_succ_self n)
  have hle := le_now_of_ticks hticks n
  rw [Nat.zero_add] at hlt
  omega

/-! ## `waitForLock` -/

/-- What stands behind a loop without the lock throws in any case. -/
theorem giveUp_ne_ok (u : Unit) : giveUp format wait ≠ .ok u := by
  intro h
  obtain ⟨locks, -, h⟩ := except_bind_eq_ok.1 h
  obtain ⟨holder, -, h⟩ := except_bind_eq_ok.1 h
  cases h

/-- **What `waitForLock` leaves.** It returns with the lock; what it throws
leaves the service, the map and the committed row as they were, or comes
from a last rollback behind the commit. -/
theorem run_waitForLock {n : Nat} {r : Except WaitFailure (Option Unit)}
    (hrun : (waitForLock format times wait n).run s = (r, s')) :
    (r = .ok (some ()) → s'.hasChangeLogLock = true) ∧
      (∀ e, r = .error e → SameLock s s' ∨ ThrowsWithLock e s') ∧
      (r = .ok none → (waitLoop times wait n 0).run s = (.ok none, s')) := by
  rw [waitForLock, Eff.run_bind] at hrun
  rcases hloop : (waitLoop times wait n 0).run s with ⟨e | _ | _ | _, s₁⟩
  all_goals
    rw [hloop] at hrun
    obtain ⟨hlocked, hkept⟩ := run_waitLoop hloop
  · obtain ⟨rfl, rfl⟩ := Prod.ext_iff.1 hrun
    refine ⟨nofun, fun _ he => (hkept nofun).imp_right ?_, nofun⟩
    rintro ⟨e', he', hthrows⟩
    rwa [← Except.error.inj he, Except.error.inj he']
  · obtain ⟨rfl, rfl⟩ := Prod.ext_iff.1 hrun
    exact ⟨nofun, nofun, fun _ => rfl⟩
  · have hsame : SameLock s s₁ := (hkept nofun).resolve_right fun ⟨_, he, _⟩ => nomatch he
    dsimp only at hrun
    rw [Eff.run_ofExcept_bind] at hrun
    split at hrun
    · next heq => exact absurd heq (giveUp_ne_ok _)
    · obtain ⟨rfl, rfl⟩ := Prod.ext_iff.1 hrun
      exact ⟨nofun, fun _ _ => .inl hsame, nofun⟩
  · obtain ⟨rfl, rfl⟩ := Prod.ext_iff.1 hrun
    exact ⟨fun _ => hlocked rfl, nofun, nofun⟩

/-- **A `waitForLock` comes to an end** after as many attempts as the
recheck time fits into the wait time, whatever its calls do. -/
theorem waitForLock_ends (format : Int → String) (times : LockTimes) (wait : WaitCalls) (n : Nat)
    (hticks : Ticks times wait)
    (hn : times.changeLogLockWaitTime ≤ n * times.changeLogLocRecheckTime) (s : LockState δ ι) :
    (∃ s', (waitForLock format times wait (n + 1)).run s = (.ok (some ()), s') ∧
        s'.hasChangeLogLock = true) ∨
      ∃ e s', (waitForLock format times wait (n + 1)).run s = (.error e, s') ∧
        (SameLock s s' ∨ ThrowsWithLock e s') := by
  rcases hrun : (waitForLock format times wait (n + 1)).run s with ⟨e | _ | _, s'⟩
  · exact .inr ⟨e, s', rfl, (run_waitForLock hrun).2.1 e rfl⟩
  · exact absurd ((run_waitForLock hrun).2.2 rfl) (run_waitLoop_ne_none hticks hn)
  · exact .inl ⟨s', rfl, (run_waitForLock hrun).1 rfl⟩

/-! ## `LiquibaseEx.update` -/

variable [DecidableEq δ] {database : δ} {service : ι} {changeLog : ChangeLogCalls}
  {release : ReleaseCalls}

omit [DecidableEq δ] in
/-- The change log does not touch the flag. -/
theorem hasChangeLogLock_foldl_endTransaction (transactions : List TransactionEnd)
    (s : LockState δ ι) :
    (transactions.foldl endTransaction s).hasChangeLogLock = s.hasChangeLogLock := by
  induction transactions generalizing s with
  | nil => rfl
  | cons transaction transactions ih =>
      rw [List.foldl_cons, ih]
      cases transaction <;> rfl

/-- **The end of an update.** The lock is as it was or given back, and of
what the release throws only a `java.lang.Error` and an exception of the
last rollback come out. -/
theorem run_releaseQuietly (htable : release.hasDatabaseChangeLogLockTable ≠ .ok false)
    {r : Except UpdateFailure Unit} (hrun : (releaseQuietly database release).run s = (r, s')) :
    (SameLock s s' ∨ IsReleased database s') ∧
      (r = .ok () ∨ ∃ e, r = .error (.releaseLock (.thrown e))) := by
  rw [releaseQuietly, Eff.run_tryCatch, Eff.run_mapError] at hrun
  rcases hrelease : (releaseLock database release).run s with ⟨e, s₁⟩
  rw [hrelease] at hrun
  have hlock : SameLock s s₁ ∨ IsReleased database s₁ := by
    rcases run_releaseLock_cases htable hrelease with ⟨-, hsame⟩ | ⟨hafter, -⟩
    · exact .inl hsame
    · exact .inr (isReleased_of_released hafter)
  rcases e with (e | e) | _
  all_goals
    obtain ⟨rfl, rfl⟩ := Prod.ext_iff.1 hrun
    refine ⟨hlock, ?_⟩
  · exact .inl rfl
  · exact .inr ⟨e, rfl⟩
  · exact .inl rfl

/-- An update that has the lock: the change log, and the `finally`
block. -/
theorem run_finallyRun_releaseQuietly (htable : release.hasDatabaseChangeLogLockTable ≠ .ok false)
    (hflag : s.hasChangeLogLock = true) {r : Except UpdateFailure Unit}
    (hrun : (Eff.finallyRun (runChangeLog changeLog) (releaseQuietly database release)).run s =
      (r, s')) :
    (s'.hasChangeLogLock = true ∨ IsReleased database s') ∧
      (r = changeLog.result.mapError .changeLog ∨ ∃ e, r = .error (.releaseLock (.thrown e))) := by
  rw [Eff.run_finallyRun, runChangeLog, Eff.run_modify_bind, Eff.run_ofExcept] at hrun
  have hkept := hasChangeLogLock_foldl_endTransaction changeLog.transactions s
  rcases hrelease : (releaseQuietly database release).run
    (changeLog.transactions.foldl endTransaction s) with ⟨e | _, s₁⟩
  all_goals
    rw [hrelease] at hrun
    obtain ⟨hlock, hresult⟩ := run_releaseQuietly htable hrelease
    obtain ⟨rfl, rfl⟩ := Prod.ext_iff.1 hrun
    refine ⟨hlock.imp_left fun hsame => hsame.1.trans (hkept.trans hflag), ?_⟩
  · exact .inr (hresult.resolve_left nofun)
  · exact .inl rfl

/-- **An update comes to an end, and hides nothing.** When it throws out of
the waiting, its change log has not run, and the lock is as `getInstance`
left it unless a last rollback has thrown behind the commit. Else it has
released the lock everywhere or still has it, and it ends as its change log
did, unless the release has thrown an error of the virtual machine or an
exception of its last rollback. -/
theorem update_ends (format : Int → String) (times : LockTimes) (database : δ) (service : ι)
    (wait : WaitCalls) (changeLog : ChangeLogCalls) (release : ReleaseCalls) (n : Nat)
    (hticks : Ticks times wait)
    (hn : times.changeLogLockWaitTime ≤ n * times.changeLogLocRecheckTime)
    (htable : release.hasDatabaseChangeLogLockTable ≠ .ok false) (s : LockState δ ι) :
    ∃ r s', (update format times database service wait changeLog release (n + 1)).run s = (r, s') ∧
      ((∃ e, r = .error (.waitForLock e) ∧
          (SameLock (getInstance database service s) s' ∨ ThrowsWithLock e s')) ∨
        (s'.hasChangeLogLock = true ∨ IsReleased database s') ∧
          (r = (changeLog.result.mapError .changeLog).map some ∨
            ∃ e, r = .error (.releaseLock (.thrown e)))) := by
  rcases hrun : (LockServiceEx.update format times database service wait changeLog release
    (n + 1)).run s with ⟨r, s'⟩
  refine ⟨r, s', rfl, ?_⟩
  rw [LockServiceEx.update, Eff.run_modify_bind, Eff.run_bind, Eff.run_mapError] at hrun
  rcases waitForLock_ends format times wait n hticks hn (getInstance database service s) with
    ⟨s₁, hwait, hflag⟩ | ⟨e, s₁, hwait, hlock⟩
  · right
    rw [hwait] at hrun
    dsimp only at hrun
    rw [Eff.run_bind] at hrun
    rcases hend : (Eff.finallyRun (runChangeLog changeLog)
      (releaseQuietly database release)).run s₁ with ⟨r₂, s₂⟩
    rw [hend] at hrun
    obtain ⟨hlock, hresult⟩ := run_finallyRun_releaseQuietly htable hflag hend
    -- what the end of the update returns or throws, the update does
    obtain ⟨rfl, rfl⟩ : r = r₂.map some ∧ s' = s₂ := by
      rcases r₂ with e | _
      all_goals
        obtain ⟨rfl, rfl⟩ := Prod.ext_iff.1 hrun
        exact ⟨rfl, rfl⟩
    refine ⟨hlock, ?_⟩
    rcases hresult with rfl | ⟨e, rfl⟩
    · exact .inl rfl
    · exact .inr ⟨e, rfl⟩
  · rw [hwait] at hrun
    obtain ⟨rfl, rfl⟩ := Prod.ext_iff.1 hrun
    exact .inl ⟨e, rfl, hlock⟩

/-- A clock that goes on by the recheck time, with the lock taken by
another node in each of the thirty rounds of a new service. -/
def neverFree : WaitCalls where
  start := 0
  rounds k := ⟨k * 10000, { failingAcquire with queryForObject := .ok (.string "T") }⟩
  hasDatabaseChangeLogLockTable := .ok true
  queryForList := .ok [⟨.integer 1, .string "T", some 0, some "host"⟩]

theorem ticks_neverFree : Ticks .default neverFree := by
  refine ⟨Int.le_refl 0, fun k => ?_⟩
  change (k : Int) * 10000 + 10000 ≤ ((k + 1 : Nat) : Int) * 10000
  omega

/-- A change log that commits, rolls back and returns. -/
def returningChangeLog : ChangeLogCalls := ⟨[.commit, .rollback], .ok ()⟩

theorem update_ends_neverFree :
    ((update (fun _ => "1/1/70 12:00 AM") .default () () neverFree returningChangeLog
        returningRelease 31).run freeState).1 =
        .error (.waitForLock (.notAcquired ("Could not acquire change log lock.  " ++
          "Currently locked by host since 1/1/70 12:00 AM"))) ∧
      ∃ r s', (update (fun _ => "1/1/70 12:00 AM") .default () () neverFree returningChangeLog
          returningRelease 31).run freeState = (r, s') ∧
        ((∃ e, r = .error (.waitForLock e) ∧
            (SameLock (getInstance () () freeState) s' ∨ ThrowsWithLock e s')) ∨
          (s'.hasChangeLogLock = true ∨ IsReleased () s') ∧
            (r = (returningChangeLog.result.mapError .changeLog).map some ∨
              ∃ e, r = .error (.releaseLock (.thrown e)))) :=
  ⟨rfl, update_ends _ .default () () neverFree returningChangeLog returningRelease 30
    ticks_neverFree (by decide) nofun freeState⟩

end LockServiceEx

end Zooffice
