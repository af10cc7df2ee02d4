import Zooffice.Lock.Model.Calls
import Zooffice.Lock.Model.Decoders
/-!
# Waiting for the lock, and one update

The loop of `waitForLock` over attempts whose database calls end as told,
and `LiquibaseEx.update` around it. The clock is what the loop reads at
its head; `n` bounds how often that is, and a loop that has read it `n`
times and goes on is `none`.
-/


namespace Zooffice

/-- One round of the loop: the time at its head, and how the calls of its
`acquireLock` end. -/
structure Round where
  now : Int
  calls : AcquireCalls

/-- What a `waitForLock` meets: the time it starts at, its rounds, and the
calls of the `listLocks` behind them. -/
structure WaitCalls where
  start : Int
  rounds : Nat → Round
  hasDatabaseChangeLogLockTable : Except Throwable Bool
  queryForList : Except Throwable (List LockRow)

/-- How a transaction of the change log ends on the connection. -/
inductive TransactionEnd where
  | commit
  | rollback
  deriving DecidableEq, Repr

/-- What the change log does to the connection, and how it ends. -/
structure ChangeLogCalls where
  transactions : List TransactionEnd
  result : Except Throwable Unit

/-- The two times of a service, in milliseconds. -/
structure LockTimes where
  changeLogLockWaitTime : Int
  changeLogLocRecheckTime : Int

/-- The times of a new service. -/
def LockTimes.default : LockTimes := ⟨1000 * 60 * 5, 1000 * 10⟩

/-- What leaves `waitForLock`. -/
inductive WaitFailure where
  /-- an `acquireLock` or a call of `listLocks` has thrown -/
  | lock (failure : LockFailure)
  /-- the lock could not be acquired -/
  | notAcquired (message : String)
  /-- what the message needs has thrown, or the sleep -/
  | thrown (e : Throwable)
  deriving DecidableEq, Repr

/-- What leaves `LiquibaseEx.update`. -/
inductive UpdateFailure where
  | waitForLock (failure : WaitFailure)
  | changeLog (e : Throwable)
  | releaseLock (failure : LockFailure)
  deriving DecidableEq, Repr

/-- The row when a transaction has ended: what the connection had written of
it is committed or taken back. -/
def LockState.endTransaction {δ ι : Type} (s : LockState δ ι) : TransactionEnd → LockState δ ι
  | .commit => s.commit
  | .rollback => s.rollback

namespace LockServiceEx

variable {δ ι : Type}

/-- `Thread.sleep`; an interrupt only ends it. -/
def sleep (millis : Int) : Except Throwable Unit :=
  if millis < 0 then .error ⟨.illegalArgument, some "timeout value is negative"⟩ else .ok ()

/-- The loop of `waitForLock` from its round `k` on: whether it has the
lock when it ends. -/
def waitLoop (times : LockTimes) (wait : WaitCalls) :
    Nat → Nat → Eff (LockState δ ι) WaitFailure (Option Bool)
  | 0, _ => pure none
  | n + 1, k =>
      if (wait.rounds k).now < wait.start + times.changeLogLockWaitTime then do
        let locked ← Eff.mapError .lock (acquireLock (wait.rounds k).calls)
        if locked then return some true
        else
          Eff.ofExcept ((sleep times.changeLogLocRecheckTime).mapError .thrown)
          waitLoop times wait n (k + 1)
      else return some false

/-- `lock.getLockedBy() + " since " + format(lock.getLockGranted())`;
`format` is `DateFormat.format` of a date that is not null. -/
def lockedBy (format : Int → String) : List DatabaseChangeLogLock → Except WaitFailure String
  | [] => .ok "UNKNOWN"
  | lock :: _ =>
      match lock.lockGranted with
      | some granted => .ok (lock.lockedBy.getD "null" ++ " since " ++ format granted)
      | none => .error (.thrown ⟨.nullPointer, none⟩)

/-- The calls of `listLocks`; what one throws is wrapped. -/
def listLocksCalls (wait : WaitCalls) : Except WaitFailure (List DatabaseChangeLogLock) := do
  let hasTable ← wait.hasDatabaseChangeLogLockTable.mapError (.lock ∘ rethrown)
  if hasTable then
    let rows ← wait.queryForList.mapError (.lock ∘ rethrown)
    (listLocks hasTable rows).mapError .thrown
  else return []

/-- The exception of a `waitForLock` that gives up. -/
def giveUp (format : Int → String) (wait : WaitCalls) : Except WaitFailure Unit := do
  let locks ← listLocksCalls wait
  let holder ← lockedBy format locks
  throw (.notAcquired ("Could not acquire change log lock.  Currently locked by " ++ holder))

/-- `waitForLock`. -/
def waitForLock (format : Int → String) (times : LockTimes) (wait : WaitCalls) (n : Nat) :
    Eff (LockState δ ι) WaitFailure (Option Unit) := do
  match ← waitLoop times wait n 0 with
  | none => return none
  | some true => return some ()
  | some false =>
      Eff.ofExcept (giveUp format wait)
      return some ()

/-- The change log, between the lock and its release. -/
def runChangeLog (changeLog : ChangeLogCalls) : Eff (LockState δ ι) UpdateFailure Unit := do
  Eff.modify fun s => changeLog.transactions.foldl LockState.endTransaction s
  Eff.ofExcept (changeLog.result.mapError .changeLog)

variable [DecidableEq δ]

/-- `getInstance`: the service of the database, or a new one. -/
def getInstance (database : δ) (service : ι) (s : LockState δ ι) : LockState δ ι :=
  if (s.instances database).isSome then s
  else
    { s with
      hasChangeLogLock := false
      instances := Function.update s.instances database (some service) }

/-- The `finally` block of `update`, which logs a `LockException`. -/
def releaseQuietly (database : δ) (release : ReleaseCalls) :
    Eff (LockState δ ι) UpdateFailure Unit :=
  Eff.tryCatch (Eff.mapError .releaseLock (releaseLock database release)) fun e =>
    match e with
    | .releaseLock (.lockException _) => pure ()
    | e => Eff.throw e

/-- `LiquibaseEx.update`. -/
def update (format : Int → String) (times : LockTimes) (database : δ) (service : ι)
    (wait : WaitCalls) (changeLog : ChangeLogCalls) (release : ReleaseCalls) (n : Nat) :
    Eff (LockState δ ι) UpdateFailure (Option Unit) := do
  Eff.modify (getInstance database service)
  match ← Eff.mapError .waitForLock (waitForLock format times wait n) with
  | none => return none
  | some () =>
      Eff.finallyRun (runChangeLog changeLog) (releaseQuietly database release)
      return some ()

end LockServiceEx

end Zooffice
