import Mathlib.Logic.Function.Basic
import Zooffice.Common.Effect
import Zooffice.Lock.Model.LockTable
/-!
# Acquiring and releasing the lock over a database that may fail

`acquireLock` and `releaseLock` of one `LockServiceEx`, call by call. How
each database call ends is data (`AcquireCalls`, `ReleaseCalls`): it
returns a result or throws, whatever it likes, and a call that throws has
no effect. The connection has the row with ID 1 in two versions, the
committed one and the one its transaction has written.
-/


namespace Zooffice

open TrueOrFalseBooleanType

/-- The columns of the row with ID 1 that the lock statements set. -/
structure LockColumns where
  locked : Locked
  lockGranted : Option Int
  lockedBy : Option String
  deriving DecidableEq, Repr

/-- What leaves the two methods: an exception of the `try` block comes out
as the cause of a `LockException`; a `java.lang.Error`, and what the
`finally` block throws, as it is. -/
inductive LockFailure where
  | lockException (cause : Throwable)
  | thrown (e : Throwable)
  deriving DecidableEq, Repr

/-- `catch (Exception e) { throw new LockException(e); }`. -/
def rethrown (e : Throwable) : LockFailure :=
  if e.isException then .lockException e else .thrown e

/-- How the database calls of one `acquireLock` end. `host` and `now` are
what the lock statement writes beside the flag. -/
structure AcquireCalls where
  host : String
  now : Int
  rollback : Except Throwable Unit
  checkDatabaseChangeLogLockTable : Except Throwable Unit
  queryForObject : Except Throwable DriverObject
  update : Except Throwable Nat
  commit : Except Throwable Unit
  finalRollback : Except Throwable Unit

/-- How the database calls of one `releaseLock` end. `queryForInt` counts
the rows for the message of the exception, which also names the class of
the executor. -/
structure ReleaseCalls where
  executorClass : String
  hasDatabaseChangeLogLockTable : Except Throwable Bool
  rollback : Except Throwable Unit
  update : Except Throwable Nat
  queryForInt : Except Throwable Int
  commit : Except Throwable Unit
  finalRollback : Except Throwable Unit

/-- The state the two methods work on: the flag of the service, the static
map of the services by their database, and the lock row as the
connection has it. -/
structure LockState (δ ι : Type) where
  hasChangeLogLock : Bool
  instances : δ → Option ι
  committed : LockColumns
  uncommitted : Option LockColumns

namespace LockState

variable {δ ι : Type}

/-- `Database.rollback`. -/
def rollback (s : LockState δ ι) : LockState δ ι := { s with uncommitted := none }

/-- `Database.commit`. -/
def commit (s : LockState δ ι) : LockState δ ι :=
  { s with committed := s.uncommitted.getD s.committed, uncommitted := none }

/-- An update of the row that has reported `rows` updated rows. -/
def update (s : LockState δ ι) (rows : Nat) (columns : LockColumns) : LockState δ ι :=
  if rows = 0 then s else { s with uncommitted := some columns }

end LockState

namespace LockServiceEx

variable {δ ι : Type}

/-- A database call that ends as told; one that returns has its effect. -/
def call {α : Type} (outcome : Except Throwable α)
    (effect : α → LockState δ ι → LockState δ ι) : Eff (LockState δ ι) Throwable α := do
  let a ← Eff.ofExcept outcome
  Eff.modify (effect a)
  return a

/-- A database call that only reads. -/
def query {α : Type} (outcome : Except Throwable α) : Eff (LockState δ ι) Throwable α :=
  Eff.ofExcept outcome

/-- The rollback of the two `finally` blocks, which swallow a
`DatabaseException` of it. -/
def finalRollback (outcome : Except Throwable Unit) : Eff (LockState δ ι) LockFailure Unit :=
  match outcome with
  | .ok () => Eff.modify LockState.rollback
  | .error e => if e.cls = .database then pure () else Eff.throw (.thrown e)

/-- What `acquireLock` throws when it has locked more than one row. -/
def lockedTooMany : Throwable :=
  ⟨.other "LockException", some "Did not update change log lock correctly"⟩

/-- What `releaseLock` throws when it has not unlocked one row. -/
def unlockedOther (updatedRows : Nat) (executorClass : String) (rows : Int) : Throwable :=
  ⟨.other "LockException",
    some ("Did not update change log lock correctly.\n\n" ++ toString updatedRows
      ++ " rows were updated instead of the expected 1 row using executor " ++ executorClass
      ++ " there are " ++ toString rows ++ " rows in the table")⟩

/-- The `try` block of `acquireLock`. -/
def tryAcquire (calls : AcquireCalls) : Eff (LockState δ ι) Throwable Bool := do
  call calls.rollback fun _ => LockState.rollback
  query calls.checkDatabaseChangeLogLockTable
  let lockObject ← query calls.queryForObject
  let locked ← Eff.ofExcept (checkReturnValue lockObject)
  if locked then return false
  else
    let rowsUpdated ← call calls.update fun rows s =>
      s.update rows ⟨some trueBooleanValue, some calls.now, some calls.host⟩
    if rowsUpdated > 1 then Eff.throw lockedTooMany
    else if rowsUpdated = 0 then return false
    else
      call calls.commit fun _ => LockState.commit
      Eff.modify fun s => { s with hasChangeLogLock := true }
      return true

/-- `acquireLock`. -/
def acquireLock (calls : AcquireCalls) : Eff (LockState δ ι) LockFailure Bool := do
  let s ← Eff.get
  if s.hasChangeLogLock then return true
  else
    Eff.finallyRun (Eff.mapError rethrown (tryAcquire calls)) (finalRollback calls.finalRollback)

variable [DecidableEq δ]

/-- The `try` block of `releaseLock` of the service of `database`. -/
def tryRelease (database : δ) (calls : ReleaseCalls) : Eff (LockState δ ι) Throwable Unit := do
  let hasTable ← query calls.hasDatabaseChangeLogLockTable
  if hasTable then
    call calls.rollback fun _ => LockState.rollback
    let updatedRows ← call calls.update fun rows s =>
      s.update rows ⟨some falseBooleanValue, none, none⟩
    if updatedRows ≠ 1 then
      let rows ← query calls.queryForInt
      Eff.throw (unlockedOther updatedRows calls.executorClass rows)
    else
      call calls.commit fun _ => LockState.commit
      Eff.modify fun s =>
        { s with
          hasChangeLogLock := false
          instances := Function.update s.instances database none }
  else return ()

/-- `releaseLock` of the service of `database`. -/
def releaseLock (database : δ) (calls : ReleaseCalls) : Eff (LockState δ ι) LockFailure Unit :=
  Eff.finallyRun (Eff.mapError rethrown (tryRelease database calls))
    (finalRollback calls.finalRollback)

end LockServiceEx

end Zooffice
