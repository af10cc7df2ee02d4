import Mathlib.Logic.Function.Basic
import Zooffice.Lock.Model.LockTable
/-!
# The nodes that update the schema

Each node runs `LiquibaseEx.update` again and again, over its own
connection and with its own `LockServiceEx`. `Pc` names the database call
a node is about to make, one value for each call of `waitForLock`,
`acquireLock` and `releaseLock`; a step is one call that returns or
throws. Of what the change log itself does to the database only that is a
step which reaches the row: it commits and rolls back on the connection
of its node.
-/


namespace Zooffice

open TrueOrFalseBooleanType

/-- How `acquireLock` ends, once its `finally` block is through. -/
inductive Acquired where
  | locked
  | notLocked
  | threw
  deriving DecidableEq, Repr

/-- Where a node is. -/
inductive Pc where
  /-- not in `update` -/
  | idle
  /-- `waitForLock`, at the head of its loop -/
  | waiting
  /-- `acquireLock`: `database.rollback()` -/
  | acquireRollback
  /-- `database.checkDatabaseChangeLogLockTable()` -/
  | acquireTable
  /-- the select of `LOCKED` -/
  | acquireSelect
  /-- the conditional update -/
  | acquireUpdate
  /-- `database.commit()` -/
  | acquireCommit
  /-- the rollback of the `finally` block -/
  | acquireFinally (result : Acquired)
  /-- `waitForLock` has returned, the change log runs -/
  | changeLog
  /-- `releaseLock`: `database.hasDatabaseChangeLogLockTable()` -/
  | releaseTable
  /-- `database.rollback()` -/
  | releaseRollback
  /-- the unlock statement -/
  | releaseUnlock
  /-- `database.commit()` -/
  | releaseCommit
  /-- the rollback of the `finally` block -/
  | releaseFinally (released : Bool)
  deriving DecidableEq, Repr

/-- A node: where it is, the flag of its `LockServiceEx`, and whether the
map of instances has that service for its connection. -/
structure Node where
  pc : Pc
  hasChangeLogLock : Bool
  registered : Bool
  stopped : Bool
  deriving DecidableEq, Repr

/-- A node that has not started. -/
def Node.fresh : Node := ⟨.idle, false, false, false⟩

/-- The shared row and the nodes. -/
structure Cluster (ι : Type) where
  table : LockTable ι
  node : ι → Node

/-- What happens at a node. -/
inductive NodeAction where
  /-- `LiquibaseEx.update` is called -/
  | update
  /-- the loop of `waitForLock` calls `acquireLock` -/
  | attempt
  /-- the time of `waitForLock` is up -/
  | giveUp
  /-- the change log commits what the connection has written -/
  | commits
  /-- the change log takes it back -/
  | rollsBack
  /-- the change log has run, or thrown -/
  | finish
  /-- the database call returns -/
  | returns
  /-- the select returns an object -/
  | selected (value : DriverObject)
  /-- the database call throws, a `DatabaseException` or something else -/
  | fails (isDatabaseException : Bool)
  /-- the node stops -/
  | stop
  /-- the database takes back the transaction of a node that has stopped -/
  | disconnect
  deriving DecidableEq, Repr

namespace Pc

/-- Where an `acquireLock` goes on that has ended. -/
def afterAcquire : Acquired → Pc
  | .locked => changeLog
  | .notLocked => waiting
  | .threw => idle

/-- Where `acquireLock` goes on when it has judged what it selected. -/
def afterSelect : Except Throwable Bool → Pc
  | .ok true => acquireFinally .notLocked
  | .ok false => acquireUpdate
  | .error _ => acquireFinally .threw

/-- Where a call goes on that has thrown: to the `finally` block of its
method. There a `DatabaseException` is swallowed, and anything else ends
the update. -/
def afterFailure (isDatabaseException : Bool) : Pc → Option Pc
  | acquireRollback | acquireTable | acquireSelect | acquireUpdate | acquireCommit =>
      some (acquireFinally .threw)
  | releaseTable | releaseRollback | releaseUnlock | releaseCommit =>
      some (releaseFinally false)
  | acquireFinally result => some (if isDatabaseException then afterAcquire result else idle)
  | releaseFinally _ => some idle
  | idle | waiting | changeLog => none

end Pc

namespace Cluster

variable {ι : Type} [DecidableEq ι]

/-- The cluster before any node has started. -/
def start (locked : Bool) : Cluster ι where
  table := ⟨some (if locked then trueBooleanValue else falseBooleanValue), none⟩
  node _ := Node.fresh

/-- The node `i` becomes `n`. -/
def setNode (S : Cluster ι) (i : ι) (n : Node) : Cluster ι :=
  { S with node := Function.update S.node i n }

/-- The database call the node `i` is about to make returns. -/
def returns (kind : DatabaseKind) (S : Cluster ι) (i : ι) : Option (Cluster ι) :=
  let n := S.node i
  match n.pc with
  | .acquireRollback =>
      some ({ S with table := S.table.rollback i }.setNode i { n with pc := .acquireTable })
  | .acquireTable => some (S.setNode i { n with pc := .acquireSelect })
  | .acquireUpdate =>
      -- no row is updated when the committed one does not match
      if whereMatches kind S.table.locked then
        (S.table.write i (some trueBooleanValue)).map fun table =>
          { S with table }.setNode i { n with pc := .acquireCommit }
      else some (S.setNode i { n with pc := .acquireFinally .notLocked })
  | .acquireCommit =>
      some ({ S with table := S.table.commit i }.setNode i
        { n with pc := .acquireFinally .locked, hasChangeLogLock := true })
  | .acquireFinally result =>
      some ({ S with table := S.table.rollback i }.setNode i
        { n with pc := .afterAcquire result })
  | .releaseTable => some (S.setNode i { n with pc := .releaseRollback })
  | .releaseRollback =>
      some ({ S with table := S.table.rollback i }.setNode i { n with pc := .releaseUnlock })
  | .releaseUnlock =>
      (S.table.write i (some falseBooleanValue)).map fun table =>
        { S with table }.setNode i { n with pc := .releaseCommit }
  | .releaseCommit =>
      some ({ S with table := S.table.commit i }.setNode i
        { n with pc := .releaseFinally true, hasChangeLogLock := false, registered := false })
  | .releaseFinally _ =>
      some ({ S with table := S.table.rollback i }.setNode i { n with pc := .idle })
  | .idle | .waiting | .acquireSelect | .changeLog => none

/-- A step of the node `i`, which has not stopped. -/
def act (kind : DatabaseKind) (S : Cluster ι) (i : ι) (action : NodeAction) :
    Option (Cluster ι) :=
  let n := S.node i
  match action, n.pc with
  | .update, .idle =>
      -- `getInstance` makes a new service when the map has none
      some (S.setNode i { n with
        pc := .waiting
        hasChangeLogLock := n.registered && n.hasChangeLogLock
        registered := true })
  | .attempt, .waiting =>
      -- a service that has the lock answers at once
      some (S.setNode i { n with
        pc := if n.hasChangeLogLock then .changeLog else .acquireRollback })
  | .giveUp, .waiting => some (S.setNode i { n with pc := .idle })
  | .commits, .changeLog => some ⟨S.table.commit i, S.node⟩
  | .rollsBack, .changeLog => some ⟨S.table.rollback i, S.node⟩
  | .finish, .changeLog => some (S.setNode i { n with pc := .releaseTable })
  | .selected value, .acquireSelect =>
      some (S.setNode i { n with pc := .afterSelect (checkReturnValue value) })
  | .fails isDatabaseException, pc =>
      (pc.afterFailure isDatabaseException).map fun pc => S.setNode i { n with pc }
  | .returns, _ => S.returns kind i
  | _, _ => none

/-- One step. A node that has stopped makes none; the database may take
back its transaction. -/
def step (kind : DatabaseKind) (S : Cluster ι) (a : ι × NodeAction) : Option (Cluster ι) :=
  match a.2 with
  | .disconnect =>
      if (S.node a.1).stopped then some ⟨S.table.rollback a.1, S.node⟩ else none
  | .stop => some (S.setNode a.1 { S.node a.1 with stopped := true })
  | action => if (S.node a.1).stopped then none else S.act kind a.1 action

end Cluster

end Zooffice
