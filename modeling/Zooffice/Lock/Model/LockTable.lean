import Zooffice.Java.Text
import Zooffice.Java.Throwable
/-!
# The change log lock in the database

The row with ID 1 of the lock table, as the nodes of a cluster share it:
its committed content, and the write of at most one transaction that is
not committed yet. A `WHERE` clause is judged on the committed row.
-/


namespace Zooffice

/-- The content of the column `LOCKED`; null is `none`. -/
abbrev Locked : Type := Option String

/-- The databases the lock generator tells apart. -/
inductive DatabaseKind where
  | cubrid
  | other
  deriving DecidableEq, Repr

namespace TrueOrFalseBooleanType

/-- The text of the literal `getTrueBooleanValue`. -/
def trueBooleanValue : String := "T"

/-- The text of the literal `getFalseBooleanValue`. -/
def falseBooleanValue : String := "F"

end TrueOrFalseBooleanType

open TrueOrFalseBooleanType

/-- The literals that the `WHERE` clause of
`LockExDatabaseChangeLogGenerator.generateSql` compares `LOCKED` with. -/
def whereLiterals : DatabaseKind → List String
  | .cubrid => [falseBooleanValue, "0"]
  | .other => [falseBooleanValue]

/-- Whether the clause takes a row with this content: `=` is not true for
null. -/
def whereMatches (kind : DatabaseKind) : Locked → Bool
  | none => false
  | some v => (whereLiterals kind).contains v

/-! ## What a select returns -/

/-- An object that a driver returns for a column. `number` is any other
`Number` than an `Integer` or a `Long`, with what its `intValue` returns. -/
inductive DriverObject where
  | null
  | string (value : String)
  | integer (value : Int)
  | long (value : Int)
  | number (value : Int)
  | boolean (value : Bool)
  deriving DecidableEq, Repr

/-- `LockServiceEx.checkReturnValue`. -/
def checkReturnValue : DriverObject → Except Throwable Bool
  | .string value =>
      if trim value = "T" then .ok true
      else if trim value = "F" ∨ value = "" ∨ trim value = "0" then .ok false
      else .error ⟨.other "UnexpectedLiquibaseException", some ("Unknown boolean value: " ++ value)⟩
  | .null => .ok false
  | .integer value => .ok (value != 0)
  | .long value => .ok (value != 0)
  | .boolean value => .ok value
  | .number _ => .ok false

/-! ## The row -/

variable {ι : Type}

/-- The row with ID 1: its committed content, and the transaction of a
connection that has written it, with what it has written. -/
structure LockTable (ι : Type) where
  locked : Locked
  uncommitted : Option (ι × Locked)

namespace LockTable

variable [DecidableEq ι]

/-- The transaction of the connection `i` has written the row. -/
def isWriter (t : LockTable ι) (i : ι) : Bool :=
  match t.uncommitted with
  | none => false
  | some (j, _) => decide (j = i)

/-- `Database.rollback` of the connection `i`. -/
def rollback (t : LockTable ι) (i : ι) : LockTable ι :=
  if t.isWriter i then { t with uncommitted := none } else t

/-- `Database.commit` of the connection `i`. -/
def commit (t : LockTable ι) (i : ι) : LockTable ι :=
  match t.uncommitted with
  | some (j, v) => if j = i then { locked := v, uncommitted := none } else t
  | none => t

/-- A write of the row by the connection `i`: it waits while the
transaction of another connection has written it. -/
def write (t : LockTable ι) (i : ι) (v : Locked) : Option (LockTable ι) :=
  match t.uncommitted with
  | some (j, _) => if j = i then some { t with uncommitted := some (i, v) } else none
  | none => some { t with uncommitted := some (i, v) }

end LockTable

end Zooffice
