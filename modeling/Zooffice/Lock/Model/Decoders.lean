import Mathlib.Algebra.Group.Nat.Defs
import Zooffice.Lock.Model.LockTable
/-!
# The other readings of a stored boolean

Beside `checkReturnValue`, the column `LOCKED` is decoded by `listLocks`,
which reports who has the lock, and by the boolean type, which turns an
object into the literal of a statement.
-/


namespace Zooffice

/-! ## `LockServiceEx.listLocks` -/

/-- `((Number) value).intValue()`; a `long` keeps its low 32 bits, and what
is not a `Number` has none. -/
def DriverObject.intValue : DriverObject → Option Int
  | integer value => some value
  | long value => some (value.bmod (2 ^ 32))
  | number value => some value
  | null | string _ | boolean _ => none

/-- A row of the lock table, as `queryForList` returns it. -/
structure LockRow where
  id : DriverObject
  locked : DriverObject
  lockGranted : Option Int
  lockedBy : Option String
  deriving DecidableEq, Repr

/-- `DatabaseChangeLogLock`. -/
structure DatabaseChangeLogLock where
  id : Int
  lockGranted : Option Int
  lockedBy : Option String
  deriving DecidableEq, Repr

namespace LockRow

/-- The row's `locked` in the loop of `listLocks`, where null is not
locked. -/
def isLocked (row : LockRow) : Bool :=
  match row.locked.intValue, row.locked with
  | some value, _ => value == 1
  | none, .string value => value == "T"
  | none, .boolean value => value
  | none, _ => false

/-- The lock that the row becomes. The number of the row is unboxed, and
what that throws is wrapped. -/
def toLock (row : LockRow) : Except Throwable DatabaseChangeLogLock :=
  match row.id.intValue, row.id with
  | some id, _ => .ok ⟨id, row.lockGranted, row.lockedBy⟩
  | none, .null => .error ⟨.other "LockException", some "java.lang.NullPointerException"⟩
  | none, .string _ => .error ⟨.other "LockException",
      some "java.lang.ClassCastException: java.lang.String cannot be cast to java.lang.Number"⟩
  | none, _ => .error ⟨.other "LockException",
      some "java.lang.ClassCastException: java.lang.Boolean cannot be cast to java.lang.Number"⟩

end LockRow

/-- The rows that the loop of `listLocks` counts as locked. -/
def countedRows (rows : List LockRow) : List LockRow := rows.filter LockRow.isLocked

/-- `LockServiceEx.listLocks`. -/
def listLocks (hasDatabaseChangeLogLockTable : Bool) (rows : List LockRow) :
    Except Throwable (List DatabaseChangeLogLock) :=
  if hasDatabaseChangeLogLockTable then (countedRows rows).mapM LockRow.toLock else .ok []

/-! ## The boolean type -/

namespace TrueOrFalseBooleanType

/-- `toString().equalsIgnoreCase("null")`: the letters of the word are
those of no other characters, whatever their case. -/
def isNullWord (s : String) : Bool := s.toList.map Char.toLower == "null".toList

/-- A text as a literal. -/
def quoted (text : String) : String := "'" ++ text ++ "'"

/-- The literal of a boolean. -/
def booleanValue (value : Bool) : String :=
  quoted (if value then trueBooleanValue else falseBooleanValue)

/-- `TrueOrFalseBooleanType.convertObjectToString`. A `Number` that is
neither an `Integer` nor a `Long` is cast to a `Boolean`. -/
def convertObjectToString : DriverObject → Except Throwable (Option String)
  | .null => .ok none
  | .string value =>
      if isNullWord value then .ok (some "null")
      else if trim value = "T" then .ok (some (booleanValue true))
      else if trim value = "F" ∨ value = "" ∨ trim value = "0" then .ok (some (booleanValue false))
      else .error ⟨.other "UnexpectedLiquibaseException", some ("Unknown boolean value: " ++ value)⟩
  | .integer value => .ok (some (booleanValue (value == 1)))
  | .long value => .ok (some (booleanValue (value == 1)))
  | .boolean value => .ok (some (booleanValue value))
  | .number _ => .error ⟨.other "ClassCastException", none⟩

end TrueOrFalseBooleanType

end Zooffice
