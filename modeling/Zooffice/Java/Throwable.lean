import Mathlib.Logic.Basic
/-!
# What the code throws

The classes of the exceptions that the modelled methods, the database
and Spring throw, with their messages. `catch (Exception e)` takes every
one of them but a `java.lang.Error` (`Throwable.isException`).
-/


namespace Zooffice

/-- The class of a throwable. `database` is the checked `DatabaseException`
of Liquibase; `other` and `error` name the classes that code outside the
repository throws. -/
inductive ThrowableClass where
  | illegalArgument
  | nullPointer
  | zoofficeRuntime
  | badCredentials
  | usernameNotFound
  | authenticationService
  | authenticationCredentialsNotFound
  | accessDenied
  | dataIntegrityViolation
  | transientObject
  | security
  | indexOutOfBounds
  | database
  | other (name : String)
  | error (name : String)
  deriving DecidableEq, Repr

/-- A throwable and its message. -/
structure Throwable where
  cls : ThrowableClass
  message : Option String
  deriving DecidableEq, Repr

/-- Whether `catch (Exception e)` takes it. -/
def Throwable.isException (t : Throwable) : Bool :=
  match t.cls with
  | .error _ => false
  | _ => true

/-- `Preconditions.checkArgument`. -/
def checkArgument (expression : Bool) (message : Option String) : Except Throwable Unit :=
  if expression then .ok () else .error ⟨.illegalArgument, message⟩

theorem checkArgument_eq_ok {b : Bool} {m : Option String} {x : Unit}
    (h : checkArgument b m = .ok x) : b = true := by
  unfold checkArgument at h
  split at h
  · assumption
  · cases h

/-- `Preconditions.checkState`. -/
def checkState (expression : Bool) (message : Option String) : Except Throwable Unit :=
  if expression then .ok () else .error ⟨.other "IllegalStateException", message⟩

theorem checkState_eq_ok {expression : Bool} {message : Option String} :
    checkState expression message = .ok () ↔ expression = true := by
  cases expression <;> simp [checkState]

/-- `Preconditions.checkNotNull`. -/
def checkNotNull {α : Type} (reference : Option α) (message : Option String) :
    Except Throwable α :=
  match reference with
  | some a => .ok a
  | none => .error ⟨.illegalArgument, message⟩

theorem checkNotNull_eq_ok {α : Type} {v : Option α} {m : Option String} {a : α}
    (h : checkNotNull v m = .ok a) : v = some a := by
  cases v with
  | none => cases h
  | some b => cases h; rfl

end Zooffice
