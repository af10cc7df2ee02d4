import Zooffice.Java.Text
/-!
# The user record

`User` is the bean: every property may be null, as it is on a record the
form binder or a login plugin makes. `Account` is a row of `NUSER`, whose
`id`, `user_id` and `role_name` are not null. `User.merge` is
`BaseEntity.merge` at this bean.
-/


namespace Zooffice

/-- Milliseconds, as a `java.util.Date` holds them. -/
abbrev Date : Type := Int

/-- The roles of an account. -/
inductive Role where
  | user
  | admin
  | superUser
  | systemUser
  deriving DecidableEq, Repr

/-- `Role.getShortName`: the authority the role grants. -/
def Role.getShortName : Role → String
  | .user => "U"
  | .admin => "A"
  | .superUser => "S"
  | .systemUser => "SYSTEM"

/-- A reference to another user record, by the id it carries; a record
that was never stored carries none. -/
structure UserRef where
  id : Option Int
  deriving DecidableEq, Repr

/-- The bean `User`, with the properties it has from `BaseEntity` and
`BaseModel`. The defaults are those of a new record. -/
structure User where
  id : Option Int := none
  createdDate : Option Date := none
  createdUser : Option UserRef := none
  lastModifiedDate : Option Date := none
  lastModifiedUser : Option UserRef := none
  userId : Option String := none
  userName : Option String := none
  password : Option String := none
  enabled : Bool := true
  email : Option String := none
  role : Option Role := none
  description : Option String := none
  timeZone : Option String := none
  userLanguage : Option String := none
  mobilePhone : Option String := none
  external : Bool := false
  authProviderClass : Option String := none
  deriving DecidableEq, Repr

/-- The columns of `NUSER` but the identity column. -/
structure Columns where
  createdDate : Option Date
  createdUser : Option Int
  lastModifiedDate : Option Date
  lastModifiedUser : Option Int
  userId : String
  userName : Option String
  password : Option String
  enabled : Bool
  email : Option String
  role : Role
  description : Option String
  timeZone : Option String
  userLanguage : Option String
  mobilePhone : Option String
  external : Bool
  authProviderClass : Option String
  deriving DecidableEq, Repr

/-- A row of the table `NUSER`. -/
structure Account extends Columns where
  id : Int
  deriving DecidableEq, Repr

/-- The bean the row is loaded as. -/
def Account.toUser (a : Account) : User where
  id := some a.id
  createdDate := a.createdDate
  createdUser := a.createdUser.map fun i => ⟨some i⟩
  lastModifiedDate := a.lastModifiedDate
  lastModifiedUser := a.lastModifiedUser.map fun i => ⟨some i⟩
  userId := some a.userId
  userName := a.userName
  password := a.password
  enabled := a.enabled
  email := a.email
  role := some a.role
  description := a.description
  timeZone := a.timeZone
  userLanguage := a.userLanguage
  mobilePhone := a.mobilePhone
  external := a.external
  authProviderClass := a.authProviderClass

namespace User

/-- `BaseEntity.exist`. -/
def exist (u : User) : Bool :=
  match u.id with
  | none => false
  | some i => i != 0

/-- `User.validate`. -/
def validate (u : User) : Bool := !(u.userName.isNone || u.email.isNone)

/-! ## `BaseEntity.merge`

The loop of `merge` goes over the bean's properties: one without a
setter (`class`, `userBaseInfo`) or null in the source is skipped, a
string is copied when it is not blank or its setter is `@ForceMergable`,
any other value is copied. -/

/-- The merge of a property that is not a string. -/
def mergeObject {α : Type} (target source : Option α) : Option α :=
  match source with
  | none => target
  | some v => some v

/-- The merge of a string property. -/
def mergeString (forceMergable : Bool) (target source : Option String) : Option String :=
  match source with
  | none => target
  | some v => if forceMergable || isNotBlank (some v) then some v else target

/-- `target.merge(source)`. The primitive properties `enabled` and
`external` are never null; the setter of `email` lower-cases what it is
given, with `String.toLowerCase` of the default locale. -/
def merge (toLowerCase : String → String) (target source : User) : User where
  id := mergeObject target.id source.id
  createdDate := mergeObject target.createdDate source.createdDate
  createdUser := mergeObject target.createdUser source.createdUser
  lastModifiedDate := mergeObject target.lastModifiedDate source.lastModifiedDate
  lastModifiedUser := mergeObject target.lastModifiedUser source.lastModifiedUser
  userId := mergeString false target.userId source.userId
  userName := mergeString false target.userName source.userName
  password := mergeString false target.password source.password
  enabled := source.enabled
  email := mergeString true target.email (source.email.map toLowerCase)
  role := mergeObject target.role source.role
  description := mergeString false target.description source.description
  timeZone := mergeString false target.timeZone source.timeZone
  userLanguage := mergeString false target.userLanguage source.userLanguage
  mobilePhone := mergeString true target.mobilePhone source.mobilePhone
  external := source.external
  authProviderClass := mergeString false target.authProviderClass source.authProviderClass

/-! ## What a merge keeps -/

/-- A blank string, or none, leaves the property as it is. -/
theorem mergeString_of_blank {target source : Option String} (h : isNotBlank source = false) :
    mergeString false target source = target := by
  cases source with
  | none => rfl
  | some v => simp [mergeString, h]

/-- Any other string replaces it. -/
theorem mergeString_of_notBlank {target source : Option String} (h : isNotBlank source = true) :
    mergeString false target source = source := by
  cases source with
  | none => exact absurd h Bool.false_ne_true
  | some v => simp [mergeString, h]

@[simp] theorem mergeString_self {b : Bool} {s : Option String} : mergeString b s s = s := by
  cases s <;> simp [mergeString]

@[simp] theorem mergeObject_self {α : Type} {v : Option α} : mergeObject v v = v := by
  cases v <;> rfl

@[simp] theorem mergeObject_some {α : Type} {target : Option α} {v : α} :
    mergeObject target (some v) = some v := rfl

end User

end Zooffice
