import Zooffice.User.Model.Service
/-!
# The accounts of the first start

`DBInit.init`: when the table holds fewer than two accounts, the four
built-in accounts are created unless their user ids are taken.
-/


namespace Zooffice

namespace DBInit

/-- `createUser`. -/
def createUser (env : Env) (now : Date) (userId password : String) (role : Role)
    (userName email : String) (r : Repository) : Except Throwable Repository :=
  match r.findOneByUserId (some userId) with
  | some _ => .ok r
  | none => do
      let user : User := { userId := some userId }
      let securedUser : SecuredUser := ⟨user, none⟩
      let encoded ← env.passwordEncoder.encodePassword password (getSalt securedUser)
      let (_, r') ← r.save { user with
        password := some encoded
        role := some role
        userName := some userName
        email := some (env.toLowerCase email)
        createdDate := some now }
      return r'

/-- `createDefaultUserIfNecessary`. -/
def init (env : Env) (now : Date) (r : Repository) : Except Throwable Repository :=
  if r.count < 2 then do
    let r ← createUser env now "admin" "admin" .admin "admin" "admin@nhn.com" r
    let r ← createUser env now "user" "user" .user "user" "user@nhn.com" r
    let r ← createUser env now "superuser" "superuser" .superUser "superuser" "superuser@nhn.com" r
    createUser env now "system" "system" .systemUser "system" "system@nhn.com" r
  else return r

/-- The store after the first start on an empty table. -/
def started (env : Env) (now : Date) : Except Throwable Store := do
  let users ← init env now Repository.empty
  return { users, cache := Cache.empty }

/-- The store that the runs on fixed inputs start from. -/
def plaintextStarted : Store :=
  match started plaintextEnv 0 with
  | .ok s => s
  | .error _ => ⟨Repository.empty, Cache.empty⟩

/-- It is the store after the first start. -/
theorem started_eq_ok : started plaintextEnv 0 = .ok plaintextStarted := rfl

end DBInit

end Zooffice
