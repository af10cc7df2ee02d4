import Zooffice.Java.Split
import Zooffice.User.Model.Service
/-!
# The requests that change accounts

`/user/save` and `/user/delete` of `UserController`: the principal is the
user of the current authentication, a form is bound to a new record,
method security evaluates its expression, and the method runs.
-/


namespace Zooffice

/-- `Role.toString`. -/
def Role.name : Role → String
  | .user => "USER"
  | .admin => "ADMIN"
  | .superUser => "SUPER_USER"
  | .systemUser => "SYSTEM_USER"

/-- `User.toString`. -/
def User.toText (u : User) : String :=
  "User[ID=" ++ u.id.elim "null" (fun i => toString i) ++ ",name=" ++ u.userId.getD "null" ++
    ",Role=" ++ u.role.elim "null" Role.name ++ "]"

namespace UserController

/-- `@PreAuthorize("hasAnyRole('A') or #user.id == #updatedUser.id")`. -/
def preAuthorizeSave (principal : SecuredUser) (updatedUser : User) : Except Throwable Unit := do
  let authorities ← principal.getAuthorities
  if authorities.contains "A" || principal.user.id == updatedUser.id then return ()
  .error ⟨.accessDenied, some "Access is denied"⟩

/-- The check for a general user: the role is set to the stored one, and
the record named by the submitted user id has to be the one with the
submitted id. -/
def checkGeneralUser (updatedUser : User) : App User := do
  let found ← UserService.getUserById updatedUser.userId
  let updatedUserInDb ← Eff.ofExcept (checkNotNull found none)
  let updatedUser := { updatedUser with role := updatedUserInDb.role }
  match updatedUserInDb.id with
  | none => Eff.throw ⟨.nullPointer, none⟩
  | some id =>
      Eff.ofExcept (checkArgument (some id == updatedUser.id)
        (some ("Illegal request to update user:" ++ updatedUser.toText)))
      return updatedUser

/-- The record the method goes on with: a general user is checked. -/
def checkUser (user updatedUser : User) : App User :=
  if user.role = some Role.user then checkGeneralUser updatedUser else pure updatedUser

/-- Update or create the account, and return the id that the submitted
record carries afterwards: one that had none carries the id it was stored
under. -/
def storeUser (env : Env) (ctx : CallContext) (updatedUser : User)
    (followersStr : Option String) : App (Option Int) :=
  if updatedUser.exist then do
    let _ ← UserService.modifyUser env updatedUser followersStr
    return updatedUser.id
  else do
    let createdUser ← UserService.saveUser env ctx updatedUser
    return updatedUser.id.or createdUser.id

/-- The redirect compares the ids. -/
def redirect (user : User) (updatedId : Option Int) : App String :=
  match user.id with
  | none => Eff.throw ⟨.nullPointer, none⟩
  | some id => return if some id = updatedId then "redirect:/" else "redirect:/user/"

/-- `saveOrUpdateUserDetail`. -/
def saveOrUpdateUserDetail (env : Env) (ctx : CallContext) (user updatedUser : User)
    (followersStr : Option String) : App String := do
  Eff.ofExcept (checkArgument updatedUser.validate none)
  let updatedUser ← checkUser user updatedUser
  let updatedId ← storeUser env ctx updatedUser followersStr
  redirect user updatedId

/-- The context of a request: it comes from the dispatcher servlet. -/
def requestContext (now : Date) (principal : SecuredUser) : CallContext :=
  { now, servletRequest := true, authentication := some (.securedUser principal) }

/-- The request by the principal `principal` at the time `now`. -/
def save (env : Env) (now : Date) (principal : SecuredUser) (updatedUser : User)
    (followersStr : Option String) : App String := do
  Eff.ofExcept (preAuthorizeSave principal updatedUser)
  saveOrUpdateUserDetail env (requestContext now principal) principal.user updatedUser followersStr

/-- `@PreAuthorize("hasAnyRole('A','U')")`. -/
def preAuthorizeDelete (principal : SecuredUser) : Except Throwable Unit := do
  let authorities ← principal.getAuthorities
  if authorities.contains "A" || authorities.contains "U" then return ()
  .error ⟨.accessDenied, some "Access is denied"⟩

/-- The user ids of the parameter, which has commas between them. -/
def ids (userIds : String) : List String := (split userIds.toList ',').map String.ofList

/-- `deleteUser`. -/
def deleteUser (userIds : String) : App String := do
  UserService.deleteUsers (ids userIds)
  return "redirect:/user/"

/-- The request by the principal `principal`. -/
def delete (principal : SecuredUser) (userIds : String) : App String := do
  Eff.ofExcept (preAuthorizeDelete principal)
  deleteUser userIds

end UserController

/-- A request to `/user/save`: who sends it, when, and the form. -/
structure SaveRequest where
  now : Date
  principal : SecuredUser
  updatedUser : User
  followersStr : Option String

/-- The request runs on the store. -/
def SaveRequest.run (env : Env) (q : SaveRequest) (s : Store) : Except Throwable String × Store :=
  (UserController.save env q.now q.principal q.updatedUser q.followersStr).run s

end Zooffice
