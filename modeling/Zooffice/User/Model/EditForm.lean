import Zooffice.User.Model.Controller
/-!
# The edit form of an account

The page `/user/{userId}` puts a record in the form, and the form comes
back to `/user/save` as parameters, of which any subset may be there. The
binder makes a new record and calls the setters of the carried ones.
-/


namespace Zooffice

/-- The parameters of a submitted form; one that is not carried is
`none`. A carried reference may be null. -/
structure UserForm where
  id : Option (Option Int) := none
  createdDate : Option (Option Date) := none
  createdUser : Option (Option UserRef) := none
  lastModifiedDate : Option (Option Date) := none
  lastModifiedUser : Option (Option UserRef) := none
  userId : Option (Option String) := none
  userName : Option (Option String) := none
  password : Option (Option String) := none
  enabled : Option Bool := none
  email : Option String := none
  role : Option (Option Role) := none
  description : Option (Option String) := none
  timeZone : Option (Option String) := none
  userLanguage : Option (Option String) := none
  mobilePhone : Option (Option String) := none
  external : Option Bool := none
  authProviderClass : Option (Option String) := none
  deriving DecidableEq, Repr

/-- The record that the binder makes of the form. -/
def UserForm.bind (toLowerCase : String → String) (form : UserForm) : User where
  id := form.id.join
  createdDate := form.createdDate.join
  createdUser := form.createdUser.join
  lastModifiedDate := form.lastModifiedDate.join
  lastModifiedUser := form.lastModifiedUser.join
  userId := form.userId.join
  userName := form.userName.join
  password := form.password.join
  enabled := form.enabled.getD true
  email := form.email.map toLowerCase
  role := form.role.join
  description := form.description.join
  timeZone := form.timeZone.join
  userLanguage := form.userLanguage.join
  mobilePhone := form.mobilePhone.join
  external := form.external.getD false
  authProviderClass := form.authProviderClass.join

namespace UserController

/-- `UserHandlerMethodArgumentResolver.resolveArgument` in a request by
the principal. -/
def resolveArgument (now : Date) (principal : SecuredUser) : Except Throwable User :=
  getCurrentUser (requestContext now principal)

/-- `@PreAuthorize("hasAnyRole('A') or #user.userId == #userId")`. -/
def preAuthorizeDetail (principal : SecuredUser) (user : User) (userId : String) :
    Except Throwable Unit := do
  let authorities ← principal.getAuthorities
  if authorities.contains "A" || user.userId == some userId then return ()
  .error ⟨.accessDenied, some "Access is denied"⟩

/-- `getUserDetail`: the model attribute `user`, which the form is filled
from. -/
def getUserDetail (user : User) (_userId : String) : App (Option User) := do
  let userFromDB ← UserService.getUserById user.userId
  return userFromDB

/-- The request to `/user/{userId}`. -/
def detail (now : Date) (principal : SecuredUser) (userId : String) : App (Option User) := do
  let user ← Eff.ofExcept (resolveArgument now principal)
  Eff.ofExcept (preAuthorizeDetail principal user userId)
  getUserDetail user userId

end UserController

end Zooffice
