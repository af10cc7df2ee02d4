import Zooffice.User.Model.Controller
/-!
# The check on a new user id

Before the registration form is sent, the page asks `/user/{userId}/checkUserId`
whether the user id is taken, and sends the form when the answer has
`success`.
-/


namespace Zooffice

/-- `BaseController.returnSuccess`. -/
def returnSuccess : String := "\x7b\"success\":true\x7d"

/-- `BaseController.returnError`. -/
def returnError : String := "\x7b\"success\":false\x7d"

namespace UserController

/-- `checkUserId`. -/
def checkUserId (userId : String) : App String := do
  let user ← UserService.getUserById (some userId)
  return if user.isNone then returnSuccess else returnError

/-- The request by the principal `principal`. The expression
`@PreAuthorize("hasAnyRole('A','U')")` is that of a deletion. -/
def check (principal : SecuredUser) (userId : String) : App String := do
  Eff.ofExcept (preAuthorizeDelete principal)
  checkUserId userId

end UserController

end Zooffice
