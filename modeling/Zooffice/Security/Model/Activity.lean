import Zooffice.Security.Model.Login
import Zooffice.User.BuiltIn
/-!
# What goes on while the application runs

The requests that change accounts, the reads of an account through the
service, and the logins through the filter of the form and through the
provider for users that another system has authenticated. Each runs to its
end, whether it returns or throws, and the store is then as it left it.
-/


namespace Zooffice

open ZoofficeAuthenticationPreAuthProvider ZoofficeUsernamePasswordAuthenticationFilter

/-- What reaches the accounts and their cache. -/
inductive Activity where
  | request (q : UserRequest)
  | getUserById (userId : Option String)
  | formLogin (plugins : List LoginPlugin) (form : LoginForm)
      (authentication : Option SecuredUser)
  | preAuthLogin (ctx : CallContext) (plugins : List LoginPlugin) (username : Option String)
      (details : Option LanguageAndTimezone)

namespace Activity

/-- The login, if it is one. -/
def login (env : Env) : Activity → Option (App SecuredUser)
  | request _ => none
  | getUserById _ => none
  | formLogin plugins form authentication =>
      some (attemptAuthentication env plugins form authentication)
  | preAuthLogin ctx plugins username details =>
      some (authenticate env ctx plugins username details)

/-- The plugins that are installed then, for a login. -/
def plugins : Activity → List LoginPlugin
  | request _ => []
  | getUserById _ => []
  | formLogin plugins _ _ => plugins
  | preAuthLogin _ plugins _ _ => plugins

/-- The user that a login returns. -/
def authenticated (env : Env) (s : Store) (a : Activity) : Option SecuredUser :=
  (a.login env).bind fun login =>
    match (login.run s).1 with
    | .ok user => some user
    | .error _ => none

end Activity

/-- The store after it. -/
def happen (env : Env) (s : Store) (a : Activity) : Option Store :=
  match a with
  | .request q => respond env s q
  | .getUserById userId => some ((UserService.getUserById userId).run s).2
  | a => (a.login env).map fun login => (login.run s).2

end Zooffice
