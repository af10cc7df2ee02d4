import Zooffice.Security.Model.Login
/-!
# A session and the logins posted in it

Spring Security runs the filter on each form, in the security context of
the session, and puts the authentication into the session when the filter
returns one. The session is kept with a record of the users for which an
attempt was accepted so far.
-/


namespace Zooffice

open ZoofficeAuthenticationProvider ZoofficeUsernamePasswordAuthenticationFilter

/-- A login that is posted: the form, and the plugins installed then. -/
structure Attempt where
  form : LoginForm
  plugins : List LoginPlugin

/-- The store, the authentication of the session, and the user ids for
which an attempt was accepted. -/
structure HttpSession where
  store : Store
  authentication : Option SecuredUser
  accepted : List (Option String)

/-- The session before its first login. -/
def HttpSession.unauthenticated (store : Store) : HttpSession := ⟨store, none, []⟩

/-- The loop over the plugins accepts the password for the user: it does
not end in an exception. -/
def accepts (env : Env) (plugins : List LoginPlugin) (user : SecuredUser)
    (credentials : Option String) : Bool :=
  match credentials with
  | none => false
  | some password =>
      match (authorize env.passwordEncoder (getSalt user) user password
        (getEnabledModulesByClass plugins)).2 with
      | .ok authorized => authorized
      | .error _ => false

/-- The user the attempt is for: the one its user name is resolved to. -/
def Attempt.user (a : Attempt) (s : Store) : Option SecuredUser :=
  match ((retrieveUser a.plugins a.form.username).run s).1 with
  | .ok user => some user
  | .error _ => none

/-- The user id an attempt is accepted for, if it is. -/
def Attempt.accepted (env : Env) (a : Attempt) (s : Store) : List (Option String) :=
  match a.user s with
  | some user => if accepts env a.plugins user a.form.password then [user.getUsername] else []
  | none => []

/-- One attempt: what the filter returns becomes the authentication of the
session, and when it throws the session keeps the one it has. -/
def attempt (env : Env) (t : HttpSession) (a : Attempt) : Option HttpSession :=
  let done := (attemptAuthentication env a.plugins a.form t.authentication).run t.store
  some
    { store := done.2
      authentication :=
        match done.1 with
        | .ok user => some user
        | .error _ => t.authentication
      accepted := t.accepted ++ a.accepted env t.store }

end Zooffice
