import Zooffice.User.Model.Service
/-!
# Logins

The login plugins, the user details service, the two authentication
providers and the filter of the form login. A plugin that is installed
answers from data of its own; the default plugin loads from the user
service and compares hashes. Filters run before the dispatcher servlet,
so the aspect on `save*` does nothing here.
-/


namespace Zooffice

/-- `OnLoginRunnable`, the extension point of the login. -/
structure OnLoginRunnable where
  /-- The name of the class that implements it. -/
  className : String
  loadUser : (userId : Option String) → App (Option User)
  validateUser : (userId : Option String) → (password : String) → (encPass : Option String) →
    (encoder : PasswordEncoder) → (salt : Option String) → Except Throwable Bool

/-- A plugin that is installed: it reads and writes nothing of the
application. -/
structure LoginPlugin where
  className : String
  loadUser : (userId : Option String) → Except Throwable (Option User)
  validateUser : (userId : Option String) → (password : String) → (encPass : Option String) →
    (encoder : PasswordEncoder) → (salt : Option String) → Except Throwable Bool

/-- The module of the plugin. -/
def LoginPlugin.getModule (p : LoginPlugin) : OnLoginRunnable :=
  ⟨p.className, fun userId => Eff.ofExcept (p.loadUser userId), p.validateUser⟩

/-- `BadCredentialsException` with the default text. -/
def badCredentials : Throwable := ⟨.badCredentials, some "Bad credentials"⟩

namespace DefaultLoginPlugin

def className : String := "org.zooffice.security.DefaultLoginPlugin"

/-- `DefaultLoginPlugin.validateUser`. -/
def validateUser (_userId : Option String) (password : String) (encPass : Option String)
    (encoder : PasswordEncoder) (salt : Option String) : Except Throwable Bool := do
  let valid ← encoder.isPasswordValid encPass password salt
  if valid then return true
  .error badCredentials

/-- `DefaultLoginPlugin`. -/
def module : OnLoginRunnable := ⟨className, UserService.getUserById, validateUser⟩

end DefaultLoginPlugin

/-- `PluginManager.getEnabledModulesByClass`: the default plugin, then the
installed ones. -/
def getEnabledModulesByClass (plugins : List LoginPlugin) : List OnLoginRunnable :=
  DefaultLoginPlugin.module :: plugins.map LoginPlugin.getModule

/-! ## The user details service -/

/-- `Preconditions.checkNotEmpty`. -/
def checkNotEmpty (reference : Option String) (errorMsg : String) : Except Throwable Unit :=
  if isEmpty reference then .error ⟨.illegalArgument, some errorMsg⟩ else .ok ()

/-- The checks on a record that the plugin `className` provides. -/
def checkUserInfo (className : String) (user : User) : Except Throwable Unit := do
  checkNotEmpty user.userId
    ("User info's userId provided by " ++ className ++ " should not be empty")
  checkNotEmpty user.userName
    ("User info's userName provided by " ++ className ++ " should not be empty")
  checkNotEmpty user.email
    ("User info's email provided by " ++ className ++ " should not be empty")

/-- One round of the loop: the details, when the plugin has the record. A
null pointer exception is logged. -/
def loadFrom (userId : Option String) (each : OnLoginRunnable) : App (Option SecuredUser) :=
  Eff.tryCatch
    (do
      let user ← each.loadUser userId
      match user with
      | none => return none
      | some user =>
          Eff.ofExcept (checkUserInfo each.className user)
          return some ⟨user, user.authProviderClass⟩)
    fun e => if e.cls = .nullPointer then pure none else Eff.throw e

/-- `ZoofficeUserDetailsService.loadUserByUsername` over the plugins. -/
def loadUserByUsername (userId : Option String) : List OnLoginRunnable → App SecuredUser
  | [] => Eff.throw ⟨.usernameNotFound, some (userId.getD "null" ++ " is not found.")⟩
  | each :: rest => do
      let found ← loadFrom userId each
      match found with
      | some user => return user
      | none => loadUserByUsername userId rest

/-! ## The two providers -/

/-- The record a provider gave, stamped with the provider and the time. -/
def providedRecord (now : Date) (securedUser : SecuredUser) : User :=
  { securedUser.user with
    authProviderClass := securedUser.userInfoProviderClass
    createdDate := some now }

/-- It is merged into the record the service has, if it has one. -/
def mergedRecord (env : Env) (newUser : Option User) (user : User) : User :=
  match newUser with
  | none => user
  | some newUser => newUser.merge env.toLowerCase user

/-- A record without a role is a general user's. -/
def withRole (user : User) : User :=
  if user.role = none then { user with role := some Role.user } else user

/-- The record `addNewUserIntoLocal` saves. -/
def localRecord (env : Env) (now : Date) (securedUser : SecuredUser) (newUser : Option User) :
    User :=
  withRole (mergedRecord env newUser (providedRecord now securedUser))

/-- `addNewUserIntoLocal`, which both providers have. -/
def addUserIntoLocal (env : Env) (ctx : CallContext) (securedUser : SecuredUser) :
    App SecuredUser := do
  let newUser ← UserService.getUserById securedUser.user.userId
  let savedUser ← UserService.saveUser env ctx (localRecord env ctx.now securedUser newUser)
  return { securedUser with user := savedUser }

/-- Whether the record is of a provider that is not the default plugin. -/
def isProvidedElsewhere (securedUser : SecuredUser) : Bool :=
  securedUser.userInfoProviderClass.isSome &&
    securedUser.userInfoProviderClass != some DefaultLoginPlugin.className

/-- A call of `validateUser` on a plugin, and what it answered. -/
structure ValidateCall where
  className : String
  userId : Option String
  password : String
  answer : Except Throwable Bool

namespace ZoofficeAuthenticationProvider

/-- `addNewUserIntoLocal`. -/
def addNewUserIntoLocal : Env → CallContext → SecuredUser → App SecuredUser := addUserIntoLocal

/-- The loop of `additionalAuthenticationChecks`: the calls it makes, and
whether the user is authorized. What a plugin answers is dropped; only a
throw counts. -/
def authorize (encoder : PasswordEncoder) (salt : Option String) (user : SecuredUser)
    (presentedPassword : String) : List OnLoginRunnable → List ValidateCall × Except Throwable Bool
  | [] => ([], .ok false)
  | each :: rest =>
      let answer :=
        each.validateUser user.getUsername presentedPassword user.getPassword encoder salt
      let call : ValidateCall := ⟨each.className, user.getUsername, presentedPassword, answer⟩
      if each.className = DefaultLoginPlugin.className then
        if isEmpty user.getAuthProviderClass ||
            user.userInfoProviderClass == some DefaultLoginPlugin.className then
          ([call], answer.map fun _ => true)
        else
          match answer with
          | .ok _ => ([call], .ok true)
          | .error e =>
              if e.isException then
                let (calls, authorized) := authorize encoder salt user presentedPassword rest
                (call :: calls, authorized)
              else ([call], .error e)
      else if some each.className = user.getAuthProviderClass then
        ([call], answer.map fun _ => true)
      else authorize encoder salt user presentedPassword rest

/-- `additionalAuthenticationChecks`: the calls of `validateUser`, and the
details as the method leaves them. -/
def additionalAuthenticationChecks (env : Env) (ctx : CallContext) (plugins : List LoginPlugin)
    (user : SecuredUser) (credentials : Option String) :
    List ValidateCall × App SecuredUser :=
  match ctx.authentication with
  | some _ => ([], pure user)
  | none =>
      match credentials with
      | none => ([], Eff.throw badCredentials)
      | some presentedPassword =>
          let (calls, authorized) := authorize env.passwordEncoder (getSalt user) user
            presentedPassword (getEnabledModulesByClass plugins)
          (calls, do
            let authorized ← Eff.ofExcept authorized
            if authorized then
              if isProvidedElsewhere user then addNewUserIntoLocal env ctx user else pure user
            else Eff.throw badCredentials)

/-- `retrieveUser`. -/
def retrieveUser (plugins : List LoginPlugin) (username : Option String) : App SecuredUser :=
  Eff.tryCatch (loadUserByUsername username (getEnabledModulesByClass plugins)) fun e =>
    if e.cls = .usernameNotFound then Eff.throw e
    else if e.isException then Eff.throw ⟨.authenticationService, e.message⟩
    else Eff.throw e

/-- A user that is not there is hidden behind wrong credentials. -/
def hideUserNotFound (e : Throwable) : Throwable :=
  if e.cls = .usernameNotFound then badCredentials else e

/-- `authenticate`, which Spring composes of the two and of its checks on
the account. The token that it makes has the authorities of the user. -/
def authenticate (env : Env) (ctx : CallContext) (plugins : List LoginPlugin)
    (username credentials : Option String) : App SecuredUser := do
  let user ← Eff.mapError hideUserNotFound (retrieveUser plugins username)
  Eff.ofExcept (env.accountChecks.preAuthenticationChecks user)
  let user ← (additionalAuthenticationChecks env ctx plugins user credentials).2
  Eff.ofExcept (env.accountChecks.postAuthenticationChecks user)
  let _ ← Eff.ofExcept user.getAuthorities
  return user

end ZoofficeAuthenticationProvider

namespace ZoofficeAuthenticationPreAuthProvider

/-- `addNewUserIntoLocal`. -/
def addNewUserIntoLocal : Env → CallContext → SecuredUser → App SecuredUser := addUserIntoLocal

/-- The time zone and the language that the details of the token carry. -/
structure LanguageAndTimezone where
  language : Option String
  timezone : Option String

/-- The details are put into the record: they are a map or a
`LanguageAndTimezone`, or there are none of use. -/
def withDetails (details : Option LanguageAndTimezone) (securedUser : SecuredUser) : SecuredUser :=
  match details with
  | none => securedUser
  | some d => { securedUser with
      user := { securedUser.user with timeZone := d.timezone, userLanguage := d.language } }

/-- `PreAuthenticatedAuthenticationProvider.authenticate`: another system
has authenticated the user. -/
def authenticateLoaded (env : Env) (plugins : List LoginPlugin) (username : Option String) :
    App SecuredUser := do
  let securedUser ← loadUserByUsername username (getEnabledModulesByClass plugins)
  Eff.ofExcept (env.accountChecks.userDetailsChecker securedUser)
  let _ ← Eff.ofExcept securedUser.getAuthorities
  return securedUser

/-- `authenticate`. -/
def authenticate (env : Env) (ctx : CallContext) (plugins : List LoginPlugin)
    (username : Option String) (details : Option LanguageAndTimezone) : App SecuredUser := do
  let securedUser ← authenticateLoaded env plugins username
  let securedUser := withDetails details securedUser
  if isProvidedElsewhere securedUser then addNewUserIntoLocal env ctx securedUser
  else return securedUser

end ZoofficeAuthenticationPreAuthProvider

/-! ## The form login -/

namespace ZoofficeUsernamePasswordAuthenticationFilter

/-- A form that is posted, and when. -/
structure LoginForm where
  now : Date
  username : Option String
  password : Option String
  timezone : Option String
  language : Option String

/-- The context of the filter in a session. -/
def loginContext (form : LoginForm) (authentication : Option SecuredUser) : CallContext :=
  { now := form.now, servletRequest := false,
    authentication := authentication.map Principal.securedUser }

/-- What the filter does once the provider has authenticated: the stored
record, or the one provided, gets the time zone and language of the form
and is saved through the repository. -/
def saveTimezoneAndLanguage (form : LoginForm) (securedUser : SecuredUser) : App SecuredUser := do
  let s ← Eff.get
  let existingUser := s.users.findOneByUserId securedUser.user.userId
  let user := existingUser.getD securedUser.user
  let saved ← saveRepository { user with timeZone := form.timezone, userLanguage := form.language }
  return { securedUser with user := saved }

/-- `attemptAuthentication`. -/
def attemptAuthentication (env : Env) (plugins : List LoginPlugin) (form : LoginForm)
    (authentication : Option SecuredUser) : App SecuredUser := do
  let securedUser ← ZoofficeAuthenticationProvider.authenticate env
    (loginContext form authentication) plugins form.username form.password
  saveTimezoneAndLanguage form securedUser

end ZoofficeUsernamePasswordAuthenticationFilter

end Zooffice
