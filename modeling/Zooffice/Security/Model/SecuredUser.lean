import Zooffice.User.Model.User
import Zooffice.Java.Throwable
/-!
# Principals and the context of a call

`SecuredUser` is the principal of a login. `CallContext` is what a
service method reads besides its arguments: the clock, whether the call
comes from the dispatcher servlet, and the authentication the security
context holds.
-/


namespace Zooffice

/-- The `UserDetails` of a user record and the class that provided it. -/
structure SecuredUser where
  user : User
  userInfoProviderClass : Option String
  deriving DecidableEq, Repr

namespace SecuredUser

/-- `SecuredUser.getUsername`: the user id. -/
def getUsername (u : SecuredUser) : Option String := u.user.userId

def getPassword (u : SecuredUser) : Option String := u.user.password

/-- `SecuredUser.getAuthProviderClass`: the record's own class, or the
class that provided the record. -/
def getAuthProviderClass (u : SecuredUser) : Option String :=
  if isNotEmpty u.user.authProviderClass then u.user.authProviderClass
  else u.userInfoProviderClass

/-- `SecuredUser.getAuthorities`: the short name of the role. -/
def getAuthorities (u : SecuredUser) : Except Throwable (List String) :=
  match u.user.role with
  | some r => .ok [r.getShortName]
  | none => .error ⟨.nullPointer, none⟩

def isAccountNonExpired (u : SecuredUser) : Bool := u.user.enabled

def isAccountNonLocked (u : SecuredUser) : Bool := u.user.enabled

def isCredentialsNonExpired (u : SecuredUser) : Bool := u.user.enabled

def isEnabled (_u : SecuredUser) : Bool := true

end SecuredUser

/-- The principal of an authentication: a login of this application, or
the text another one uses. -/
inductive Principal where
  | securedUser (u : SecuredUser)
  | other (text : String)
  deriving DecidableEq, Repr

/-- What a call reads besides its arguments. -/
structure CallContext where
  now : Date
  servletRequest : Bool
  authentication : Option Principal
  deriving DecidableEq, Repr

/-- `UserContext.getCurrentUser`. -/
def getCurrentUser (ctx : CallContext) : Except Throwable User :=
  match ctx.authentication with
  | none => .error ⟨.authenticationCredentialsNotFound, some "No athenticated"⟩
  | some (.other obj) =>
      .error ⟨.authenticationCredentialsNotFound, some ("Invalid athentication with " ++ obj)⟩
  | some (.securedUser u) => .ok u.user

/-- `ModelAspect.beforeSave` on the record a `save*` method is given. -/
def beforeSave (ctx : CallContext) (model : User) : Except Throwable User :=
  if ctx.servletRequest then do
    let currentUser ← getCurrentUser ctx
    let model := { model with
      lastModifiedDate := some ctx.now
      lastModifiedUser := some ⟨currentUser.id⟩ }
    if model.exist then return model
    return { model with
      createdDate := some ctx.now
      createdUser := some ⟨currentUser.id⟩ }
  else return model

/-- The `PasswordEncoder` bean: what it encodes a password and a salt to,
and whether a password is the one an encoded password was made from. -/
structure PasswordEncoder where
  encodePassword : (rawPass : String) → (salt : Option String) → Except Throwable String
  isPasswordValid : (encPass : Option String) → (rawPass : String) → (salt : Option String) →
    Except Throwable Bool

/-- `BasePasswordEncoder.mergePasswordAndSalt`: the salt in braces behind
the password. -/
def mergePasswordAndSalt (password : String) (salt : Option String) (strict : Bool) :
    Except Throwable String :=
  match salt with
  | none => .ok password
  | some salt =>
      if strict && (salt.toList.contains '\x7b' || salt.toList.contains '\x7d') then
        .error ⟨.illegalArgument, some "Cannot use \x7b or \x7d in salt.toString()"⟩
      else if salt = "" then .ok password
      else .ok (password ++ "\x7b" ++ salt ++ "\x7d")

/-- Spring's `PlaintextPasswordEncoder`, the bean of the runs on fixed
inputs. -/
def plaintextPasswordEncoder : PasswordEncoder where
  encodePassword rawPass salt := mergePasswordAndSalt rawPass salt true
  isPasswordValid encPass rawPass salt := do
    let pass2 ← mergePasswordAndSalt rawPass salt false
    return encPass.getD "null" == pass2

/-- The checks of Spring on the state of an account: the two around the
check of the password, and that of a user whom another system has
authenticated. -/
structure AccountChecks where
  preAuthenticationChecks : SecuredUser → Except Throwable Unit
  postAuthenticationChecks : SecuredUser → Except Throwable Unit
  userDetailsChecker : SecuredUser → Except Throwable Unit

/-- An exception of the checks. -/
def accountStatus (name message : String) : Throwable := ⟨.other name, some message⟩

/-- `DefaultPreAuthenticationChecks.check`. -/
def checkAccount (u : SecuredUser) : Except Throwable Unit :=
  if !u.isAccountNonLocked then .error (accountStatus "LockedException" "User account is locked")
  else if !u.isEnabled then .error (accountStatus "DisabledException" "User is disabled")
  else if !u.isAccountNonExpired then
    .error (accountStatus "AccountExpiredException" "User account has expired")
  else .ok ()

/-- `DefaultPostAuthenticationChecks.check`. -/
def checkCredentials (u : SecuredUser) : Except Throwable Unit :=
  if !u.isCredentialsNonExpired then
    .error (accountStatus "CredentialsExpiredException" "User credentials have expired")
  else .ok ()

/-- The checks of the runs on fixed inputs, those that Spring has by
default. `AccountStatusUserDetailsChecker` makes both. -/
def accountStatusChecks : AccountChecks where
  preAuthenticationChecks := checkAccount
  postAuthenticationChecks := checkCredentials
  userDetailsChecker u := (checkAccount u).bind fun _ => checkCredentials u

/-- `ReflectionSaltSource.getSalt` with `userPropertyToUse` set to
`username`. -/
def getSalt (u : SecuredUser) : Option String := u.getUsername

end Zooffice
