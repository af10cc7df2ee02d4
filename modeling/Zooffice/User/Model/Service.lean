import Zooffice.Common.Cache
import Zooffice.Common.Effect
import Zooffice.Security.Model.SecuredUser
import Zooffice.User.Model.Repository
/-!
# The user service

`UserService` over the repository and the `users` cache. The annotations
are part of the methods: `@Cacheable` reads through the cache,
`@CacheEvict` removes a key once the method has returned,
`@Transactional` takes the table back when the method throws, and
`ModelAspect` stamps the argument of the methods named `save*`. Cached
records are copies, so a record is a value here.
-/


namespace Zooffice

/-- What the service keeps: the table and the `users` cache. -/
structure Store where
  users : Repository
  cache : Cache (Option String) (Option User)

/-- A service method: it runs on the store and may throw. -/
abbrev App : Type → Type := Eff Store Throwable

/-- The beans and the locale the service is configured with. -/
structure Env where
  passwordEncoder : PasswordEncoder
  /-- `String.toLowerCase` of the default locale. -/
  toLowerCase : String → String
  accountChecks : AccountChecks

/-- The beans of the runs on fixed inputs. -/
def plaintextEnv : Env := ⟨plaintextPasswordEncoder, fun s => s, accountStatusChecks⟩

namespace Store

/-- What the repository returns for a user id. -/
def lookup (s : Store) (userId : Option String) : Option User := s.users.findOneByUserId userId

/-- A transaction that throws takes back the table, not the cache. -/
def rollback (before after : Store) : Store := { after with users := before.users }

end Store

/-- `userRepository.save` in the running transaction. -/
def saveRepository (user : User) : App User := fun s =>
  match s.users.save user with
  | .ok (saved, users) => (.ok saved, { s with users })
  | .error e => (.error e, s)

/-- `@CacheEvict(value = "users", key = userId)`. -/
def evictUser (userId : Option String) : App Unit :=
  Eff.modify fun s => { s with cache := s.cache.evict userId }

namespace UserService

/-- `getUserById`, through the cache. -/
def getUserById (userId : Option String) : App (Option User) := fun s =>
  (.ok (s.cache.read s.lookup userId),
    { s with cache := s.cache.afterRead s.lookup userId })

/-- `encodePassword`: the salt is that of the record given. -/
def encodePassword (env : Env) (user : User) : Except Throwable User :=
  match user.password with
  | none => .ok user
  | some password =>
      if isNotBlank (some password) then do
        let securedUser : SecuredUser := ⟨user, none⟩
        let encoded ← env.passwordEncoder.encodePassword password (getSalt securedUser)
        return { user with password := some encoded }
      else .ok user

/-- `saveUser(User)`. -/
def saveUser (env : Env) (ctx : CallContext) (user : User) : App User := do
  let user ← Eff.ofExcept (beforeSave ctx user)
  let createdUser ← Eff.transactional Store.rollback do
    let user ← Eff.ofExcept (encodePassword env user)
    saveRepository user
  evictUser user.userId
  return createdUser

/-- `saveUser(User, Role)`. -/
def saveUserWithRole (env : Env) (ctx : CallContext) (user : User) (role : Role) : App Unit := do
  let user ← Eff.ofExcept (beforeSave ctx user)
  let user ← Eff.ofExcept (encodePassword env user)
  let _ ← saveRepository { user with role := some role }
  evictUser user.userId

/-- `modifyUser`. The accounts that `shareUserIds` names are looked up
and not used. -/
def modifyUser (env : Env) (user : User) (_shareUserIds : Option String) :
    App (Option String) := do
  let userId ← Eff.transactional Store.rollback do
    let id ← Eff.ofExcept
      (checkNotNull user.id (some "user id should be provided when modifying user"))
    let user ← Eff.ofExcept (encodePassword env user)
    let s ← Eff.get
    match s.users.findOne id with
    -- `targetUser.merge` of a null reference
    | none => Eff.throw ⟨.nullPointer, none⟩
    | some targetUser =>
        let _ ← saveRepository (targetUser.merge env.toLowerCase user)
        return user.userId
  evictUser user.userId
  return userId

/-- The loop of `deleteUsers`: the lookups stay inside the class, so they
read the table and not the cache. -/
def deleteEach : List String → App Unit
  | [] => return ()
  | userId :: userIds => do
      let s ← Eff.get
      let users ← Eff.ofExcept (s.users.delete (s.lookup (some userId)))
      Eff.modify fun s => { s with users }
      deleteEach userIds

/-- `deleteUsers`. -/
def deleteUsers (userIds : List String) : App Unit := do
  Eff.transactional Store.rollback (deleteEach userIds)
  Eff.modify fun s => { s with cache := Cache.empty }

end UserService

end Zooffice
