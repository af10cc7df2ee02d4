import Zooffice.Security.Model.Login
import Zooffice.User.Service
/-!
# What a login does to the store

Loading a user changes nothing but what the default plugin reads into the
cache; when that plugin has a record, it is the one that is taken. The
checks of Spring on the account change nothing either. The
form login then writes at most twice: the record of another provider
through the service, and the time zone and language through the
repository.
-/


namespace Zooffice

open Repository

variable {env : Env} {ctx : CallContext} {s s' : Store} {u u' : SecuredUser}
  {k : Option String} {plugins : List LoginPlugin}

/-! ## Loading -/

/-- What the store is after the record of a user id was read. -/
def Store.afterRead (s : Store) (k : Option String) : Store :=
  { s with cache := s.cache.afterRead s.lookup k }

/-- An installed plugin leaves the store. -/
theorem keeps_loadFrom_getModule (p : LoginPlugin) :
    Eff.Keeps Eq (loadFrom k p.getModule) := by
  refine Eff.keeps_tryCatch (Eff.keeps_bind (Eff.keeps_ofExcept _) fun user => ?_) fun e => ?_
  · rcases user with _ | user
    · exact Eff.keeps_pure _
    · exact Eff.keeps_bind (Eff.keeps_ofExcept _) fun _ => Eff.keeps_pure _
  · split
    · exact Eff.keeps_pure _
    · exact Eff.keeps_throw _

/-- So do all of them. -/
theorem keeps_loadUserByUsername_map (plugins : List LoginPlugin) :
    Eff.Keeps Eq (loadUserByUsername k (plugins.map LoginPlugin.getModule)) := by
  induction plugins with
  | nil => exact Eff.keeps_throw _
  | cons p rest ih =>
      refine Eff.keeps_bind (keeps_loadFrom_getModule p) fun found => ?_
      rcases found with _ | user
      · exact ih
      · exact Eff.keeps_pure _

theorem cls_of_checkNotEmpty {reference : Option String} {errorMsg : String} {e : Throwable}
    (h : checkNotEmpty reference errorMsg = .error e) : e.cls = .illegalArgument := by
  unfold checkNotEmpty at h
  split at h
  · cases h
    rfl
  · cases h

theorem cls_of_checkUserInfo {className : String} {user : User} {e : Throwable}
    (h : checkUserInfo className user = .error e) : e.cls = .illegalArgument := by
  rcases except_bind_eq_error.1 h with h | ⟨-, -, h⟩
  · exact cls_of_checkNotEmpty h
  rcases except_bind_eq_error.1 h with h | ⟨-, -, h⟩
  · exact cls_of_checkNotEmpty h
  · exact cls_of_checkNotEmpty h

/-- The default plugin reads the record of the user id, and the checks on
it are not swallowed. -/
theorem run_loadFrom_default :
    (loadFrom k DefaultLoginPlugin.module).run s =
      match s.cache.read s.lookup k with
      | none => (.ok none, s.afterRead k)
      | some user =>
          ((checkUserInfo DefaultLoginPlugin.className user).map fun _ =>
            some ⟨user, user.authProviderClass⟩, s.afterRead k) := by
  have hload : (DefaultLoginPlugin.module.loadUser k).run s =
      (.ok (s.cache.read s.lookup k), s.afterRead k) := rfl
  rw [loadFrom, Eff.run_tryCatch, Eff.run_bind_of_ok hload]
  rcases s.cache.read s.lookup k with _ | user
  · rfl
  · dsimp only
    rw [Eff.run_ofExcept_bind]
    have hname : DefaultLoginPlugin.module.className = DefaultLoginPlugin.className := rfl
    rcases hcheck : checkUserInfo DefaultLoginPlugin.module.className user with e | x
    · rw [hname] at hcheck
      rw [hcheck]
      dsimp only
      -- only a null pointer exception is swallowed
      rw [if_neg (by rw [cls_of_checkUserInfo hcheck]; decide)]
      rfl
    · rw [hname] at hcheck
      rw [hcheck]
      rfl

/-- **Loading reads the record of the user name through the cache**, and
changes nothing else. -/
theorem state_of_run_loadUserByUsername {x : Except Throwable SecuredUser}
    (h : (loadUserByUsername k (getEnabledModulesByClass plugins)).run s = (x, s')) :
    s' = s.afterRead k := by
  rw [getEnabledModulesByClass, loadUserByUsername, Eff.run_bind, run_loadFrom_default] at h
  rcases hread : s.cache.read s.lookup k with _ | user
  · -- the default plugin has no record: the installed ones are asked
    have hkeep := keeps_loadUserByUsername_map (k := k) plugins (s.afterRead k)
    rw [hread] at h
    dsimp only at h
    rw [h] at hkeep
    exact hkeep.symm
  · rw [hread] at h
    dsimp only at h
    rcases hcheck : checkUserInfo DefaultLoginPlugin.className user with e | y
    · rw [hcheck] at h
      exact (Prod.mk.inj h).2.symm
    · rw [hcheck] at h
      exact (Prod.mk.inj h).2.symm

/-- **A record the service has is the one that is taken.** -/
theorem eq_of_run_loadUserByUsername {user : User} (hread : s.cache.read s.lookup k = some user)
    (h : (loadUserByUsername k (getEnabledModulesByClass plugins)).run s = (.ok u, s')) :
    u = ⟨user, user.authProviderClass⟩ := by
  rw [getEnabledModulesByClass, loadUserByUsername, Eff.run_bind, run_loadFrom_default, hread] at h
  dsimp only at h
  rcases hcheck : checkUserInfo DefaultLoginPlugin.className user with e | y
  · rw [hcheck] at h
    cases h
  · rw [hcheck] at h
    exact (Except.ok.inj (Prod.mk.inj h).1).symm

namespace ZoofficeAuthenticationProvider

/-- `retrieveUser` turns what it catches into another exception. -/
theorem run_retrieveUser_eq_ok :
    (retrieveUser plugins k).run s = (.ok u, s') ↔
      (loadUserByUsername k (getEnabledModulesByClass plugins)).run s = (.ok u, s') := by
  rw [retrieveUser, Eff.run_tryCatch_eq_ok]
  refine or_iff_left ?_
  rintro ⟨e, s₁, -, h⟩
  split at h
  · cases h
  · split at h <;> cases h

theorem state_of_run_retrieveUser (h : (retrieveUser plugins k).run s = (.ok u, s')) :
    s' = s.afterRead k :=
  state_of_run_loadUserByUsername (run_retrieveUser_eq_ok.1 h)

/-- **The provider returns** when a user is loaded who passes the checks on
the account and on the password, and has a role then. -/
theorem run_authenticate_eq_ok {credentials : Option String} :
    (authenticate env ctx plugins k credentials).run s = (.ok u', s') ↔
      ∃ u, (retrieveUser plugins k).run s = (.ok u, s.afterRead k) ∧
        env.accountChecks.preAuthenticationChecks u = .ok () ∧
        (additionalAuthenticationChecks env ctx plugins u credentials).2.run (s.afterRead k) =
          (.ok u', s') ∧
        env.accountChecks.postAuthenticationChecks u' = .ok () ∧
        ∃ roles, u'.getAuthorities = .ok roles := by
  constructor
  · intro h
    obtain ⟨u, s₁, hload, h⟩ := Eff.run_bind_eq_ok.1 h
    have hload := Eff.run_mapError_eq_ok.1 hload
    obtain rfl := state_of_run_retrieveUser hload
    obtain ⟨⟨⟩, hpre, h⟩ := Eff.run_ofExcept_bind_eq_ok.1 h
    obtain ⟨u₁, s₂, hcheck, h⟩ := Eff.run_bind_eq_ok.1 h
    obtain ⟨⟨⟩, hpost, h⟩ := Eff.run_ofExcept_bind_eq_ok.1 h
    obtain ⟨roles, hroles, h⟩ := Eff.run_ofExcept_bind_eq_ok.1 h
    rw [Eff.run_pure, Prod.mk.injEq, Except.ok.injEq] at h
    obtain ⟨rfl, rfl⟩ := h
    exact ⟨u, hload, hpre, hcheck, hpost, roles, hroles⟩
  · rintro ⟨u, hload, hpre, hcheck, hpost, roles, hroles⟩
    refine Eff.run_bind_eq_ok.2 ⟨u, _, Eff.run_mapError_eq_ok.2 hload, ?_⟩
    refine Eff.run_ofExcept_bind_eq_ok.2 ⟨(), hpre, ?_⟩
    refine Eff.run_bind_eq_ok.2 ⟨u', s', hcheck, ?_⟩
    refine Eff.run_ofExcept_bind_eq_ok.2 ⟨(), hpost, ?_⟩
    exact Eff.run_ofExcept_bind_eq_ok.2 ⟨roles, hroles, rfl⟩

/-- It keeps what the loading and the checks of the password keep. -/
theorem keeps_authenticate {R : Store → Store → Prop} [Std.Refl R] [IsTrans Store R]
    {credentials : Option String} (hload : Eff.Keeps R (retrieveUser plugins k))
    (hcheck : ∀ u, Eff.Keeps R (additionalAuthenticationChecks env ctx plugins u credentials).2) :
    Eff.Keeps R (authenticate env ctx plugins k credentials) := by
  refine Eff.keeps_bind (Eff.keeps_mapError hload) fun loaded => ?_
  refine Eff.keeps_bind (Eff.keeps_ofExcept _) fun _ => ?_
  refine Eff.keeps_bind (hcheck loaded) fun checked => ?_
  refine Eff.keeps_bind (Eff.keeps_ofExcept _) fun _ => ?_
  exact Eff.keeps_bind (Eff.keeps_ofExcept _) fun _ => Eff.keeps_pure _

end ZoofficeAuthenticationProvider

namespace ZoofficeAuthenticationPreAuthProvider

/-- So does the other provider, which checks the account alone. -/
theorem run_authenticateLoaded_eq_ok :
    (authenticateLoaded env plugins k).run s = (.ok u, s') ↔
      (loadUserByUsername k (getEnabledModulesByClass plugins)).run s = (.ok u, s') ∧
        env.accountChecks.userDetailsChecker u = .ok () ∧
        ∃ roles, u.getAuthorities = .ok roles := by
  constructor
  · intro h
    obtain ⟨u₁, s₁, hload, h⟩ := Eff.run_bind_eq_ok.1 h
    obtain ⟨⟨⟩, hcheck, h⟩ := Eff.run_ofExcept_bind_eq_ok.1 h
    obtain ⟨roles, hroles, h⟩ := Eff.run_ofExcept_bind_eq_ok.1 h
    rw [Eff.run_pure, Prod.mk.injEq, Except.ok.injEq] at h
    obtain ⟨rfl, rfl⟩ := h
    exact ⟨hload, hcheck, roles, hroles⟩
  · rintro ⟨hload, hcheck, roles, hroles⟩
    refine Eff.run_bind_eq_ok.2 ⟨u, s', hload, ?_⟩
    refine Eff.run_ofExcept_bind_eq_ok.2 ⟨(), hcheck, ?_⟩
    exact Eff.run_ofExcept_bind_eq_ok.2 ⟨roles, hroles, rfl⟩

end ZoofficeAuthenticationPreAuthProvider

/-! ## Storing the record of another provider -/

/-- The record saved for a user has the stored record's user id, or the
provided one. -/
theorem run_addUserIntoLocal_eq_ok
    (h : (addUserIntoLocal env ctx u).run s = (.ok u', s')) :
    ∃ saved, (UserService.saveUser env ctx
        (localRecord env ctx.now u (s.cache.read s.lookup u.user.userId))).run
          (s.afterRead u.user.userId) = (.ok saved, s') ∧ u' = { u with user := saved } := by
  unfold addUserIntoLocal at h
  rw [Eff.run_bind_of_ok (run_getUserById _ s)] at h
  obtain ⟨saved, s₁, hsave, h⟩ := Eff.run_bind_eq_ok.1 h
  rw [Eff.run_pure, Prod.mk.injEq, Except.ok.injEq] at h
  obtain ⟨rfl, rfl⟩ := h
  exact ⟨saved, hsave, rfl⟩

/-- It can be stored when the record can be saved. -/
theorem run_addUserIntoLocal_returns_iff :
    (∃ u' s', (addUserIntoLocal env ctx u).run s = (.ok u', s')) ↔
      ∃ saved s', (UserService.saveUser env ctx
        (localRecord env ctx.now u (s.cache.read s.lookup u.user.userId))).run
          (s.afterRead u.user.userId) = (.ok saved, s') := by
  constructor
  · rintro ⟨u', s', hrun⟩
    obtain ⟨saved, hsave, -⟩ := run_addUserIntoLocal_eq_ok hrun
    exact ⟨saved, s', hsave⟩
  · rintro ⟨saved, s', hsave⟩
    refine ⟨{ u with user := saved }, s', Eff.run_bind_eq_ok.2 ⟨_, _, run_getUserById _ s, ?_⟩⟩
    exact Eff.run_bind_eq_ok.2 ⟨saved, s', hsave, rfl⟩

/-- The record returned by a save is the one saved, under an id. -/
theorem saved_eq {r r' : Repository} {v v' : User} (h : r.save v = .ok (v', r')) :
    ∃ i, v' = { v with id := some i } := by
  rcases save_cases h with ⟨old, c, -, -, -, rfl⟩ | ⟨c, -, -, -, rfl⟩
  · exact ⟨_, rfl⟩
  · exact ⟨_, rfl⟩

/-- The default role is all that `withRole` changes. -/
theorem exists_role_withRole (user : User) :
    ∃ role, withRole user = { user with role := role } := by
  unfold withRole
  split
  · exact ⟨_, rfl⟩
  · exact ⟨user.role, rfl⟩

/-- Merging keeps the user id of a record that has the same one. -/
theorem localRecord_userId {newUser : Option User} {now : Date}
    (h : ∀ v, newUser = some v → v.userId = u.user.userId) :
    (localRecord env now u newUser).userId = u.user.userId := by
  obtain ⟨role, hrole⟩ := exists_role_withRole (mergedRecord env newUser (providedRecord now u))
  rw [localRecord, hrole]
  rcases newUser with _ | v
  · rfl
  · simp only [mergedRecord, User.merge, h v rfl, providedRecord, User.mergeString_self]

/-! ## The filter -/

namespace ZoofficeUsernamePasswordAuthenticationFilter

variable {form : LoginForm} {authentication : Option SecuredUser}

/-- The record the filter saves: the stored one when there is one, with
the time zone and the language of the form. -/
def localizedRecord (form : LoginForm) (securedUser : SecuredUser) (r : Repository) : User :=
  { (r.findOneByUserId securedUser.user.userId).getD securedUser.user with
    timeZone := form.timezone, userLanguage := form.language }

theorem localizedRecord_userId (form : LoginForm) {r : Repository} :
    (localizedRecord form u r).userId = u.user.userId := by
  unfold localizedRecord
  cases hfind : r.findOneByUserId u.user.userId with
  | none => rfl
  | some v =>
      have huser : v.userId = u.user.userId := userId_of_findOneByUserId hfind
      exact huser

theorem run_saveTimezoneAndLanguage_eq_ok
    (h : (saveTimezoneAndLanguage form u).run s = (.ok u', s')) :
    ∃ saved users, s.users.save (localizedRecord form u s.users) = .ok (saved, users) ∧
      s' = { s with users } ∧ u' = { u with user := saved } := by
  unfold saveTimezoneAndLanguage at h
  rw [Eff.run_get_bind] at h
  obtain ⟨saved, s₁, hsave, h⟩ := Eff.run_bind_eq_ok.1 h
  obtain ⟨users, hsaved, rfl⟩ := run_saveRepository_eq_ok.1 hsave
  rw [Eff.run_pure, Prod.mk.injEq, Except.ok.injEq] at h
  exact ⟨saved, users, hsaved, h.2.symm, h.1.symm⟩

/-- **A form login that returned** has loaded a record, passed the check of
the password and saved the time zone and the language. -/
theorem run_attemptAuthentication_eq_ok
    (h : (attemptAuthentication env plugins form authentication).run s = (.ok u', s')) :
    ∃ loaded checked s₁,
      (ZoofficeAuthenticationProvider.retrieveUser plugins form.username).run s =
        (.ok loaded, s.afterRead form.username) ∧
      (ZoofficeAuthenticationProvider.additionalAuthenticationChecks env
        (loginContext form authentication) plugins loaded form.password).2.run
          (s.afterRead form.username) = (.ok checked, s₁) ∧
      (saveTimezoneAndLanguage form checked).run s₁ = (.ok u', s') := by
  unfold attemptAuthentication at h
  obtain ⟨checked, s₁, hauth, h⟩ := Eff.run_bind_eq_ok.1 h
  obtain ⟨loaded, hload, -, hcheck, -⟩ :=
    ZoofficeAuthenticationProvider.run_authenticate_eq_ok.1 hauth
  exact ⟨loaded, checked, s₁, hload, hcheck, h⟩

end ZoofficeUsernamePasswordAuthenticationFilter

end Zooffice
