import Zooffice.Common.Run
import Zooffice.Security.Login
import Zooffice.Security.Model.Session
import Zooffice.Security.Validation
import Zooffice.User.Controller
/-!
# Logins and the stored password

A login of a user with another provider merges the record it has loaded
into the stored one and saves it through the service, which encodes the
password it finds: the stored hash. The hash is kept only when it is its
own hash (`KeepsHash`), or when the login does not get to the save. What
a run keeps is `SamePasswords`, and with it what a password is accepted
for.
-/


namespace Zooffice

open Repository

variable {env : Env} {s s' : Store}

/-- A login through one of the two providers, in its context. -/
inductive ProviderLogin where
  | form (ctx : CallContext) (plugins : List LoginPlugin) (username credentials : Option String)
  | preAuth (ctx : CallContext) (plugins : List LoginPlugin) (username : Option String)
      (details : Option ZoofficeAuthenticationPreAuthProvider.LanguageAndTimezone)

namespace ProviderLogin

/-- The user name that logs in. -/
def username : ProviderLogin → Option String
  | form _ _ username _ => username
  | preAuth _ _ username _ => username

/-- The provider authenticates. -/
def authenticate (env : Env) : ProviderLogin → App SecuredUser
  | form ctx plugins username credentials =>
      ZoofficeAuthenticationProvider.authenticate env ctx plugins username credentials
  | preAuth ctx plugins username details =>
      ZoofficeAuthenticationPreAuthProvider.authenticate env ctx plugins username details

/-- A successful login of a user whose record the default plugin loads. -/
def login (env : Env) (s : Store) (l : ProviderLogin) : Option Store :=
  match s.cache.read s.lookup l.username, (l.authenticate env).run s with
  | some _, (.ok _, s') => some s'
  | _, _ => none

/-- Whether the login of the account gets to the save: its provider is not
the default plugin, and the checks do not return at once. -/
def storesAgain (l : ProviderLogin) (a : Account) : Bool :=
  isProvidedElsewhere ⟨a.toUser, a.authProviderClass⟩ &&
    match l with
    | form ctx _ _ _ => ctx.authentication.isNone
    | preAuth _ _ _ _ => true

end ProviderLogin

open ProviderLogin

/-- Every account is there with the same user id, password and provider. -/
def SamePasswords (r r' : Repository) : Prop :=
  ∀ a ∈ r, ∃ b ∈ r', b.id = a.id ∧ b.userId = a.userId ∧ b.password = a.password ∧
    b.authProviderClass = a.authProviderClass

theorem SamePasswords.refl (r : Repository) : SamePasswords r r :=
  fun a ha => ⟨a, ha, rfl, rfl, rfl, rfl⟩

theorem SamePasswords.trans {r r' r'' : Repository} (h : SamePasswords r r')
    (h' : SamePasswords r' r'') : SamePasswords r r'' := by
  intro a ha
  obtain ⟨b, hb, hid, huser, hpass, hprov⟩ := h a ha
  obtain ⟨c, hc, hid', huser', hpass', hprov'⟩ := h' b hb
  exact ⟨c, hc, hid'.trans hid, huser'.trans huser, hpass'.trans hpass, hprov'.trans hprov⟩

/-- The stored hash of an account that is saved again is its own hash. -/
def KeepsHash (env : Env) (s : Store) (l : ProviderLogin) : Prop :=
  ∀ a ∈ s.users, l.username = some a.userId → l.storesAgain a = true →
    ∀ p e, a.password = some p → isNotBlank (some p) = true →
      env.passwordEncoder.encodePassword p (some a.userId) = .ok e → e = p

/-! ## One login -/

/-- What a login may do to the store: the cache stays coherent, and the
accounts keep their passwords when the guard `G` holds. -/
def Outcome (G : Prop) (s s' : Store) : Prop :=
  s'.cache.Coherent s'.lookup ∧ (G → SamePasswords s.users s'.users)

/-- The details were loaded from the account: what else the provider sets
in them does not matter. -/
structure LoadedFrom (a : Account) (u : SecuredUser) : Prop where
  id : u.user.id = some a.id
  userId : u.user.userId = some a.userId
  password : u.user.password = a.password
  provider : u.userInfoProviderClass = a.authProviderClass

theorem loadedFrom_toUser (a : Account) : LoadedFrom a ⟨a.toUser, a.authProviderClass⟩ :=
  ⟨rfl, rfl, rfl, rfl⟩

/-- The record that is saved again has the account's id, user id, password
and provider. -/
theorem localRecord_of_loadedFrom (env : Env) (now : Date) {a : Account} {u : SecuredUser}
    (h : LoadedFrom a u) :
    (localRecord env now u (some a.toUser)).id = some a.id ∧
      (localRecord env now u (some a.toUser)).userId = some a.userId ∧
      (localRecord env now u (some a.toUser)).password = a.password ∧
      (localRecord env now u (some a.toUser)).authProviderClass = a.authProviderClass := by
  obtain ⟨role, hrole⟩ := exists_role_withRole
    (mergedRecord env (some a.toUser) (providedRecord now u))
  rw [localRecord, hrole]
  simp [mergedRecord, providedRecord, User.merge, Account.toUser, h.id, h.userId, h.password,
    h.provider]

/-- A read through a coherent cache returns a stored account. -/
theorem account_of_read {k : Option String} {v : User} (h : s.cache.Coherent s.lookup)
    (hread : s.cache.read s.lookup k = some v) :
    ∃ a ∈ s.users, k = some a.userId ∧ v = a.toUser := by
  rw [h.read_eq] at hread
  obtain ⟨a, ha, hk, rfl⟩ := findOneByUserId_eq_some_iff.1 hread
  exact ⟨a, ha, hk.symm, rfl⟩

/-- An update of the account that keeps its user id, and evicts that,
leaves the cache coherent. -/
theorem coherent_of_updates {old row : Account} {users : Repository}
    (h : s.cache.Coherent s.lookup) (hup : s.users.Updates old row users)
    (huser : row.userId = old.userId) :
    (s.cache.evict (some old.userId)).Coherent (Store.lookup ⟨users, s.cache⟩) := by
  refine (Cache.coherent_evict_iff h).2 fun k hk _ => ?_
  exact hup.findOneByUserId (by rwa [huser]) hk

/-- **A record that is stored again** keeps its user id and its provider,
and its password when the hash that is encoded again is its own. -/
theorem columns_of_storedAgain {a : Account} {w stamped enc : User} {c : Columns}
    (huser : w.userId = some a.userId) (hpass : w.password = a.password)
    (hprov : w.authProviderClass = a.authProviderClass) (hst : Stamped w stamped)
    (henc : Encoded env stamped enc) (hstores : Stores enc c) :
    c.userId = a.userId ∧ c.authProviderClass = a.authProviderClass ∧
      ((∀ p e, a.password = some p → isNotBlank (some p) = true →
        env.passwordEncoder.encodePassword p (some a.userId) = .ok e → e = p) →
        c.password = a.password) := by
  refine ⟨?_, ?_, fun hguard => ?_⟩
  · have hcuser := hstores.userId
    rw [henc.userId_eq, hst.userId_eq, huser, Option.some.injEq] at hcuser
    exact hcuser.symm
  · rw [hstores.authProviderClass]
    obtain ⟨p, rfl⟩ := henc.exists_password
    obtain ⟨_, _, _, _, rfl⟩ := hst
    exact hprov
  · rw [hstores.password]
    -- a blank password is stored as it is, any other is hashed again
    rcases henc with ⟨-, rfl⟩ | ⟨p, e, hp, hnb, he, rfl⟩
    · exact hst.password_eq.trans hpass
    · have hap : a.password = some p := hpass.symm.trans (hst.password_eq.symm.trans hp)
      rw [hst.userId_eq, huser] at he
      rw [hap, hguard p e hap hnb he]

/-- **Saving the account again** encodes its hash. -/
theorem outcome_of_addUserIntoLocal {ctx : CallContext} {a : Account} {u u' : SecuredUser}
    (hcoherent : s.cache.Coherent s.lookup) (ha : a ∈ s.users) (hloaded : LoadedFrom a u)
    (h : (addUserIntoLocal env ctx u).run s = (.ok u', s')) :
    Outcome (∀ p e, a.password = some p → isNotBlank (some p) = true →
      env.passwordEncoder.encodePassword p (some a.userId) = .ok e → e = p) s s' := by
  obtain ⟨saved, hsave, -⟩ := run_addUserIntoLocal_eq_ok h
  rw [hloaded.userId, hcoherent.read_eq, Store.lookup, findOneByUserId_of_mem ha] at hsave
  obtain ⟨hid, huser, hpass, hprov⟩ := localRecord_of_loadedFrom env ctx.now hloaded
  obtain ⟨stamped, enc, users, hst, henc, hsaved, rfl⟩ := run_saveUser_eq_ok hsave
  have hst := stamped_of_beforeSave hst
  have hencId := henc.id_eq.trans (hst.id_eq.trans hid)
  rcases save_cases hsaved with ⟨old, c, hold, hstores, hup, -⟩ | ⟨c, hnew, -⟩
  · -- the record has the account's id, so this account is updated
    obtain rfl : old = a := by
      rw [hencId, Option.some.injEq] at hold
      exact eq_of_id_eq hup.mem_old ha hold.symm
    obtain ⟨hcuser, hcprov, hcpass⟩ :=
      columns_of_storedAgain huser hpass hprov hst henc hstores
    refine ⟨?_, fun hguard b hb => ?_⟩
    · rw [huser]
      exact coherent_of_updates (hcoherent.afterRead _) hup hcuser
    · by_cases hbo : b.id = old.id
      · obtain rfl : b = old := eq_of_id_eq hb ha hbo
        exact ⟨updatedRow b c, hup.row_mem, rfl, hcuser, hcpass hguard, hcprov⟩
      · exact ⟨b, (hup.mem_iff b).2 (Or.inr ⟨hb, hbo⟩), rfl, rfl, rfl, rfl⟩
  · exact absurd hencId (hnew a ha)

/-- **One login** keeps the cache coherent, and the passwords when the
hash that is encoded again is its own. -/
theorem outcome_of_login {l : ProviderLogin} (hcoherent : s.cache.Coherent s.lookup)
    (h : login env s l = some s') : Outcome (KeepsHash env s l) s s' := by
  unfold login at h
  split at h
  · next v x u' s₁ hread hrun =>
      cases h
      obtain ⟨a, ha, hk, rfl⟩ := account_of_read hcoherent hread
      have hafter : (s.afterRead l.username).cache.Coherent (s.afterRead l.username).lookup :=
        hcoherent.afterRead _
      have hquiet : Outcome (KeepsHash env s l) s (s.afterRead l.username) :=
        ⟨hafter, fun _ => SamePasswords.refl _⟩
      -- both providers end in the same save, or in none
      have hagain : ∀ {ctx u u' s'}, LoadedFrom a u → l.storesAgain a = true →
          (addUserIntoLocal env ctx u).run (s.afterRead l.username) = (.ok u', s') →
          Outcome (KeepsHash env s l) s s' := by
        intro ctx u u' s' hloaded hstores hadd
        obtain ⟨hcoh, hkeep⟩ := outcome_of_addUserIntoLocal hafter ha hloaded hadd
        exact ⟨hcoh, fun hguard => hkeep (hguard a ha hk hstores)⟩
      cases l with
      | form ctx plugins username credentials =>
          obtain ⟨loaded, hload, -, hcheck, -⟩ :=
            ZoofficeAuthenticationProvider.run_authenticate_eq_ok.1 hrun
          have hloaded := eq_of_run_loadUserByUsername hread
            (ZoofficeAuthenticationProvider.run_retrieveUser_eq_ok.1 hload)
          subst hloaded
          rcases run_checks_cases hcheck with ⟨-, -, rfl⟩ | ⟨⟨hprov, hctx⟩, hadd⟩
          · exact hquiet
          · exact hagain (loadedFrom_toUser a) (by simp [storesAgain, hctx]; exact hprov) hadd
      | preAuth ctx plugins username details =>
          obtain ⟨loaded, s₂, hfirst, hadd⟩ := Eff.run_bind_eq_ok.1 hrun
          have hload :=
            (ZoofficeAuthenticationPreAuthProvider.run_authenticateLoaded_eq_ok.1 hfirst).1
          have hs₂ := state_of_run_loadUserByUsername hload
          have hloaded := eq_of_run_loadUserByUsername hread hload
          subst hs₂ hloaded
          dsimp only at hadd
          split at hadd
          · next hprov =>
              refine hagain ?_ ?_ hadd
              · rcases details with _ | d
                · exact loadedFrom_toUser a
                · exact ⟨rfl, rfl, rfl, rfl⟩
              · rw [storesAgain, Bool.and_true, ← hprov]
                rcases details with _ | d <;> rfl
          · rw [Eff.run_pure, Prod.mk.injEq] at hadd
            exact hadd.2 ▸ hquiet
  · cases h

/-! ## Runs of logins -/

/-- What a password is accepted for depends on the user id, the stored
password and the provider alone. -/
theorem authorize_congr {encoder : PasswordEncoder} {salt : Option String} {u v : SecuredUser}
    {password : String} (hname : v.getUsername = u.getUsername)
    (hpass : v.getPassword = u.getPassword)
    (hprov : v.getAuthProviderClass = u.getAuthProviderClass)
    (hinfo : v.userInfoProviderClass = u.userInfoProviderClass) (enabled : List OnLoginRunnable) :
    ZoofficeAuthenticationProvider.authorize encoder salt v password enabled =
      ZoofficeAuthenticationProvider.authorize encoder salt u password enabled := by
  induction enabled with
  | nil => rfl
  | cons each rest ih =>
      simp only [ZoofficeAuthenticationProvider.authorize, hname, hpass, hprov, hinfo, ih]

theorem accepts_congr {a b : Account} (huser : b.userId = a.userId)
    (hpass : b.password = a.password) (hprov : b.authProviderClass = a.authProviderClass)
    (plugins : List LoginPlugin) (credentials : Option String) :
    accepts env plugins ⟨b.toUser, b.authProviderClass⟩ credentials =
      accepts env plugins ⟨a.toUser, a.authProviderClass⟩ credentials := by
  cases credentials with
  | none => rfl
  | some password =>
      have hname : (⟨b.toUser, b.authProviderClass⟩ : SecuredUser).getUsername =
          (⟨a.toUser, a.authProviderClass⟩ : SecuredUser).getUsername := congrArg some huser
      have hclass : (⟨b.toUser, b.authProviderClass⟩ : SecuredUser).getAuthProviderClass =
          (⟨a.toUser, a.authProviderClass⟩ : SecuredUser).getAuthProviderClass := by
        change (if isNotEmpty b.authProviderClass then b.authProviderClass
          else b.authProviderClass) = _
        rw [hprov]
        rfl
      simp only [accepts, getSalt, hname]
      rw [authorize_congr hname hpass hclass hprov]

/-- **Logins keep the stored passwords**, and what is accepted for them,
in every run of successful logins that encode no hash but its own. -/
theorem passwords_kept (env : Env) (s s' : Store) (logins : List ProviderLogin)
    (hcoherent : s.cache.Coherent s.lookup) (hguard : Along (login env) (KeepsHash env) s logins)
    (hrun : perform (login env) s logins = some s') :
    ∀ a ∈ s.users, ∃ b ∈ s'.users, b.id = a.id ∧ b.password = a.password ∧
      ∀ plugins credentials,
        accepts env plugins ⟨a.toUser, a.authProviderClass⟩ credentials = true →
          accepts env plugins ⟨b.toUser, b.authProviderClass⟩ credentials = true := by
  have hinv := perform_invariant
    (I := fun t => t.cache.Coherent t.lookup ∧ SamePasswords s.users t.users)
    (fun t l t' ht hg hstep => by
      obtain ⟨hcoh, hkeep⟩ := outcome_of_login ht.1 hstep
      exact ⟨hcoh, ht.2.trans (hkeep hg)⟩)
    ⟨hcoherent, SamePasswords.refl _⟩ hguard hrun
  intro a ha
  obtain ⟨b, hb, hid, huser, hpass, hprov⟩ := hinv.2 a ha
  refine ⟨b, hb, hid, hpass, fun plugins credentials hacc => ?_⟩
  rwa [accepts_congr huser hpass hprov]

/-- A user of another provider is created with a password. -/
def createSsoForm : SaveRequest where
  now := 1
  principal := ⟨{ id := some 1, userId := some "admin", role := some Role.admin }, none⟩
  updatedUser :=
    { userId := some "carol", userName := some "carol", email := some "carol@nhn.com",
      password := some "secret", role := some Role.user,
      authProviderClass := some "com.example.SsoLogin" }
  followersStr := none

/-- The store with that user, and nothing cached. -/
def ssoStore : Store :=
  ⟨(createSsoForm.run plaintextEnv DBInit.plaintextStarted).2.users, Cache.empty⟩

/-- A login outside a session. -/
def formLogin (username password : String) : ProviderLogin :=
  .form ⟨2, false, none⟩ [] (some username) (some password)

/-- The store after some logins. -/
def storeAfter (logins : List ProviderLogin) : Store :=
  (perform (login plaintextEnv) ssoStore logins).getD ssoStore

/-- Beans whose encoder leaves a password as it is, so that each stored hash
is its own hash. -/
def noOpEnv : Env :=
  { plaintextEnv with
    passwordEncoder := ⟨fun rawPass _ => .ok rawPass,
      fun encPass rawPass _ => .ok (encPass == some rawPass)⟩ }

/-- The store with the user of another provider, under these beans. -/
def noOpStore : Store :=
  ⟨(createSsoForm.run noOpEnv DBInit.plaintextStarted).2.users, Cache.empty⟩

/-- That user logs in with the form and from another system. -/
def ssoLogins : List ProviderLogin :=
  [formLogin "carol" "secret", .preAuth ⟨3, false, none⟩ [] (some "carol") none]

/-- The store after both. -/
def storeAfterSso : Store := (perform (login noOpEnv) noOpStore ssoLogins).getD noOpStore

theorem keepsHash_noOpEnv (s : Store) (l : ProviderLogin) : KeepsHash noOpEnv s l :=
  fun _ _ _ _ _ _ _ _ hencode => (Except.ok.inj hencode).symm

/-- Both logins of the user store the record again. -/
theorem passwords_kept_ssoLogins :
    perform (login noOpEnv) noOpStore ssoLogins = some storeAfterSso ∧
      ∃ a ∈ noOpStore.users, (∀ l ∈ ssoLogins, l.storesAgain a = true) ∧
        ∃ b ∈ storeAfterSso.users, b.id = a.id ∧ b.password = a.password ∧
          ∀ plugins credentials,
            accepts noOpEnv plugins ⟨a.toUser, a.authProviderClass⟩ credentials = true →
              accepts noOpEnv plugins ⟨b.toUser, b.authProviderClass⟩ credentials = true := by
  have hrun : perform (login noOpEnv) noOpStore ssoLogins = some storeAfterSso :=
    perform_eq_some_getD (by decide +kernel) _
  obtain ⟨u, hu⟩ : ∃ u, noOpStore.users.findOneByUserId (some "carol") = some u := ⟨_, rfl⟩
  obtain ⟨a, ha, -, rfl⟩ := findOneByUserId_eq_some_iff.1 hu
  have hprov : some (some a.toUser.authProviderClass) = some (some (some "com.example.SsoLogin")) :=
    congrArg (Option.map fun v : User => some v.authProviderClass) hu.symm
  have hclass : a.authProviderClass = some "com.example.SsoLogin" :=
    Option.some.inj (Option.some.inj hprov)
  refine ⟨hrun, a, ha, fun l hl => ?_, passwords_kept noOpEnv noOpStore _ ssoLogins
    (Cache.coherent_empty _) (along_of_forall (fun l _ s => keepsHash_noOpEnv s l) _) hrun a ha⟩
  rcases List.mem_cons.1 hl with rfl | hl
  · simp [storesAgain, isProvidedElsewhere, hclass, formLogin, DefaultLoginPlugin.className]
  · obtain rfl := List.mem_singleton.1 hl
    simp [storesAgain, isProvidedElsewhere, hclass, DefaultLoginPlugin.className]

/-- **The first login of such a user hashes the stored hash.** The second
one, with the same password, is refused. -/
theorem not_passwords_kept_ssoUser :
    perform (login plaintextEnv) ssoStore [formLogin "carol" "secret"] =
        some (storeAfter [formLogin "carol" "secret"]) ∧
      (¬ ∀ a ∈ ssoStore.users, ∃ b ∈ (storeAfter [formLogin "carol" "secret"]).users,
        b.id = a.id ∧ b.password = a.password) ∧
      login plaintextEnv (storeAfter [formLogin "carol" "secret"])
        (formLogin "carol" "secret") = none := by
  refine ⟨rfl, fun hkept => ?_, rfl⟩
  have hbefore : (ssoStore.users.findOne 5).map User.password =
      some (some "secret\x7bcarol\x7d") := by rfl
  have hafter : ((storeAfter [formLogin "carol" "secret"]).users.findOne 5).map User.password =
      some (some "secret\x7bcarol\x7d\x7bcarol\x7d") := by rfl
  obtain ⟨u, hfind, hu⟩ := Option.map_eq_some_iff.1 hbefore
  obtain ⟨a, ha, haid, rfl⟩ := findOne_eq_some_iff.1 hfind
  obtain ⟨b, hb, hid, hpass⟩ := hkept a ha
  rw [findOne_eq_some_iff.2 ⟨b, hb, hid.trans haid, rfl⟩, Option.map_some] at hafter
  have hsame : b.password = some "secret\x7bcarol\x7d" := hpass.trans hu
  have hnew : b.password = some "secret\x7bcarol\x7d\x7bcarol\x7d" := Option.some.inj hafter
  rw [hnew] at hsame
  exact absurd hsame (by decide)

end Zooffice
