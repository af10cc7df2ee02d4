import Zooffice.Security.Pinned
import Zooffice.Security.Recorded
import Zooffice.User.Password
/-!
# An account that no other plugin provides

A save request that creates such an account, or changes its password, leaves
under its user id the record that the request has submitted. What does not
concern the account keeps what is told of it, and the one who logs in with
its user id, while it is enabled, is whoever has a password that the encoder
takes for the stored one.
-/


namespace Zooffice

open Repository UserController ZoofficeAuthenticationProvider
  ZoofficeUsernamePasswordAuthenticationFilter

variable {env : Env} {s s' t : Store} {k e : String} {i : Int} {u u' : SecuredUser} {c : Prop}
  {plugins : List LoginPlugin} {form : LoginForm}

/-! ## What is told of it -/

/-- It concerns the account: a save submits its id, a deletion names its
user id, or a plugin provides a record with one of the two. -/
def Concerns (k : String) (i : Int) : Activity → Prop
  | .request (.save q) => q.updatedUser.id = some i
  | .request (.delete _ userIds) => k ∈ ids userIds
  | a => ∃ p ∈ a.plugins, ∃ name v, p.loadUser name = .ok (some v) ∧
      (v.userId = some k ∨ v.id = some i)

/-- Neither the user id nor the name nor the email is empty. -/
def Complete (v : User) : Prop :=
  isEmpty v.userId = false ∧ isEmpty v.userName = false ∧ isEmpty v.email = false

theorem checkNotEmpty_eq_ok {reference : Option String} {errorMsg : String} :
    checkNotEmpty reference errorMsg = .ok () ↔ isEmpty reference = false := by
  unfold checkNotEmpty
  split
  · next h => simp [h]
  · next h => simp [h]

/-- A record passes the checks when it is complete. -/
theorem checkUserInfo_eq_ok (className : String) {v : User} :
    checkUserInfo className v = .ok () ↔ Complete v := by
  refine except_bind_eq_ok.trans ⟨?_, fun ⟨huser, hname, hemail⟩ => ?_⟩
  · rintro ⟨⟨⟩, huser, h⟩
    obtain ⟨⟨⟩, hname, hemail⟩ := except_bind_eq_ok.1 h
    exact ⟨checkNotEmpty_eq_ok.1 huser, checkNotEmpty_eq_ok.1 hname, checkNotEmpty_eq_ok.1 hemail⟩
  · exact ⟨⟨⟩, checkNotEmpty_eq_ok.2 huser,
      except_bind_eq_ok.2 ⟨⟨⟩, checkNotEmpty_eq_ok.2 hname, checkNotEmpty_eq_ok.2 hemail⟩⟩

/-- It can be logged into: it is complete, and enabled. -/
def LetsIn (v : User) : Prop := Complete v ∧ v.enabled = true

/-- **The record of an account that no other plugin provides**: its id, its
encoded password, and whether it can be logged into. -/
structure IsLocal (i : Int) (e : String) (c : Prop) (v : User) : Prop where
  id : v.id = some i
  password : v.password = some e
  provider : isProvidedElsewhere ⟨v, v.authProviderClass⟩ = false
  role : ∃ role, v.role = some role
  letsIn : LetsIn v ↔ c

/-- There is such a record. -/
def Told (i : Int) (e : String) (c : Prop) (o : Option User) : Prop :=
  ∃ v, o = some v ∧ IsLocal i e c v

theorem isLocal_of_told {v : User} (h : Told i e c (some v)) : IsLocal i e c v := by
  obtain ⟨v, ⟨⟩, hv⟩ := h
  exact hv

theorem firm_told : Firm (Told i e c) where
  localized v _ _ h :=
    have hv := isLocal_of_told h
    ⟨_, rfl, hv.id, hv.password, hv.provider, hv.role, hv.letsIn⟩
  own v h := (isLocal_of_told h).provider
  single v _ := by
    rintro ⟨v, ⟨⟩, -⟩

/-- What does not concern the account spares its user id. -/
theorem spares_of_not_concerns {a : Activity} (h : Pinned k (Told i e c) s)
    (ha : ¬ Concerns k i a) : Spares k s a := by
  obtain ⟨x, hx, hlocal⟩ := h.stored
  have hisOf : ∀ id, IsOf s k id → id = some i := by
    rintro id ⟨y, hy, rfl⟩
    rw [hx] at hy
    obtain rfl := Option.some.inj hy
    exact hlocal.id
  have hothers : (¬ ∃ p ∈ a.plugins, ∃ name v, p.loadUser name = .ok (some v) ∧
      (v.userId = some k ∨ v.id = some i)) → ProvideOthers k s a.plugins :=
    fun hnot p hp name v hload =>
      ⟨fun hk => hnot ⟨p, hp, name, v, hload, .inl hk⟩,
        fun hof => hnot ⟨p, hp, name, v, hload, .inr (hisOf _ hof)⟩⟩
  cases a with
  | request q =>
      cases q with
      | save q => exact ⟨fun hof => ha (hisOf _ hof), fun _ => hx ▸ rfl⟩
      | delete principal userIds => exact fun _ => ha
  | getUserById userId => exact hothers ha
  | formLogin plugins form authentication => exact hothers ha
  | preAuthLogin ctx plugins username details => exact hothers ha

/-- What is stored of such a record is one. -/
theorem isLocal_of_columns {v w : User} {a : Account} (huser : v.userId = some a.userId)
    (hname : a.userName = v.userName) (hemail : a.email = v.email)
    (henabled : a.enabled = v.enabled)
    (hpassword : a.password = some e) (hclass : a.authProviderClass = w.authProviderClass)
    (hprovider : isProvidedElsewhere ⟨w, w.authProviderClass⟩ = false) :
    IsLocal a.id e (LetsIn v) a.toUser where
  id := rfl
  password := hpassword
  provider := by
    rw [← hprovider]
    simp only [isProvidedElsewhere, Account.toUser, hclass]
  role := ⟨a.role, rfl⟩
  letsIn := by
    simp only [LetsIn, Complete, Account.toUser, huser, hname, hemail, henabled]

/-- A password that is not blank is encoded with the user id as its salt. -/
theorem exists_encoded {v enc : User} {p : String} (h : Encoded env v enc)
    (hpassword : v.password = some p) (hblank : isNotBlank (some p) = true) :
    ∃ e, env.passwordEncoder.encodePassword p v.userId = .ok e ∧
      enc = { v with password := some e } := by
  rcases h with ⟨hnot, -⟩ | ⟨p', e, hp', -, hencode, henc⟩
  · rw [hpassword, hblank] at hnot
    cases hnot
  · obtain rfl : p = p' := Option.some.inj (hpassword.symm.trans hp')
    exact ⟨e, hencode, henc⟩

/-- **A record that was written and whose user id was evicted** is what is
told of the user id, when no cached record has its id. -/
theorem told_of_row {row : Account} {cache : Cache (Option String) (Option User)}
    (hmem : row ∈ s'.users) (hlocal : IsLocal i e c row.toUser)
    (hevict : s'.cache = cache.evict (some row.userId))
    (hkeyed : ∀ key v, cache.get? key = some (some v) → v.userId = key)
    (hapart : ∀ key v, cache.get? key = some (some v) → key ≠ some row.userId →
      v.id ≠ some row.id) : Pinned row.userId (Told i e c) s' := by
  have hlookup : s'.lookup (some row.userId) = some row.toUser := findOneByUserId_of_mem hmem
  have hentries : ∀ key v, s'.cache.get? key = some v →
      key ≠ some row.userId ∧ cache.get? key = some v := by
    rw [hevict]
    exact fun _ _ => Cache.get?_evict_eq_some_iff.1
  refine ⟨⟨_, hlookup, hlocal⟩, fun v hv => ?_, fun key v hv => ?_, fun key v x hv hx hid => ?_⟩
  · exact absurd rfl (hentries _ v hv).1
  · exact hkeyed key v (hentries _ _ hv).2
  · obtain ⟨hkey, hold⟩ := hentries _ _ hv
    obtain rfl := Option.some.inj (hlookup.symm.trans hx)
    exact absurd hid (hapart key v hold hkey)

/-- **The request that created the account** leaves its record under the
user id. -/
theorem told_of_create {q : SaveRequest} {url p : String} (h : Recorded s)
    (hsave : q.run env s = (.ok url, s')) (hnew : q.updatedUser.exist = false)
    (huser : q.updatedUser.userId = some k) (hpassword : q.updatedUser.password = some p)
    (hblank : isNotBlank (some p) = true)
    (hprovider : isProvidedElsewhere ⟨q.updatedUser, q.updatedUser.authProviderClass⟩ = false) :
    ∃ e, env.passwordEncoder.encodePassword p (some k) = .ok e ∧
      Pinned k (Told s.users.sequence e (LetsIn q.updatedUser)) s' := by
  obtain ⟨-, -, submitted, s₁, hsub, hwrite⟩ := save_cases hsave
  have h₁ : Recorded s₁ := by
    rcases hsub with ⟨-, found, -, -, -, rfl⟩ | ⟨-, -, rfl⟩
    · exact (recordedAfter_getUserById q.updatedUser.userId s).2 h
    · exact h
  have hcreates : Creates env submitted s₁ s' := by
    rcases hwrite with ⟨hexist, -⟩ | ⟨-, hcreates⟩
    · rw [exist_congr hsub.id_eq, hnew] at hexist
      cases hexist
    · exact hcreates
  obtain ⟨stamped, enc, columns, hst, henc, hstores, hins, hcache⟩ := hcreates
  rw [hsub.users_eq] at hins
  obtain ⟨role, rfl⟩ := hsub.exists_role
  obtain ⟨cd, cu, md, mu, rfl⟩ := hst
  obtain ⟨e, hencode, rfl⟩ := exists_encoded henc hpassword hblank
  obtain rfl : columns.userId = k := Option.some.inj (hstores.userId.symm.trans huser)
  let row : Account := ⟨columns, s.users.sequence⟩
  have hlocal := isLocal_of_columns (a := row) hstores.userId hstores.userName hstores.email
    hstores.enabled hstores.password hstores.authProviderClass hprovider
  have hevict : s'.cache = s₁.cache.evict (some row.userId) := huser ▸ hcache
  refine ⟨e, huser ▸ hencode, told_of_row hins.row_mem hlocal hevict h₁.keyed ?_⟩
  -- the id of the account is one that no cached record has
  intro key v hv _ hid
  obtain ⟨j, hj, hlt⟩ := h₁.issued key v hv
  obtain rfl : j = s.users.sequence := Option.some.inj (hj.symm.trans hid)
  rw [hsub.users_eq] at hlt
  exact absurd hlt (Int.lt_irrefl _)

/-- **The request that changed the password** leaves the account under its
user id, with the new one. -/
theorem told_of_change {q : SaveRequest} {url p : String} {a : Account}
    (hneverBlank : NeverBlank env.passwordEncoder) (h : s.cache.Coherent s.lookup)
    (ha : a ∈ s.users) (hsave : q.run env s = (.ok url, s'))
    (hid : q.updatedUser.id = some a.id) (huser : q.updatedUser.userId = some a.userId)
    (hpassword : q.updatedUser.password = some p) (hblank : isNotBlank (some p) = true)
    (hclass : isNotBlank q.updatedUser.authProviderClass = false)
    (hprovider : isProvidedElsewhere ⟨a.toUser, a.authProviderClass⟩ = false) :
    ∃ e, env.passwordEncoder.encodePassword p (some a.userId) = .ok e ∧
      Pinned a.userId (Told a.id e (LetsIn (a.toUser.merge env.toLowerCase q.updatedUser)))
        s' := by
  obtain ⟨-, -, submitted, s₁, hsub, hwrite⟩ := save_cases hsave
  have h₁ : s₁.cache.Coherent s.lookup := by
    rcases hsub with ⟨-, found, -, -, -, rfl⟩ | ⟨-, -, rfl⟩
    · exact h.afterRead _
    · exact h
  have hsubmitted : submitted.id = some a.id := hsub.id_eq.trans hid
  rcases hwrite with ⟨-, old, enc, columns, hold, henc, hstores, hup, hcache⟩ | ⟨hnew, -⟩
  · rw [hsub.users_eq] at hup
    obtain rfl : old = a :=
      eq_of_id_eq hup.mem_old ha (Option.some.inj (hold.symm.trans hsubmitted))
    obtain ⟨role, rfl⟩ := hsub.exists_role
    obtain ⟨e, hencode, rfl⟩ := exists_encoded henc hpassword hblank
    have hrow : columns.userId = old.userId := userId_of_merge_blank hstores (Or.inr huser)
    have hencoded : isNotBlank (some e) = true := hneverBlank p _ e hblank hencode
    have hlocal := isLocal_of_columns (w := old.toUser) (a := updatedRow old columns)
      hstores.userId hstores.userName hstores.email hstores.enabled
      (hstores.password.trans (User.mergeString_of_notBlank hencoded))
      (hstores.authProviderClass.trans (User.mergeString_of_blank hclass)) hprovider
    have hevict : s'.cache = s₁.cache.evict (some (updatedRow old columns).userId) := by
      rw [hcache]
      exact congrArg _ (huser.trans (congrArg some hrow.symm))
    refine ⟨e, huser ▸ hencode, hrow ▸ told_of_row hup.row_mem hlocal hevict ?_ ?_⟩
    · exact fun key v hv => userId_of_findOneByUserId (h₁ key _ hv).symm
    · -- a cached record with the id is the account's, so it is under its user id
      intro key v hv hkey hvid
      obtain ⟨b, hb, hbk, rfl⟩ := findOneByUserId_eq_some_iff.1 (h₁ key _ hv).symm
      obtain rfl := eq_of_id_eq hb ha (Option.some.inj hvid)
      exact hkey (hbk.symm.trans (congrArg some hrow.symm))
  · exact absurd hsubmitted (id_ne_of_not_exist hnew a ha)

/-- What does not concern the account keeps what is told of it. -/
theorem told_of_perform {as : List Activity} (h : Pinned k (Told i e c) s)
    (hconcerns : ∀ a ∈ as, ¬ Concerns k i a) (hrun : perform (happen env) s as = some t) :
    Pinned k (Told i e c) t :=
  perform_invariant (G := fun _ a => ¬ Concerns k i a)
    (fun _ _ _ hs ha hstep => pinned_of_happen firm_told hs (spares_of_not_concerns hs ha) hstep)
    h (along_of_forall (fun a ha _ => hconcerns a ha) s) hrun

/-! ## Who logs in -/

/-- A complete record is loaded as it is read. -/
theorem run_retrieveUser_of_read (plugins : List LoginPlugin) {name : Option String} {v : User}
    (hread : s.cache.read s.lookup name = some v) (hcomplete : Complete v) :
    (retrieveUser plugins name).run s = (.ok ⟨v, v.authProviderClass⟩, s.afterRead name) := by
  refine run_retrieveUser_eq_ok.2 (Eff.run_bind_eq_ok.2 ⟨some ⟨v, v.authProviderClass⟩, _, ?_, rfl⟩)
  rw [run_loadFrom_default, hread]
  dsimp only
  rw [(checkUserInfo_eq_ok _).2 hcomplete]
  rfl

/-- A record that no other plugin provides is the default plugin's. -/
theorem isDefaultUser_of_provider {v : User}
    (h : isProvidedElsewhere ⟨v, v.authProviderClass⟩ = false) :
    isDefaultUser ⟨v, v.authProviderClass⟩ = true := by
  unfold isProvidedElsewhere at h
  unfold isDefaultUser SecuredUser.getAuthProviderClass
  cases hclass : v.authProviderClass with
  | none => rfl
  | some cls =>
      simp only [hclass, Option.isSome_some, Bool.true_and, bne_eq_false_iff_eq] at h
      simp [h]

/-- The default plugin lets in whom the encoder lets in. -/
theorem validateUser_eq_ok_iff {encoder : PasswordEncoder} {userId encPass salt : Option String}
    {password : String} :
    (∃ b, DefaultLoginPlugin.validateUser userId password encPass encoder salt = .ok b) ↔
      encoder.isPasswordValid encPass password salt = .ok true := by
  unfold DefaultLoginPlugin.validateUser
  constructor
  · rintro ⟨b, hb⟩
    obtain ⟨valid, hvalid, hb⟩ := except_bind_eq_ok.1 hb
    cases valid with
    | true => exact hvalid
    | false => cases hb
  · intro hvalid
    exact ⟨true, except_bind_eq_ok.2 ⟨true, hvalid, rfl⟩⟩

/-- The default plugin decides on its users. -/
theorem decidingAnswer_of_default {password : String} (h : isDefaultUser u = true) :
    decidingAnswer env plugins u password =
      some (DefaultLoginPlugin.validateUser u.getUsername password u.getPassword
        env.passwordEncoder u.getUsername) := by
  have htakes : TakesPart u DefaultLoginPlugin.module.className := Or.inl rfl
  have hdecides : decidingPlugin env plugins u password = some DefaultLoginPlugin.module := by
    rw [decidingPlugin, deciding, getEnabledModulesByClass, List.find?_cons_of_pos]
    simp [htakes, isSwallowed, h]
  rw [decidingAnswer, hdecides]
  rfl

/-- The time zone and the language of a stored account can be written. -/
theorem exists_run_saveTimezoneAndLanguage (form : LoginForm) {a : Account} (ha : a ∈ s.users)
    (huser : u.user.userId = some a.userId) :
    ∃ u' s', (saveTimezoneAndLanguage form u).run s = (.ok u', s') := by
  have hfound : s.users.findOneByUserId u.user.userId = some a.toUser :=
    huser ▸ findOneByUserId_of_mem ha
  obtain ⟨users, hsave⟩ := exists_save_toUser
    (b := { a with timeZone := form.timezone, userLanguage := form.language }) ha rfl rfl
  unfold saveTimezoneAndLanguage
  rw [Eff.run_get_bind, hfound]
  exact ⟨_, _, Eff.run_bind_of_ok (run_saveRepository_eq_ok.2 ⟨users, hsave, rfl⟩)⟩

/-- The user returned is the stored account. -/
theorem id_of_saveTimezoneAndLanguage {a : Account} (ha : a ∈ s.users)
    (huser : u.user.userId = some a.userId)
    (h : (saveTimezoneAndLanguage form u).run s = (.ok u', s')) : u'.user.id = some a.id := by
  obtain ⟨saved, users, hsave, -, rfl⟩ := run_saveTimezoneAndLanguage_eq_ok h
  have hfound : s.users.findOneByUserId u.user.userId = some a.toUser :=
    huser ▸ findOneByUserId_of_mem ha
  rw [localizedRecord, hfound, Option.getD_some] at hsave
  rcases save_cases hsave with ⟨old, c, hold, -, -, rfl⟩ | ⟨c, hnew, -⟩
  · exact hold.symm
  · exact absurd rfl (hnew a ha)

/-- The checks of a user that no other plugin provides store nothing. -/
theorem run_checks_eq_ok_of_local {ctx : CallContext} {credentials : Option String}
    (hlocal : isProvidedElsewhere u = false) (hnone : ctx.authentication = none) :
    (additionalAuthenticationChecks env ctx plugins u credentials).2.run s = (.ok u', s') ↔
      (∃ p, credentials = some p ∧ ∃ b, decidingAnswer env plugins u p = some (.ok b)) ∧
        u' = u ∧ s' = s := by
  cases credentials with
  | none =>
      simp only [additionalAuthenticationChecks, hnone]
      constructor
      · intro h
        cases h
      · rintro ⟨⟨_, h, -⟩, -⟩
        cases h
  | some p =>
      rw [run_additionalAuthenticationChecks hnone]
      simp only [Option.some.injEq, exists_eq_left']
      rcases decidingAnswer env plugins u p with _ | e | b
      · simp
      · simp
      · simp [hlocal, eq_comm]

/-- What the login of a record has passed is its check. -/
theorem complete_of_run_retrieveUser {name : Option String} {v : User}
    (hread : s.cache.read s.lookup name = some v)
    (h : (retrieveUser plugins name).run s = (.ok u, s')) : Complete v := by
  refine (checkUserInfo_eq_ok DefaultLoginPlugin.className).1 ?_
  rcases hcheck : checkUserInfo DefaultLoginPlugin.className v with e | _
  · have hload := run_retrieveUser_eq_ok.1 h
    rw [getEnabledModulesByClass, loadUserByUsername, Eff.run_bind, run_loadFrom_default, hread]
      at hload
    dsimp only at hload
    rw [hcheck] at hload
    cases hload
  · rfl

/-- What is documented of the checks of Spring: the one in front of the
password asks for an account that is enabled and neither locked nor
expired, and the one behind it for credentials that are not expired. -/
structure ChecksStatus (checks : AccountChecks) : Prop where
  pre : ∀ u, checks.preAuthenticationChecks u = .ok () ↔
    u.isAccountNonLocked = true ∧ u.isEnabled = true ∧ u.isAccountNonExpired = true
  post : ∀ u, checks.postAuthenticationChecks u = .ok () ↔ u.isCredentialsNonExpired = true

theorem checksStatus_accountStatusChecks : ChecksStatus accountStatusChecks where
  pre u := by
    by_cases h : u.user.enabled = true <;>
      simp [accountStatusChecks, checkAccount, SecuredUser.isAccountNonLocked,
        SecuredUser.isEnabled, SecuredUser.isAccountNonExpired, h]
  post u := by
    by_cases h : u.user.enabled = true <;>
      simp [accountStatusChecks, checkCredentials, SecuredUser.isCredentialsNonExpired, h]

/-- Both come to whether the account is enabled. -/
theorem ChecksStatus.pre_iff {checks : AccountChecks} (h : ChecksStatus checks) :
    checks.preAuthenticationChecks u = .ok () ↔ u.user.enabled = true :=
  (h.pre u).trans ⟨fun hu => hu.1, fun hu => ⟨hu, rfl, hu⟩⟩

/-- **The provider authenticates with the user id of such an account**, in a
session without an authentication, when it can be logged into and the
encoder takes the password for the stored one. -/
theorem run_authenticate_of_isLocal {v : User} {ctx : CallContext} {credentials : Option String}
    (hchecks : ChecksStatus env.accountChecks) (hnone : ctx.authentication = none)
    (hread : s.cache.read s.lookup (some k) = some v) (huser : v.userId = some k)
    (hlocal : IsLocal i e c v) :
    (ZoofficeAuthenticationProvider.authenticate env ctx plugins (some k) credentials).run s =
        (.ok u', s') ↔
      (c ∧ ∃ p, credentials = some p ∧
        env.passwordEncoder.isPasswordValid (some e) p (some k) = .ok true) ∧
      u' = ⟨v, v.authProviderClass⟩ ∧ s' = s.afterRead (some k) := by
  have hanswer : ∀ p,
      (∃ b, decidingAnswer env plugins ⟨v, v.authProviderClass⟩ p = some (.ok b)) ↔
        env.passwordEncoder.isPasswordValid (some e) p (some k) = .ok true := by
    intro p
    rw [decidingAnswer_of_default (isDefaultUser_of_provider hlocal.provider)]
    simp only [Option.some.injEq, validateUser_eq_ok_iff, SecuredUser.getPassword,
      SecuredUser.getUsername, hlocal.password, huser]
  rw [run_authenticate_eq_ok]
  constructor
  · rintro ⟨loaded, hload, hpre, hcheck, -⟩
    have hcomplete := complete_of_run_retrieveUser hread hload
    obtain rfl := eq_of_run_loadUserByUsername hread (run_retrieveUser_eq_ok.1 hload)
    obtain ⟨⟨p, hp, hvalid⟩, rfl, rfl⟩ := (run_checks_eq_ok_of_local hlocal.provider hnone).1 hcheck
    exact ⟨⟨hlocal.letsIn.1 ⟨hcomplete, hchecks.pre_iff.1 hpre⟩, p, hp, (hanswer p).1 hvalid⟩,
      rfl, rfl⟩
  · rintro ⟨⟨hc, p, hp, hvalid⟩, rfl, rfl⟩
    obtain ⟨hcomplete, henabled⟩ := hlocal.letsIn.2 hc
    obtain ⟨role, hrole⟩ := hlocal.role
    refine ⟨_, run_retrieveUser_of_read plugins hread hcomplete, hchecks.pre_iff.2 henabled, ?_,
      (hchecks.post _).2 henabled, [role.getShortName], ?_⟩
    · exact (run_checks_eq_ok_of_local hlocal.provider hnone).2
        ⟨⟨p, hp, (hanswer p).2 hvalid⟩, rfl, rfl⟩
    · rw [SecuredUser.getAuthorities, hrole]

/-- A login with the form is the writing of the time zone and the language
then. -/
theorem run_attemptAuthentication_of_isLocal {v : User}
    (hchecks : ChecksStatus env.accountChecks)
    (hread : s.cache.read s.lookup (some k) = some v) (huser : v.userId = some k)
    (hlocal : IsLocal i e c v) (hname : form.username = some k) :
    (attemptAuthentication env plugins form none).run s = (.ok u, t) ↔
      (c ∧ ∃ p, form.password = some p ∧
        env.passwordEncoder.isPasswordValid (some e) p (some k) = .ok true) ∧
      (saveTimezoneAndLanguage form ⟨v, v.authProviderClass⟩).run (s.afterRead (some k)) =
        (.ok u, t) := by
  have hnone : (loginContext form none).authentication = none := rfl
  rw [attemptAuthentication, Eff.run_bind_eq_ok, hname]
  simp only [run_authenticate_of_isLocal hchecks hnone hread huser hlocal]
  constructor
  · rintro ⟨_, _, ⟨hvalid, rfl, rfl⟩, hwrite⟩
    exact ⟨hvalid, hwrite⟩
  · rintro ⟨hvalid, hwrite⟩
    exact ⟨_, _, ⟨hvalid, rfl, rfl⟩, hwrite⟩

/-- **Who logs in with the user id of such an account**: whoever has a
password that the encoder takes for the stored one, as the user of the
account. -/
theorem login_of_pinned (hchecks : ChecksStatus env.accountChecks)
    (h : Pinned k (Told i e c) s) (hname : form.username = some k) :
    ((∃ u t, (attemptAuthentication env plugins form none).run s = (.ok u, t)) ↔
        c ∧ ∃ p, form.password = some p ∧
          env.passwordEncoder.isPasswordValid (some e) p (some k) = .ok true) ∧
      ∀ u t, (attemptAuthentication env plugins form none).run s = (.ok u, t) →
        u.getUsername = some k ∧ u.user.id = some i := by
  obtain ⟨v, hread, hlocal⟩ := h.read
  have huser : v.userId = some k := h.keyed.read hread
  obtain ⟨x, hx, hstored⟩ := h.stored
  obtain ⟨a, ha, hak, rfl⟩ := findOneByUserId_eq_some_iff.1 hx
  have hau : v.userId = some a.userId := huser.trans hak.symm
  simp only [run_attemptAuthentication_of_isLocal hchecks hread huser hlocal hname]
  refine ⟨⟨fun ⟨_, _, hvalid, _⟩ => hvalid, fun hvalid => ?_⟩, ?_⟩
  · obtain ⟨u', s', hwrite⟩ := exists_run_saveTimezoneAndLanguage form
      (u := ⟨v, v.authProviderClass⟩) (s := s.afterRead (some k)) ha hau
    exact ⟨u', s', hvalid, hwrite⟩
  · rintro u t ⟨-, hwrite⟩
    have hid := id_of_saveTimezoneAndLanguage (s := s.afterRead (some k)) ha hau hwrite
    refine ⟨?_, hid.trans hstored.id⟩
    obtain ⟨saved, users, hsave, -, rfl⟩ := run_saveTimezoneAndLanguage_eq_ok hwrite
    obtain ⟨j, rfl⟩ := saved_eq hsave
    exact (localizedRecord_userId form).trans huser

end Zooffice
