import Zooffice.Security.Login
import Zooffice.User.Model.Init
/-!
# Which plugin decides a login

A plugin takes part when its class is that of the default plugin or the
user's provider class. Of these the loop takes the first whose rejection
it does not swallow (`deciding`); the user is authorized when that plugin
does not throw (`authorize_eq`). Since the answer is dropped, a provider
that answers `false`, as its interface documents a rejection, lets the
user in.
-/


namespace Zooffice

open ZoofficeAuthenticationProvider

variable {encoder : PasswordEncoder} {salt : Option String} {user : SecuredUser}
  {password : String} {each : OnLoginRunnable} {enabled : List OnLoginRunnable}

/-- The class is the default plugin's or the user's provider class. -/
def TakesPart (user : SecuredUser) (className : String) : Prop :=
  className = DefaultLoginPlugin.className ∨ some className = user.getAuthProviderClass

instance (user : SecuredUser) (className : String) : Decidable (TakesPart user className) :=
  inferInstanceAs (Decidable (_ ∨ _))

/-- The user has no provider class, or the default plugin provided it. -/
def isDefaultUser (user : SecuredUser) : Bool :=
  isEmpty user.getAuthProviderClass ||
    user.userInfoProviderClass == some DefaultLoginPlugin.className

/-- What the plugin answers for the user and the password. -/
def answerOf (encoder : PasswordEncoder) (salt : Option String) (user : SecuredUser)
    (password : String) (each : OnLoginRunnable) : Except Throwable Bool :=
  each.validateUser user.getUsername password user.getPassword encoder salt

/-- An exception of the default plugin is swallowed for a user of another
provider. -/
def isSwallowed (encoder : PasswordEncoder) (salt : Option String) (user : SecuredUser)
    (password : String) (each : OnLoginRunnable) : Bool :=
  each.className == DefaultLoginPlugin.className && !isDefaultUser user &&
    match answerOf encoder salt user password each with
    | .ok _ => false
    | .error e => e.isException

/-- The first plugin that takes part and is not swallowed. -/
def deciding (encoder : PasswordEncoder) (salt : Option String) (user : SecuredUser)
    (password : String) (enabled : List OnLoginRunnable) : Option OnLoginRunnable :=
  enabled.find? fun each =>
    decide (TakesPart user each.className) && !isSwallowed encoder salt user password each

/-! ## The loop -/

/-- The call of a plugin. -/
def callOf (encoder : PasswordEncoder) (salt : Option String) (user : SecuredUser)
    (password : String) (each : OnLoginRunnable) : ValidateCall :=
  ⟨each.className, user.getUsername, password, answerOf encoder salt user password each⟩

/-- A plugin that takes no part is passed over. -/
theorem authorize_cons_of_not_takesPart (h : ¬ TakesPart user each.className) :
    authorize encoder salt user password (each :: enabled) =
      authorize encoder salt user password enabled := by
  rw [TakesPart, not_or] at h
  simp only [authorize, if_neg h.1, if_neg h.2]

/-- A swallowed rejection is called and passed over. -/
theorem authorize_cons_of_isSwallowed (h : isSwallowed encoder salt user password each = true) :
    authorize encoder salt user password (each :: enabled) =
      (callOf encoder salt user password each ::
          (authorize encoder salt user password enabled).1,
        (authorize encoder salt user password enabled).2) := by
  simp only [isSwallowed, Bool.and_eq_true, beq_iff_eq, Bool.not_eq_true'] at h
  obtain ⟨⟨hclass, hdefault⟩, hanswer⟩ := h
  cases ha : answerOf encoder salt user password each with
  | ok b => rw [ha] at hanswer; cases hanswer
  | error e =>
      rw [ha] at hanswer
      have ha' : each.validateUser user.getUsername password user.getPassword encoder salt =
          .error e := ha
      have hd : ¬ (isEmpty user.getAuthProviderClass ||
          user.userInfoProviderClass == some DefaultLoginPlugin.className) = true := by
        rw [← isDefaultUser, hdefault]
        simp
      simp only [authorize, if_pos hclass, if_neg hd, ha', if_pos hanswer, callOf, ha]

/-- Any other plugin that takes part ends the loop; a throw is passed on. -/
theorem authorize_cons_of_decides (htakes : TakesPart user each.className)
    (h : isSwallowed encoder salt user password each = false) :
    authorize encoder salt user password (each :: enabled) =
      ([callOf encoder salt user password each],
        (answerOf encoder salt user password each).map fun _ => true) := by
  by_cases hclass : each.className = DefaultLoginPlugin.className
  · -- the default plugin has two branches, one of which catches exceptions
    by_cases hdefault : isDefaultUser user = true
    · have hd : (isEmpty user.getAuthProviderClass ||
          user.userInfoProviderClass == some DefaultLoginPlugin.className) = true := hdefault
      simp only [authorize, if_pos hclass, if_pos hd, callOf, answerOf]
    · have hd : ¬ (isEmpty user.getAuthProviderClass ||
          user.userInfoProviderClass == some DefaultLoginPlugin.className) = true := hdefault
      simp only [authorize, if_pos hclass, if_neg hd, callOf, answerOf]
      simp only [isSwallowed, hclass, beq_self_eq_true, hdefault, Bool.not_false, Bool.and_self,
        Bool.true_and, answerOf] at h
      split at h
      · next b ha => simp only [ha, Except.map]
      · next e ha => simp only [ha, h, Bool.false_eq_true, if_false, Except.map]
  · have hprov : some each.className = user.getAuthProviderClass := htakes.resolve_left hclass
    simp only [authorize, if_neg hclass, if_pos hprov, callOf, answerOf]

/-- **What the loop answers**: what the deciding plugin answers, a throw
or, whatever it returned, an authorization. -/
theorem authorize_eq :
    (authorize encoder salt user password enabled).2 =
      match deciding encoder salt user password enabled with
      | none => .ok false
      | some each => (answerOf encoder salt user password each).map fun _ => true := by
  induction enabled with
  | nil => rfl
  | cons each rest ih =>
      -- the loop goes on behind a plugin exactly where the search for one does
      by_cases htakes : TakesPart user each.className
      · cases hsw : isSwallowed encoder salt user password each with
        | true =>
            rw [authorize_cons_of_isSwallowed hsw, ih]
            simp [deciding, hsw]
        | false =>
            rw [authorize_cons_of_decides htakes hsw]
            simp [deciding, hsw, htakes]
      · rw [authorize_cons_of_not_takesPart htakes, ih]
        simp [deciding, htakes]

/-- A call that answered `true` is that of the deciding plugin. -/
theorem mem_authorize_ok_iff :
    (∃ c ∈ (authorize encoder salt user password enabled).1, c.answer = .ok true) ↔
      ∃ each, deciding encoder salt user password enabled = some each ∧
        answerOf encoder salt user password each = .ok true := by
  induction enabled with
  | nil => simp [authorize, deciding]
  | cons each rest ih =>
      by_cases htakes : TakesPart user each.className
      · cases hsw : isSwallowed encoder salt user password each with
        | true =>
            have hthrew : answerOf encoder salt user password each ≠ .ok true := by
              intro hok
              simp [isSwallowed, hok] at hsw
            rw [authorize_cons_of_isSwallowed hsw]
            simp only [List.mem_cons, exists_eq_or_imp, callOf, hthrew, false_or, ih]
            simp [deciding, hsw]
        | false =>
            rw [authorize_cons_of_decides htakes hsw]
            simp [deciding, hsw, htakes, callOf]
      · rw [authorize_cons_of_not_takesPart htakes, ih]
        simp [deciding, htakes]

/-- Every call is made on a plugin that takes part, with the user name of
the record and the presented password. -/
theorem of_mem_authorize {c : ValidateCall}
    (h : c ∈ (authorize encoder salt user password enabled).1) :
    TakesPart user c.className ∧ c.userId = user.getUsername ∧ c.password = password := by
  induction enabled with
  | nil => simp [authorize] at h
  | cons each rest ih =>
      by_cases htakes : TakesPart user each.className
      · cases hsw : isSwallowed encoder salt user password each with
        | true =>
            rw [authorize_cons_of_isSwallowed hsw] at h
            rcases List.mem_cons.1 h with rfl | h
            · exact ⟨htakes, rfl, rfl⟩
            · exact ih h
        | false =>
            rw [authorize_cons_of_decides htakes hsw] at h
            rw [List.mem_singleton.1 h]
            exact ⟨htakes, rfl, rfl⟩
      · rw [authorize_cons_of_not_takesPart htakes] at h
        exact ih h

/-- **A plugin that takes no part does not matter.** -/
theorem authorize_filter :
    authorize encoder salt user password
        (enabled.filter fun each => TakesPart user each.className) =
      authorize encoder salt user password enabled := by
  induction enabled with
  | nil => rfl
  | cons each rest ih =>
      by_cases htakes : TakesPart user each.className
      · rw [List.filter_cons_of_pos (by simpa using htakes)]
        cases hsw : isSwallowed encoder salt user password each with
        | true => rw [authorize_cons_of_isSwallowed hsw, authorize_cons_of_isSwallowed hsw, ih]
        | false =>
            rw [authorize_cons_of_decides htakes hsw, authorize_cons_of_decides htakes hsw]
      · rw [List.filter_cons_of_neg (by simpa using htakes), ih,
          authorize_cons_of_not_takesPart htakes]

/-! ## The checks -/

variable {env : Env} {ctx : CallContext} {plugins : List LoginPlugin} {s s' : Store}

/-- A plugin that takes part was asked for the user and the password, and
answered `true`. -/
def Validated (user : SecuredUser) (password : String) (calls : List ValidateCall) : Prop :=
  ∃ c ∈ calls, TakesPart user c.className ∧ c.userId = user.getUsername ∧
    c.password = password ∧ c.answer = .ok true

/-- The plugin that decides on a password for the user. -/
def decidingPlugin (env : Env) (plugins : List LoginPlugin) (user : SecuredUser)
    (password : String) : Option OnLoginRunnable :=
  deciding env.passwordEncoder (getSalt user) user password (getEnabledModulesByClass plugins)

/-- Its answer. -/
def decidingAnswer (env : Env) (plugins : List LoginPlugin) (user : SecuredUser)
    (password : String) : Option (Except Throwable Bool) :=
  (decidingPlugin env plugins user password).map
    (answerOf env.passwordEncoder (getSalt user) user password)

theorem validated_iff :
    Validated user password
        (authorize env.passwordEncoder (getSalt user) user password
          (getEnabledModulesByClass plugins)).1 ↔
      decidingAnswer env plugins user password = some (.ok true) := by
  rw [decidingAnswer, Option.map_eq_some_iff, decidingPlugin, ← mem_authorize_ok_iff]
  constructor
  · rintro ⟨c, hc, -, -, -, hok⟩
    exact ⟨c, hc, hok⟩
  · rintro ⟨c, hc, hok⟩
    obtain ⟨htakes, huser, hpass⟩ := of_mem_authorize hc
    exact ⟨c, hc, htakes, huser, hpass, hok⟩

/-- The loop over the enabled plugins answers by the deciding answer. -/
theorem authorize_enabled_eq {presented : String} :
    (authorize env.passwordEncoder (getSalt user) user presented
      (getEnabledModulesByClass plugins)).2 =
        match decidingAnswer env plugins user presented with
        | none => .ok false
        | some answer => answer.map fun _ => true := by
  rw [authorize_eq, decidingAnswer, decidingPlugin]
  cases deciding env.passwordEncoder (getSalt user) user presented
    (getEnabledModulesByClass plugins) <;> rfl

/-- **What the checks do**, in a context without an authentication: they
pass on a throw of the deciding plugin, and else store the record of
another provider. -/
theorem run_additionalAuthenticationChecks {presented : String}
    (hnone : ctx.authentication = none) :
    (additionalAuthenticationChecks env ctx plugins user (some presented)).2.run s =
      match decidingAnswer env plugins user presented with
      | none => (.error badCredentials, s)
      | some (.error e) => (.error e, s)
      | some (.ok _) =>
          (if isProvidedElsewhere user then addNewUserIntoLocal env ctx user
            else pure user : App SecuredUser).run s := by
  simp only [additionalAuthenticationChecks, hnone, authorize_enabled_eq]
  rcases decidingAnswer env plugins user presented with _ | e | b
  · rfl
  · rfl
  · cases hprov : isProvidedElsewhere user with
    | true => rfl
    | false => rfl

/-- **The checks leave the details and the store, or store the record of
another provider.** -/
theorem run_checks_cases {user' : SecuredUser} {credentials : Option String}
    (h : (additionalAuthenticationChecks env ctx plugins user credentials).2.run s =
      (.ok user', s')) :
    (¬ (isProvidedElsewhere user = true ∧ ctx.authentication = none) ∧ user' = user ∧ s' = s) ∨
      ((isProvidedElsewhere user = true ∧ ctx.authentication = none) ∧
        (addUserIntoLocal env ctx user).run s = (.ok user', s')) := by
  cases hctx : ctx.authentication with
  | some p =>
      simp only [additionalAuthenticationChecks, hctx, Eff.run_pure, Prod.mk.injEq,
        Except.ok.injEq] at h
      exact Or.inl ⟨by simp, h.1.symm, h.2.symm⟩
  | none =>
      cases credentials with
      | none =>
          simp only [additionalAuthenticationChecks, hctx] at h
          cases h
      | some password =>
          rw [run_additionalAuthenticationChecks hctx] at h
          rcases hans : decidingAnswer env plugins user password with _ | e | b
          · rw [hans] at h
            cases h
          · rw [hans] at h
            cases h
          · rw [hans] at h
            dsimp only at h
            split at h
            · next hprov => exact Or.inr ⟨⟨hprov, rfl⟩, h⟩
            · next hprov =>
                rw [Eff.run_pure, Prod.mk.injEq, Except.ok.injEq] at h
                exact Or.inl ⟨fun hboth => hprov hboth.1, h.1.symm, h.2.symm⟩

/-- The record of another provider is stored, if it is of one. -/
def Storable (env : Env) (ctx : CallContext) (user : SecuredUser) (s : Store) : Prop :=
  isProvidedElsewhere user = true →
    ∃ done s', (addNewUserIntoLocal env ctx user).run s = (.ok done, s')

/-- **When it can be stored**, in a context without an authentication and
outside a request: the password of the local record can be encoded, the
record has the columns of an account, and no other account has its user
id. -/
theorem storable_iff {now : Date} {servletRequest : Bool} :
    Storable env ⟨now, servletRequest, none⟩ user s ↔
      (isProvidedElsewhere user = true → servletRequest = false ∧ ∃ enc c,
        UserService.encodePassword env
            (localRecord env now user (s.cache.read s.lookup user.user.userId)) = .ok enc ∧
          Repository.toColumns enc = .ok c ∧
          ∀ a ∈ s.users, a.userId = c.userId → enc.id = some a.id) := by
  refine imp_congr_right fun _ => ?_
  rw [addNewUserIntoLocal, run_addUserIntoLocal_returns_iff, run_saveUser_returns_iff]
  cases servletRequest with
  | true =>
      -- the aspect finds nobody logged in
      refine iff_of_false ?_ (by simp)
      rintro ⟨stamped, -, -, hst, -⟩
      cases hst
  | false =>
      constructor
      · rintro ⟨stamped, enc, c, hst, henc, hc, hfree⟩
        obtain rfl := Except.ok.inj hst
        exact ⟨rfl, enc, c, henc, hc, hfree⟩
      · rintro ⟨-, enc, c, henc, hc, hfree⟩
        exact ⟨_, enc, c, rfl, henc, hc, hfree⟩

/-- **When the checks return**: the deciding plugin returned, and the
record could be stored. -/
theorem returns_iff {presented : String} (hnone : ctx.authentication = none) :
    (∃ done s', (additionalAuthenticationChecks env ctx plugins user (some presented)).2.run s =
        (.ok done, s')) ↔
      (∃ b, decidingAnswer env plugins user presented = some (.ok b)) ∧
        Storable env ctx user s := by
  rw [run_additionalAuthenticationChecks hnone, Storable]
  rcases decidingAnswer env plugins user presented with _ | e | b
  · simp
  · simp
  · cases hprov : isProvidedElsewhere user with
    | true => simp
    | false => simp

/-- **The checks do not depend on the plugins that take no part.** -/
theorem additionalAuthenticationChecks_congr {plugins' : List LoginPlugin}
    {credentials : Option String}
    (hfilter : (plugins'.filter fun p => TakesPart user p.className) =
      (plugins.filter fun p => TakesPart user p.className)) :
    additionalAuthenticationChecks env ctx plugins' user credentials =
      additionalAuthenticationChecks env ctx plugins user credentials := by
  have hmap : ∀ l : List LoginPlugin,
      (l.map LoginPlugin.getModule).filter (fun each => TakesPart user each.className) =
        (l.filter fun p => TakesPart user p.className).map LoginPlugin.getModule := by
    intro l
    rw [List.filter_map]
    rfl
  have henabled :
      (getEnabledModulesByClass plugins').filter (fun each => TakesPart user each.className) =
        (getEnabledModulesByClass plugins).filter
          (fun each => TakesPart user each.className) := by
    simp only [getEnabledModulesByClass, List.filter_cons, hmap, hfilter]
  -- the loop over the enabled plugins is the loop over those that take part
  have hauthorize : ∀ password,
      authorize env.passwordEncoder (getSalt user) user password
          (getEnabledModulesByClass plugins') =
        authorize env.passwordEncoder (getSalt user) user password
          (getEnabledModulesByClass plugins) := by
    intro password
    rw [← authorize_filter, henabled, authorize_filter]
  simp only [additionalAuthenticationChecks, hauthorize]

/-- **The checks return only for a validated password, unless the
deciding plugin answers `false`** and the record can be stored; a plugin
that takes no part never matters. -/
theorem checks_validate_iff (env : Env) (now : Date) (servletRequest : Bool)
    (plugins : List LoginPlugin) (user : SecuredUser) (credentials : Option String) (s : Store) :
    (((∃ done s', (additionalAuthenticationChecks env ⟨now, servletRequest, none⟩ plugins user
            credentials).2.run s = (.ok done, s')) →
          ∃ password, credentials = some password ∧
            Validated user password (additionalAuthenticationChecks env ⟨now, servletRequest, none⟩
              plugins user credentials).1) ∧
        ∀ plugins' : List LoginPlugin,
          (plugins'.filter fun p => TakesPart user p.className) =
              (plugins.filter fun p => TakesPart user p.className) →
            additionalAuthenticationChecks env ⟨now, servletRequest, none⟩ plugins' user
                credentials =
              additionalAuthenticationChecks env ⟨now, servletRequest, none⟩ plugins user
                credentials) ↔
      ¬ ∃ password, credentials = some password ∧
          decidingAnswer env plugins user password = some (.ok false) ∧
          Storable env ⟨now, servletRequest, none⟩ user s := by
  constructor
  · rintro ⟨hvalid, -⟩ ⟨password, rfl, hfalse, hstore⟩
    obtain ⟨password', hpass, hval⟩ := hvalid ((returns_iff rfl).2 ⟨⟨false, hfalse⟩, hstore⟩)
    cases hpass
    have htrue := validated_iff.1 hval
    rw [hfalse] at htrue
    cases htrue
  · intro hnot
    refine ⟨?_, ?_⟩
    · rintro ⟨done, s', hrun⟩
      cases credentials with
      | none => cases hrun
      | some password =>
          refine ⟨password, rfl, validated_iff.2 ?_⟩
          obtain ⟨⟨b, hb⟩, hstore⟩ := (returns_iff rfl).1 ⟨done, s', hrun⟩
          cases b with
          | true => exact hb
          | false => exact absurd ⟨password, rfl, hb, hstore⟩ hnot
    · intro plugins' hfilter
      exact additionalAuthenticationChecks_congr hfilter

/-- A provider that refuses as its interface documents. -/
def refusingPlugin : LoginPlugin where
  className := "com.example.SsoLogin"
  loadUser _ := .ok none
  validateUser _ _ _ _ _ := .ok false

/-- A user of that provider. -/
def ssoUser : SecuredUser where
  user :=
    { userId := some "bob", userName := some "bob", email := some "bob@nhn.com",
      authProviderClass := some "com.example.SsoLogin" }
  userInfoProviderClass := some "com.example.SsoLogin"

/-- **The refused user gets in**: the checks return, no plugin answered
`true`. -/
theorem checks_return_for_refused :
    (∃ done s', (additionalAuthenticationChecks plaintextEnv ⟨1, false, none⟩ [refusingPlugin]
        ssoUser (some "wrong")).2.run DBInit.plaintextStarted = (.ok done, s')) ∧
      ¬ Validated ssoUser "wrong" (additionalAuthenticationChecks plaintextEnv ⟨1, false, none⟩
        [refusingPlugin] ssoUser (some "wrong")).1 := by
  refine ⟨⟨_, _, rfl⟩, ?_⟩
  rintro ⟨c, hc, -, -, -, hok⟩
  have hcalls : (additionalAuthenticationChecks plaintextEnv ⟨1, false, none⟩ [refusingPlugin]
      ssoUser (some "wrong")).1.map ValidateCall.answer =
        [.error badCredentials, .ok false] := by rfl
  have hmem := List.mem_map_of_mem (f := ValidateCall.answer) hc
  rw [hcalls, hok] at hmem
  simp at hmem

end Zooffice
