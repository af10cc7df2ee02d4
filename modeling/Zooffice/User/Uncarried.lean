import Zooffice.User.Controller
import Zooffice.User.Init
import Zooffice.User.Model.EditForm
/-!
# What a form does not carry

A property that the form does not carry is null on the record it is bound
to, and the merge passes over null. The flags `enabled` and `external`
cannot be null: they come out of the binder with the defaults of a new
record, and the merge copies them. So a form without `enabled` enables a
disabled account, and one without `external` takes the flag away.
-/


namespace Zooffice

open Repository UserController

variable {env : Env} {now : Date} {principal : SecuredUser} {form : UserForm}
  {followersStr : Option String} {s s' : Store} {a : Account}

/-- The account `a'` has the value of `a` in every field that the form
does not carry. -/
structure KeepsUncarried (form : UserForm) (a a' : Account) : Prop where
  id : form.id = none → a'.id = a.id
  createdDate : form.createdDate = none → a'.createdDate = a.createdDate
  createdUser : form.createdUser = none → a'.createdUser = a.createdUser
  lastModifiedDate : form.lastModifiedDate = none → a'.lastModifiedDate = a.lastModifiedDate
  lastModifiedUser : form.lastModifiedUser = none → a'.lastModifiedUser = a.lastModifiedUser
  userId : form.userId = none → a'.userId = a.userId
  userName : form.userName = none → a'.userName = a.userName
  password : form.password = none → a'.password = a.password
  enabled : form.enabled = none → a'.enabled = a.enabled
  email : form.email = none → a'.email = a.email
  role : form.role = none → a'.role = a.role
  description : form.description = none → a'.description = a.description
  timeZone : form.timeZone = none → a'.timeZone = a.timeZone
  userLanguage : form.userLanguage = none → a'.userLanguage = a.userLanguage
  mobilePhone : form.mobilePhone = none → a'.mobilePhone = a.mobilePhone
  external : form.external = none → a'.external = a.external
  authProviderClass : form.authProviderClass = none → a'.authProviderClass = a.authProviderClass

/-- A flag that is not carried has the default already; and where the
request looks up the role itself, the cache has no other role for the
submitted user id than that of the account. -/
structure DefaultsHold (env : Env) (principal : SecuredUser) (form : UserForm) (s : Store)
    (a : Account) : Prop where
  enabled : form.enabled = none → a.enabled = true
  external : form.external = none → a.external = false
  role : form.role = none → principal.user.role = some Role.user →
    ∀ found role, s.cache.get? (form.bind env.toLowerCase).userId = some (some found) →
      found.role = some role → role = a.role

/-! ## The fields of the row that is written -/

/-- The role of the merged row: that of the record, if it has one. -/
theorem role_of_merge {lower : String → String} {u : User} {c : Columns}
    (hstores : Stores (a.toUser.merge lower u) c) : c.role = u.role.getD a.role := by
  have hrole : User.mergeObject (some a.role) u.role = some c.role := hstores.role
  cases hu : u.role with
  | none => rw [hu] at hrole; exact (Option.some.inj hrole).symm
  | some role => rw [hu] at hrole; exact (Option.some.inj hrole).symm

/-- A reference that was loaded is stored as the column it came from. -/
theorem column_of_loaded {ref column : Option Int}
    (h : toColumn (ref.map fun i => ⟨some i⟩) = .ok column) : column = ref := by
  cases ref with
  | none => exact (Except.ok.inj h).symm
  | some i => exact (Except.ok.inj h).symm

/-- A property that is not carried is merged as null. -/
theorem mergeObject_uncarried {α : Type} {target : Option α} {field : Option (Option α)}
    (h : field = none) : User.mergeObject target field.join = target := by
  rw [h]
  rfl

theorem mergeString_uncarried {force : Bool} {target : Option String}
    {field : Option (Option String)} (h : field = none) :
    User.mergeString force target field.join = target := by
  rw [h]
  rfl

/-- **The row that is written keeps what the form does not carry** exactly
when the two flags and the role have what the request gives them. -/
theorem keepsUncarried_updatedRow {role : Option Role} {enc : User} {c : Columns}
    (henc : Encoded env { form.bind env.toLowerCase with role := role } enc)
    (hstores : Stores (a.toUser.merge env.toLowerCase enc) c) :
    KeepsUncarried form a (updatedRow a c) ↔
      (form.enabled = none → a.enabled = true) ∧ (form.external = none → a.external = false) ∧
        (form.role = none → role.getD a.role = a.role) := by
  -- the encoding changes the password at most, and leaves none as it is
  obtain ⟨p, rfl⟩ := henc.exists_password
  have hpassword : form.password = none → p = none :=
    fun hnone => henc.password_of_none (congrArg Option.join hnone)
  have hrole : c.role = role.getD a.role := role_of_merge hstores
  have henabled : c.enabled = form.enabled.getD true := hstores.enabled
  have hexternal : c.external = form.external.getD false := hstores.external
  constructor
  · intro h
    refine ⟨fun hnone => ?_, fun hnone => ?_, fun hnone => ?_⟩
    · exact (h.enabled hnone).symm.trans (henabled.trans (by rw [hnone]; rfl))
    · exact (h.external hnone).symm.trans (hexternal.trans (by rw [hnone]; rfl))
    · exact hrole.symm.trans (h.role hnone)
  · rintro ⟨htrue, hfalse, hsame⟩
    exact
      { id := fun _ => rfl
        createdDate := fun _ => rfl
        createdUser := fun _ => rfl
        lastModifiedDate := fun hnone =>
          hstores.lastModifiedDate.trans (mergeObject_uncarried hnone)
        lastModifiedUser := fun hnone =>
          column_of_loaded ((congrArg toColumn (mergeObject_uncarried hnone)).symm.trans
            hstores.lastModifiedUser)
        userId := fun hnone =>
          (Option.some.inj ((mergeString_uncarried hnone).symm.trans hstores.userId)).symm
        userName := fun hnone => hstores.userName.trans (mergeString_uncarried hnone)
        password := fun hnone => hstores.password.trans (by rw [hpassword hnone]; rfl)
        enabled := fun hnone => henabled.trans (by rw [hnone, htrue hnone]; rfl)
        email := fun hnone => hstores.email.trans (by
          change User.mergeString true a.email ((form.email.map _).map _) = a.email
          rw [hnone]
          rfl)
        role := fun hnone => hrole.trans (hsame hnone)
        description := fun hnone => hstores.description.trans (mergeString_uncarried hnone)
        timeZone := fun hnone => hstores.timeZone.trans (mergeString_uncarried hnone)
        userLanguage := fun hnone => hstores.userLanguage.trans (mergeString_uncarried hnone)
        mobilePhone := fun hnone => hstores.mobilePhone.trans (mergeString_uncarried hnone)
        external := fun hnone => hexternal.trans (by rw [hnone, hfalse hnone]; rfl)
        authProviderClass := fun hnone =>
          hstores.authProviderClass.trans (mergeString_uncarried hnone) }

/-! ## The request -/

/-- The role that the request goes on with leaves the account's role, when
the form does not carry one, exactly when no cached record says otherwise. -/
theorem role_of_submits {submitted : User} {s₁ : Store} (ha : a ∈ s.users)
    (hid : form.id = some (some a.id))
    (hsub : Submits principal (form.bind env.toLowerCase) s submitted s₁) :
    (form.role = none → submitted.role.getD a.role = a.role) ↔
      (form.role = none → principal.user.role = some Role.user →
        ∀ found role, s.cache.get? (form.bind env.toLowerCase).userId = some (some found) →
          found.role = some role → role = a.role) := by
  refine imp_congr_right fun hnone => ?_
  rcases hsub with ⟨huser, found, hread, hfoundId, rfl, -⟩ | ⟨hother, rfl, -⟩
  · have hfoundId : found.id = some a.id := hfoundId.trans (congrArg Option.join hid)
    rw [Cache.read] at hread
    cases hcached : s.cache.get? (form.bind env.toLowerCase).userId with
    | none =>
        -- the record comes from the table, and with its id it is the account's
        rw [hcached] at hread
        obtain ⟨b, hb, -, rfl⟩ := findOneByUserId_eq_some_iff.1 hread
        obtain rfl : b = a := eq_of_id_eq hb ha (Option.some.inj hfoundId)
        exact iff_of_true rfl fun _ found role hsome => nomatch hsome
    | some entry =>
        rw [hcached] at hread
        obtain rfl : entry = some found := hread
        constructor
        · intro hsame _ found' role hfound hrole
          obtain rfl : found = found' := Option.some.inj (Option.some.inj hfound)
          rw [hrole] at hsame
          exact hsame
        · intro hall
          cases hrole : found.role with
          | none => rfl
          | some role => exact hall huser found role rfl hrole
  · have hnoRole : (form.bind env.toLowerCase).role = none := congrArg Option.join hnone
    rw [hnoRole]
    exact iff_of_true rfl fun huser => absurd huser hother

/-- **A save keeps what the form does not carry** exactly when the
defaults of the two flags, and a role the request looks up, are what the
account has already. -/
theorem keepsUncarried_iff {url : String} (ha : a ∈ s.users) (hid : form.id = some (some a.id))
    (h : (save env now principal (form.bind env.toLowerCase) followersStr).run s =
      (.ok url, s')) :
    (∃ a' ∈ s'.users, a'.id = a.id ∧ KeepsUncarried form a a') ↔
      DefaultsHold env principal form s a := by
  obtain ⟨-, -, submitted, s₁, hsub, hwrite⟩ := save_cases h
  obtain ⟨enc, c, henc, hstores, hup⟩ :=
    updates_of_write ha (congrArg Option.join hid) hsub hwrite
  have hrow : (∃ a' ∈ s'.users, a'.id = a.id ∧ KeepsUncarried form a a') ↔
      KeepsUncarried form a (updatedRow a c) := by
    constructor
    · rintro ⟨a', ha', hid', hkeeps⟩
      rwa [eq_of_id_eq ha' hup.row_mem (hid'.trans hup.id_eq.symm)] at hkeeps
    · exact fun hkeeps => ⟨_, hup.row_mem, hup.id_eq, hkeeps⟩
  have hrole := role_of_submits ha hid hsub
  obtain ⟨role, rfl⟩ := hsub.exists_role
  rw [hrow, keepsUncarried_updatedRow henc hstores, hrole]
  exact ⟨fun ⟨htrue, hfalse, hsame⟩ => ⟨htrue, hfalse, hsame⟩,
    fun hdef => ⟨hdef.enabled, hdef.external, hdef.role⟩⟩

/-- The page's form for the general user, without `enabled`; the form that
disables the account; and an administrator that submits them. -/
def generalUserEdit : UserForm where
  id := some (some 2)
  userId := some (some "user")
  userName := some (some "user")
  email := some "user@nhn.com"
  description := some (some "writes")

def generalUserDisable : UserForm := { generalUserEdit with enabled := some false }

def administrator : SecuredUser := ⟨{ id := some 1, role := some Role.admin }, none⟩

/-- What the administrator's submission of a form does. -/
def submitted (form : UserForm) (s : Store) : Except Throwable String × Store :=
  (save plaintextEnv 1 administrator (form.bind plaintextEnv.toLowerCase) none).run s

/-- The account is enabled, and keeps what the form does not carry. -/
theorem keepsUncarried_generalUserEdit :
    ∃ a ∈ DBInit.plaintextStarted.users, a.id = 2 ∧
      ∃ a' ∈ (submitted generalUserEdit DBInit.plaintextStarted).2.users,
        a'.id = a.id ∧ KeepsUncarried generalUserEdit a a' := by
  obtain ⟨u, hu, henabled, hexternal⟩ : ∃ u, DBInit.plaintextStarted.users.findOne 2 = some u ∧
      u.enabled = true ∧ u.external = false := ⟨_, rfl, rfl, rfl⟩
  obtain ⟨a, ha, hid, rfl⟩ := findOne_eq_some_iff.1 hu
  have hcarried : generalUserEdit.id = some (some a.id) := by rw [hid]; rfl
  have hrun : submitted generalUserEdit DBInit.plaintextStarted = (.ok "redirect:/user/", _) := rfl
  exact ⟨a, ha, hid, (keepsUncarried_iff ha hcarried hrun).2
    ⟨fun _ => henabled, fun _ => hexternal, fun _ huser => nomatch huser⟩⟩

/-- **A disabled account is enabled by the edit of its description.** -/
theorem not_keepsUncarried_generalUserEdit :
    let s := (submitted generalUserDisable DBInit.plaintextStarted).2
    (submitted generalUserEdit s).1 = .ok "redirect:/user/" ∧
      ∃ a ∈ s.users, generalUserEdit.id = some (some a.id) ∧
        ¬ ∃ a' ∈ (submitted generalUserEdit s).2.users,
          a'.id = a.id ∧ KeepsUncarried generalUserEdit a a' := by
  intro s
  obtain ⟨u, hu, hdisabled⟩ : ∃ u, s.users.findOne 2 = some u ∧ u.enabled = false := ⟨_, rfl, rfl⟩
  obtain ⟨a, ha, hid, rfl⟩ := findOne_eq_some_iff.1 hu
  refine ⟨rfl, a, ha, by rw [hid]; rfl, ?_⟩
  rintro ⟨a', ha', hid', hkeeps⟩
  have hafter : ((submitted generalUserEdit s).2.users.findOne 2).map User.enabled =
      some true := rfl
  rw [findOne_eq_some_iff.2 ⟨a', ha', hid'.trans hid, rfl⟩] at hafter
  have henabled : a'.enabled = true := Option.some.inj hafter
  have hdisabled : a.enabled = false := hdisabled
  rw [hkeeps.enabled rfl, hdisabled] at henabled
  cases henabled

end Zooffice
