import Zooffice.User.Init
import Zooffice.User.Roles
/-!
# The built-in administrator

The list page shows no delete control for the account `admin`, and the
form does not let a user id be edited; the requests behind them check
neither. A deletion is admitted for every administrator and every general
user, whoever it names. A save by a principal of another role than `USER`
may change the role and the user id. Where no such request names the
account it is kept, since a general user gets the role and the user id of
the record found.
-/


namespace Zooffice

open Repository UserController

variable {env : Env} {s s' : Store}

/-! ## The requests -/

/-- A request to `/user/save` or `/user/delete`. -/
inductive UserRequest where
  | save (q : SaveRequest)
  | delete (principal : SecuredUser) (userIds : String)

/-- The store the request leaves, whether it returned or threw. -/
def respond (env : Env) (s : Store) : UserRequest → Option Store
  | .save q => some (q.run env s).2
  | .delete principal userIds => some ((UserController.delete principal userIds).run s).2

/-- **The administrator of the first start** is stored under its user id
and has its role. -/
def AdminStored (r : Repository) : Prop :=
  ∃ a ∈ r, a.id = 1 ∧ a.userId = "admin" ∧ a.role = Role.admin

/-- The request does not take the account from its place: a save that is
admitted and valid, by a principal of another role than `USER`, submits
for it the user id and the role it has or none, and a deletion that is
admitted, of accounts that are all stored, does not name it. -/
def SparesAdmin (s : Store) : UserRequest → Prop
  | .save q =>
      q.principal.user.role ≠ some Role.user → Admitted q.principal q.updatedUser →
        q.updatedUser.validate = true → q.updatedUser.id = some 1 →
          (isNotBlank q.updatedUser.userId = false ∨ q.updatedUser.userId = some "admin") ∧
            (q.updatedUser.role = none ∨ q.updatedUser.role = some Role.admin)
  | .delete principal userIds =>
      preAuthorizeDelete principal = .ok () → (ids userIds).Nodup →
        (∀ k ∈ ids userIds, ∃ a ∈ s.users, a.userId = k) → "admin" ∉ ids userIds

/-! ## One request -/

/-- A merge keeps the role and the user id when the record has these or
none. -/
theorem identity_of_merge {old : Account} {u : User} {c : Columns} {lower : String → String}
    (hstores : Stores (old.toUser.merge lower u) c)
    (huser : isNotBlank u.userId = false ∨ u.userId = some old.userId)
    (hrole : u.role = none ∨ u.role = some old.role) :
    c.role = old.role ∧ c.userId = old.userId := by
  have hr : User.mergeObject (some old.role) u.role = some c.role := hstores.role
  refine ⟨?_, userId_of_merge_blank hstores huser⟩
  rcases hrole with hnone | hsame
  · rw [hnone] at hr
    exact (Option.some.inj hr).symm
  · rw [hsame, User.mergeObject_self] at hr
    exact (Option.some.inj hr).symm

/-- A record that is not valid is not saved. -/
theorem state_of_not_validate {q : SaveRequest} (h : q.updatedUser.validate = false) :
    (q.run env s).2 = s := by
  have hcheck : checkArgument q.updatedUser.validate none = .error ⟨.illegalArgument, none⟩ := by
    rw [checkArgument, h]
    rfl
  rw [SaveRequest.run, UserController.save, Eff.run_ofExcept_bind]
  split
  · rw [saveOrUpdateUserDetail, Eff.run_ofExcept_bind, hcheck]
  · rfl

/-- **A save that spares the administrator** keeps it. -/
theorem keepsAdmin_of_save {q : SaveRequest} (hadmin : AdminStored s.users)
    (htells : CacheTells (fun i => i = 1) s) (hspares : SparesAdmin s (.save q))
    (hvalid : q.updatedUser.validate = true) (hs' : s' = (q.run env s).2) :
    KeepsIdentity (fun i => i = 1) s.users s'.users ∧ CacheTells (fun i => i = 1) s' := by
  refine keepsIdentity_of_save htells (fun old hold hid submitted s₁ enc c hadmitted hsub hsid henc
    hstores => ?_) hs'
  by_cases hrole : q.principal.user.role = some Role.user
  · exact identity_of_modifies htells hid hrole hold hsid hsub henc hstores rfl
  · -- what is submitted is what the form has
    obtain ⟨a, ha, haid, hauser, harole⟩ := hadmin
    obtain rfl : old = a := eq_of_id_eq hold ha (hid.trans haid.symm)
    rcases hsub with ⟨huser, -⟩ | ⟨-, rfl, -⟩
    · exact absurd huser hrole
    · obtain ⟨huserId, hroles⟩ := hspares hrole hadmitted hvalid (hsid.trans (congrArg some hid))
      obtain ⟨p, rfl⟩ := henc.exists_password
      rw [← hauser] at huserId
      rw [← harole] at hroles
      have hkept := identity_of_merge hstores
      exact hkept huserId hroles

/-- What a deletion request leaves: the store as it was, or the store
without the accounts it names, and nothing cached. -/
theorem run_delete_cases {principal : SecuredUser} {userIds : String} {y : Except Throwable String}
    (h : (UserController.delete principal userIds).run s = (y, s')) :
    s' = s ∨ (preAuthorizeDelete principal = .ok () ∧
      s.users.Deletes (ids userIds) s'.users ∧ s'.cache = Cache.empty) := by
  cases y with
  | error e =>
      left
      rcases Eff.run_ofExcept_bind_eq_error.1 h with ⟨-, rfl⟩ | ⟨⟨⟩, -, h⟩
      · rfl
      rcases Eff.run_bind_eq_error.1 h with h | ⟨⟨⟩, s₁, -, hpure⟩
      · exact state_of_run_deleteUsers_error h
      · cases hpure
  | ok url =>
      obtain ⟨⟨⟩, hadmitted, h⟩ := Eff.run_ofExcept_bind_eq_ok.1 h
      obtain ⟨⟨⟩, s₁, hdelete, hpure⟩ := Eff.run_bind_eq_ok.1 h
      obtain rfl : s₁ = s' := (Prod.mk.inj hpure).2
      exact Or.inr ⟨hadmitted, run_deleteUsers_eq_ok hdelete⟩

/-- **A deletion that spares the administrator** keeps it. -/
theorem keepsAdmin_of_delete {principal : SecuredUser} {userIds : String}
    (hadmin : AdminStored s.users) (htells : CacheTells (fun i => i = 1) s)
    (hspares : SparesAdmin s (.delete principal userIds))
    {y : Except Throwable String}
    (h : (UserController.delete principal userIds).run s = (y, s')) :
    AdminStored s'.users ∧ CacheTells (fun i => i = 1) s' := by
  rcases run_delete_cases h with rfl | ⟨hadmitted, hdeletes, hempty⟩
  · exact ⟨hadmin, htells⟩
  · obtain ⟨a, ha, hid, huser, hrole⟩ := hadmin
    have hspared := hspares hadmitted hdeletes.nodup hdeletes.stored
    refine ⟨⟨a, (hdeletes.mem_iff a).2 ⟨ha, huser ▸ hspared⟩, hid, huser, hrole⟩, fun k v hv => ?_⟩
    rw [hempty] at hv
    cases hv

/-- One request keeps the administrator, when it spares it. -/
theorem adminStored_of_respond {q : UserRequest}
    (h : AdminStored s.users ∧ CacheTells (fun i => i = 1) s) (hspares : SparesAdmin s q)
    (hstep : respond env s q = some s') :
    AdminStored s'.users ∧ CacheTells (fun i => i = 1) s' := by
  obtain ⟨hadmin, htells⟩ := h
  cases q with
  | save q =>
      obtain rfl := Option.some.inj hstep
      cases hvalid : q.updatedUser.validate with
      | false =>
          rw [state_of_not_validate hvalid]
          exact ⟨hadmin, htells⟩
      | true =>
          obtain ⟨hkeeps, htells'⟩ := keepsAdmin_of_save hadmin htells hspares hvalid rfl
          obtain ⟨a, ha, hid, huser, hrole⟩ := hadmin
          obtain ⟨b, hb, hbid, hbrole, hbuser⟩ := hkeeps a ha hid
          exact ⟨⟨b, hb, hbid.trans hid, hbuser.trans huser, hbrole.trans hrole⟩, htells'⟩
  | delete principal userIds =>
      obtain rfl := Option.some.inj hstep
      exact keepsAdmin_of_delete hadmin htells hspares rfl

/-! ## Sequences of requests -/

/-- **The administrator is stored and has its role** after every sequence
of requests that spare it. -/
theorem adminStored_of_perform (env : Env) (now : Date) (s s' : Store) (reqs : List UserRequest)
    (hstart : DBInit.started env now = .ok s)
    (hspares : Along (respond env) SparesAdmin s reqs)
    (hrun : perform (respond env) s reqs = some s') : AdminStored s'.users := by
  have htells : CacheTells (fun i => i = 1) s := by
    intro k v hv
    rw [DBInit.cache_of_started hstart] at hv
    cases hv
  have hadmin : AdminStored s.users := DBInit.exists_admin_of_started hstart
  exact (perform_invariant (I := fun t => AdminStored t.users ∧ CacheTells (fun i => i = 1) t)
    (fun _ _ _ ht hq hstep => adminStored_of_respond ht hq hstep) ⟨hadmin, htells⟩ hspares hrun).1

/-- A general user asks for a deletion. -/
def deletionBy (userIds : String) : UserRequest :=
  .delete ⟨{ id := some 2, userId := some "user", role := some Role.user }, none⟩ userIds

/-- The store after some requests, for the runs on fixed inputs. -/
def storeAfterRequests (reqs : List UserRequest) : Store :=
  (perform (respond plaintextEnv) DBInit.plaintextStarted reqs).getD DBInit.plaintextStarted

/-- The administrator takes another name. -/
def adminsNewName : UserRequest :=
  .save
    { now := 1
      principal := ⟨{ id := some 1, userId := some "admin", role := some Role.admin }, none⟩
      updatedUser :=
        { id := some 1, userId := some "admin", userName := some "root",
          email := some "admin@nhn.com" }
      followersStr := none }

theorem adminStored_of_perform_superuser :
    AdminStored (storeAfterRequests [adminsNewName, deletionBy "superuser"]).users :=
  adminStored_of_perform plaintextEnv 0 DBInit.plaintextStarted _
    [adminsNewName, deletionBy "superuser"] DBInit.started_eq_ok
    ⟨fun _ _ _ _ => ⟨Or.inr rfl, Or.inl rfl⟩,
      fun _ _ => ⟨fun _ _ _ => by decide, fun _ _ => trivial⟩⟩ rfl

/-- **A general user deletes the administrator.** -/
theorem not_adminStored_of_deletion :
    DBInit.started plaintextEnv 0 = .ok DBInit.plaintextStarted ∧
      ¬∀ s', perform (respond plaintextEnv) DBInit.plaintextStarted [deletionBy "admin"] =
        some s' → AdminStored s'.users := by
  refine ⟨DBInit.started_eq_ok, fun hkept => ?_⟩
  obtain ⟨a, ha, hid, -⟩ := hkept (storeAfterRequests [deletionBy "admin"]) rfl
  have hfound := findOne_eq_some_iff.2 ⟨a, ha, hid, rfl⟩
  have hnone : (storeAfterRequests [deletionBy "admin"]).users.findOne 1 = none := by rfl
  rw [hnone] at hfound
  cases hfound

end Zooffice
