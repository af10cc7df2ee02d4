import Zooffice.User.Model.Controller
import Zooffice.User.Service
/-!
# What a save request does

`save_cases` says once what a request to `/user/save` that returned has
done to the store: the principal was admitted, the record was the
submitted one up to its role, and one account was updated or inserted.
The results about passwords, ownership and roles are read off it.
-/


namespace Zooffice

open Repository

variable {env : Env} {now : Date} {principal : SecuredUser} {updatedUser : User}
  {followersStr : Option String} {s s' : Store}

theorem exist_congr {u v : User} (h : u.id = v.id) : u.exist = v.exist := by
  simp only [User.exist, h]

namespace UserController

/-- `u'` has the stamps of a request by the principal at the time `now`;
a record that does not exist has those of its creation too. -/
structure StampedBy (now : Date) (principal : SecuredUser) (u u' : User) : Prop where
  stamped : Stamped u u'
  lastModifiedDate : u'.lastModifiedDate = some now
  lastModifiedUser : u'.lastModifiedUser = some ⟨principal.user.id⟩
  createdUser : u.exist = false → u'.createdUser = some ⟨principal.user.id⟩

/-- **The aspect stamps the record of a request** with its principal and
its time. -/
theorem stampedBy_of_beforeSave {u u' : User}
    (h : beforeSave (requestContext now principal) u = .ok u') : StampedBy now principal u u' := by
  have hstamped := stamped_of_beforeSave h
  change (if u.exist = true then _ else _) = Except.ok u' at h
  split at h
  · next hex =>
      cases h
      exact ⟨hstamped, rfl, rfl, fun hnew => absurd (hex.symm.trans hnew) (by decide)⟩
  · cases h
    exact ⟨hstamped, rfl, rfl, fun _ => rfl⟩

/-- Method security admits the principal: an administrator, or a
principal that saves the record with its own id. -/
def Admitted (principal : SecuredUser) (updatedUser : User) : Prop :=
  principal.user.role = some Role.admin ∨
    (principal.user.role ≠ none ∧ principal.user.id = updatedUser.id)

theorem admitted_of_preAuthorizeSave (h : preAuthorizeSave principal updatedUser = .ok ()) :
    Admitted principal updatedUser := by
  unfold preAuthorizeSave SecuredUser.getAuthorities at h
  cases hrole : principal.user.role with
  | none => rw [hrole] at h; cases h
  | some role =>
      rw [hrole] at h
      change (if _ then _ else _) = Except.ok () at h
      split at h
      · next hadmitted =>
          rw [Bool.or_eq_true] at hadmitted
          rcases hadmitted with hadmin | hid
          · -- of the short names only the administrator's is `A`
            left
            cases role <;> simp [Role.getShortName] at hadmin
            rw [hrole]
          · right
            exact ⟨by simp [hrole], by simpa using hid⟩
      · cases h

/-- The record the request goes on with, and the store it goes on from:
for a general user the role is the one the cache or the table holds for
the submitted user id, and that record has the submitted id. -/
def Submits (principal : SecuredUser) (updatedUser : User) (s : Store) (submitted : User)
    (s₁ : Store) : Prop :=
  (principal.user.role = some Role.user ∧
      ∃ found, s.cache.read s.lookup updatedUser.userId = some found ∧
        found.id = updatedUser.id ∧ submitted = { updatedUser with role := found.role } ∧
        s₁ = { s with cache := s.cache.afterRead s.lookup updatedUser.userId }) ∨
    (principal.user.role ≠ some Role.user ∧ submitted = updatedUser ∧ s₁ = s)

theorem Submits.users_eq {submitted : User} {s₁ : Store}
    (h : Submits principal updatedUser s submitted s₁) : s₁.users = s.users := by
  rcases h with ⟨-, found, -, -, -, rfl⟩ | ⟨-, -, rfl⟩ <;> rfl

/-- Only the role may differ from what was submitted. -/
theorem Submits.exists_role {submitted : User} {s₁ : Store}
    (h : Submits principal updatedUser s submitted s₁) :
    ∃ role, submitted = { updatedUser with role := role } := by
  rcases h with ⟨-, found, -, -, rfl, -⟩ | ⟨-, rfl, -⟩
  · exact ⟨_, rfl⟩
  · exact ⟨_, rfl⟩

theorem Submits.id_eq {submitted : User} {s₁ : Store}
    (h : Submits principal updatedUser s submitted s₁) : submitted.id = updatedUser.id := by
  obtain ⟨_, rfl⟩ := h.exists_role; rfl

theorem Submits.userId_eq {submitted : User} {s₁ : Store}
    (h : Submits principal updatedUser s submitted s₁) :
    submitted.userId = updatedUser.userId := by
  obtain ⟨_, rfl⟩ := h.exists_role; rfl

theorem Submits.password_eq {submitted : User} {s₁ : Store}
    (h : Submits principal updatedUser s submitted s₁) :
    submitted.password = updatedUser.password := by
  obtain ⟨_, rfl⟩ := h.exists_role; rfl

/-- The check of the principal gives the record. -/
theorem submits_of_run_checkUser {submitted : User} {s₁ : Store}
    (h : (checkUser principal.user updatedUser).run s = (.ok submitted, s₁)) :
    Submits principal updatedUser s submitted s₁ := by
  unfold checkUser at h
  split at h
  · next hrole =>
      refine Or.inl ⟨hrole, ?_⟩
      unfold checkGeneralUser at h
      rw [Eff.run_bind_of_ok (run_getUserById _ s)] at h
      obtain ⟨inDb, hnotNull, h⟩ := Eff.run_ofExcept_bind_eq_ok.1 h
      refine ⟨inDb, checkNotNull_eq_ok hnotNull, ?_⟩
      cases hid : inDb.id with
      | none => rw [hid] at h; cases h
      | some id =>
          rw [hid] at h
          obtain ⟨⟨⟩, hcheck, h⟩ := Eff.run_ofExcept_bind_eq_ok.1 h
          rw [Eff.run_pure, Prod.mk.injEq, Except.ok.injEq] at h
          exact ⟨by simpa using checkArgument_eq_ok hcheck, h.1.symm, h.2.symm⟩
  · next hrole =>
      rw [Eff.run_pure, Prod.mk.injEq, Except.ok.injEq] at h
      exact Or.inr ⟨hrole, h.1.symm, h.2.symm⟩

/-- An account was updated to its merge with the encoded record. -/
def Modifies (env : Env) (submitted : User) (s s' : Store) : Prop :=
  ∃ old enc c, submitted.id = some old.id ∧ Encoded env submitted enc ∧
    Stores (old.toUser.merge env.toLowerCase enc) c ∧
    s.users.Updates old (updatedRow old c) s'.users ∧
    s'.cache = s.cache.evict submitted.userId

/-- The encoded record was inserted as a new account. -/
def Creates (env : Env) (submitted : User) (s s' : Store) : Prop :=
  ∃ stamped enc c, Stamped submitted stamped ∧ Encoded env stamped enc ∧ Stores enc c ∧
    s.users.Inserts { c with id := s.users.sequence } s'.users ∧
    s'.cache = s.cache.evict submitted.userId

/-- A record that does not exist has the id of no account. -/
theorem id_ne_of_not_exist {u : User} (h : u.exist = false) {r : Repository} :
    ∀ a ∈ r, u.id ≠ some a.id := by
  intro a ha hid
  have hpos : 0 < a.id := r.id_pos a ha
  simp only [User.exist, hid, bne_eq_false_iff_eq] at h
  omega

/-- Saving a record that does not exist creates an account. -/
theorem creates_of_run_saveUser {ctx : CallContext} {submitted created : User}
    (hex : submitted.exist = false)
    (h : (UserService.saveUser env ctx submitted).run s = (.ok created, s')) :
    Creates env submitted s s' := by
  obtain ⟨stamped, enc, users, hst, henc, hsave, rfl⟩ := run_saveUser_eq_ok h
  have hst := stamped_of_beforeSave hst
  have hid : enc.id = submitted.id := henc.id_eq.trans hst.id_eq
  rcases save_cases hsave with ⟨old, c, hold, -, hup, -⟩ | ⟨c, -, hstores, hins, -⟩
  · exact absurd (hid.symm.trans hold) (id_ne_of_not_exist hex old hup.mem_old)
  · exact ⟨stamped, enc, c, hst, henc, hstores, hins, rfl⟩

/-- The write of the record updates or creates an account. -/
theorem writes_of_run_storeUser {ctx : CallContext} {submitted : User} {updatedId : Option Int}
    (h : (storeUser env ctx submitted followersStr).run s = (.ok updatedId, s')) :
    (submitted.exist = true ∧ Modifies env submitted s s') ∨
      (submitted.exist = false ∧ Creates env submitted s s') := by
  unfold storeUser at h
  split at h
  · next hex =>
      obtain ⟨k, s₁, hmodify, hpure⟩ := Eff.run_bind_eq_ok.1 h
      rw [Eff.run_pure, Prod.mk.injEq] at hpure
      exact Or.inl ⟨hex, hpure.2 ▸ run_modifyUser_eq_ok hmodify⟩
  · next hex =>
      obtain ⟨created, s₁, hsave, hpure⟩ := Eff.run_bind_eq_ok.1 h
      rw [Eff.run_pure, Prod.mk.injEq] at hpure
      have hex : submitted.exist = false := by simpa using hex
      exact Or.inr ⟨hex, hpure.2 ▸ creates_of_run_saveUser hex hsave⟩

theorem state_of_run_redirect {user : User} {updatedId : Option Int}
    {x : Except Throwable String} (h : (redirect user updatedId).run s = (x, s')) : s' = s := by
  unfold redirect at h
  split at h
  · exact (Prod.mk.inj h).2.symm
  · exact (Prod.mk.inj h).2.symm

/-- **What a save request that returned has done.** -/
theorem save_cases {url : String}
    (h : (save env now principal updatedUser followersStr).run s = (.ok url, s')) :
    Admitted principal updatedUser ∧ updatedUser.validate = true ∧
      ∃ submitted s₁, Submits principal updatedUser s submitted s₁ ∧
        ((submitted.exist = true ∧ Modifies env submitted s₁ s') ∨
          (submitted.exist = false ∧ Creates env submitted s₁ s')) := by
  unfold save at h
  obtain ⟨⟨⟩, hadmitted, h⟩ := Eff.run_ofExcept_bind_eq_ok.1 h
  unfold saveOrUpdateUserDetail at h
  obtain ⟨⟨⟩, hvalid, h⟩ := Eff.run_ofExcept_bind_eq_ok.1 h
  obtain ⟨submitted, s₁, hsubmits, h⟩ := Eff.run_bind_eq_ok.1 h
  obtain ⟨updatedId, s₂, hwrite, h⟩ := Eff.run_bind_eq_ok.1 h
  have hs : s' = s₂ := state_of_run_redirect h
  subst hs
  exact ⟨admitted_of_preAuthorizeSave hadmitted, checkArgument_eq_ok hvalid, submitted, s₁,
    submits_of_run_checkUser hsubmits, writes_of_run_storeUser hwrite⟩

/-- **A record with the id of a stored account** updates that account. -/
theorem updates_of_write {submitted : User} {s₁ : Store} {a : Account} (ha : a ∈ s.users)
    (hid : updatedUser.id = some a.id) (hsub : Submits principal updatedUser s submitted s₁)
    (hwrite : (submitted.exist = true ∧ Modifies env submitted s₁ s') ∨
      (submitted.exist = false ∧ Creates env submitted s₁ s')) :
    ∃ enc c, Encoded env submitted enc ∧ Stores (a.toUser.merge env.toLowerCase enc) c ∧
      s.users.Updates a (updatedRow a c) s'.users := by
  have hsubId : submitted.id = some a.id := hsub.id_eq.trans hid
  rcases hwrite with ⟨-, old, enc, c, hold, henc, hstores, hup, -⟩ | ⟨hnew, -⟩
  · rw [hsub.users_eq] at hup
    obtain rfl : old = a := eq_of_id_eq hup.mem_old ha (Option.some.inj (hold.symm.trans hsubId))
    exact ⟨enc, c, henc, hstores, hup⟩
  · exact absurd hsubId (id_ne_of_not_exist hnew a ha)

/-! ## Requests that throw -/

/-- The check of the principal leaves the table, and caches at most the
record of the submitted user id. -/
theorem state_of_run_checkUser {x : Except Throwable User}
    (h : (checkUser principal.user updatedUser).run s = (x, s')) :
    s' = s ∨ s' = { s with cache := s.cache.afterRead s.lookup updatedUser.userId } := by
  unfold checkUser at h
  split at h
  · right
    unfold checkGeneralUser at h
    rw [Eff.run_bind_of_ok (run_getUserById _ s)] at h
    -- whatever the checks on the record answer, it has been read
    revert h
    cases checkNotNull (s.cache.read s.lookup updatedUser.userId) none with
    | error e => exact fun h => (Prod.mk.inj h).2.symm
    | ok inDb =>
        rw [Eff.run_ofExcept_bind]
        dsimp only
        cases inDb.id with
        | none => exact fun h => (Prod.mk.inj h).2.symm
        | some id =>
            dsimp only
            rw [Eff.run_ofExcept_bind]
            split
            · exact fun h => (Prod.mk.inj h).2.symm
            · exact fun h => (Prod.mk.inj h).2.symm
  · exact Or.inl (Prod.mk.inj h).2.symm

/-- A write that throws leaves the store as it was. -/
theorem state_of_run_storeUser_error {ctx : CallContext} {submitted : User} {e : Throwable}
    (h : (storeUser env ctx submitted followersStr).run s = (.error e, s')) : s' = s := by
  unfold storeUser at h
  split at h
  · rcases Eff.run_bind_eq_error.1 h with hmodify | ⟨k, s₁, -, hpure⟩
    · exact state_of_run_modifyUser_error hmodify
    · cases hpure
  · rcases Eff.run_bind_eq_error.1 h with hsave | ⟨created, s₁, -, hpure⟩
    · exact state_of_run_saveUser_error hsave
    · cases hpure

/-- **What a save request that threw has done**: nothing but cache the
record of the submitted user id, unless the session user has no id and
the redirect threw after the write. -/
theorem save_error_cases {e : Throwable}
    (h : (save env now principal updatedUser followersStr).run s = (.error e, s')) :
    (s' = s ∨ s' = { s with cache := s.cache.afterRead s.lookup updatedUser.userId }) ∨
      (principal.user.id = none ∧ Admitted principal updatedUser ∧
        ∃ submitted s₁, Submits principal updatedUser s submitted s₁ ∧
          ((submitted.exist = true ∧ Modifies env submitted s₁ s') ∨
            (submitted.exist = false ∧ Creates env submitted s₁ s'))) := by
  unfold save at h
  rcases Eff.run_ofExcept_bind_eq_error.1 h with ⟨-, rfl⟩ | ⟨⟨⟩, hadmitted, h⟩
  · exact Or.inl (Or.inl rfl)
  unfold saveOrUpdateUserDetail at h
  rcases Eff.run_ofExcept_bind_eq_error.1 h with ⟨-, rfl⟩ | ⟨-, -, h⟩
  · exact Or.inl (Or.inl rfl)
  rcases Eff.run_bind_eq_error.1 h with h | ⟨submitted, s₁, hsubmits, h⟩
  · exact Or.inl (state_of_run_checkUser h)
  rcases Eff.run_bind_eq_error.1 h with hwrite | ⟨updatedId, s₂, hwrite, h⟩
  · rw [state_of_run_storeUser_error hwrite]
    exact Or.inl (state_of_run_checkUser hsubmits)
  · -- the write returned, so it is the redirect that threw
    have hs : s' = s₂ := state_of_run_redirect h
    subst hs
    refine Or.inr ⟨?_, admitted_of_preAuthorizeSave hadmitted, submitted, s₁,
      submits_of_run_checkUser hsubmits, writes_of_run_storeUser hwrite⟩
    unfold redirect at h
    split at h
    · assumption
    · cases h

/-- **A request that throws leaves the table as it was**, when the
session user has an id. -/
theorem users_of_run_save_error {e : Throwable} (hid : principal.user.exist = true)
    (h : (save env now principal updatedUser followersStr).run s = (.error e, s')) :
    s'.users = s.users := by
  rcases save_error_cases h with (rfl | rfl) | ⟨hnone, -⟩
  · rfl
  · rfl
  · simp [User.exist, hnone] at hid

/-- **What a save request has done to the store**, whether it returned or
threw: at most the record of the submitted user id was cached, or the
principal was admitted and an account was updated or created. -/
theorem run_save_cases (env : Env) (now : Date) (principal : SecuredUser) (updatedUser : User)
    (followersStr : Option String) (s : Store) :
    let s' := ((save env now principal updatedUser followersStr).run s).2
    (s' = s ∨ s' = { s with cache := s.cache.afterRead s.lookup updatedUser.userId }) ∨
      (Admitted principal updatedUser ∧
        ∃ submitted s₁, Submits principal updatedUser s submitted s₁ ∧
          (Modifies env submitted s₁ s' ∨ Creates env submitted s₁ s')) := by
  rcases h : (save env now principal updatedUser followersStr).run s with ⟨e | url, s'⟩
  · rcases save_error_cases h with hquiet | ⟨-, hadmitted, submitted, s₁, hsub, hwrite⟩
    · exact Or.inl hquiet
    · exact Or.inr ⟨hadmitted, submitted, s₁, hsub, hwrite.imp And.right And.right⟩
  · obtain ⟨hadmitted, -, submitted, s₁, hsub, hwrite⟩ := save_cases h
    exact Or.inr ⟨hadmitted, submitted, s₁, hsub, hwrite.imp And.right And.right⟩

end UserController

end Zooffice
