import Zooffice.User.Model.Service
import Zooffice.User.Repository
/-!
# What the service methods do

One lemma for each method says what a call that returned has done, and
one that a call that threw has changed nothing. The controller and the
logins are proved from these.
-/


namespace Zooffice

open Repository

variable {env : Env} {ctx : CallContext} {s s' : Store} {u u' : User}

/-! ## Stamps and encoded passwords -/

/-- `u'` is `u` up to the four stamps of `ModelAspect`. -/
def Stamped (u u' : User) : Prop :=
  ∃ cd cu md mu, u' = { u with
    createdDate := cd, createdUser := cu, lastModifiedDate := md, lastModifiedUser := mu }

theorem Stamped.refl (u : User) : Stamped u u := ⟨_, _, _, _, rfl⟩

theorem Stamped.id_eq (h : Stamped u u') : u'.id = u.id := by
  obtain ⟨_, _, _, _, rfl⟩ := h; rfl

theorem Stamped.userId_eq (h : Stamped u u') : u'.userId = u.userId := by
  obtain ⟨_, _, _, _, rfl⟩ := h; rfl

theorem Stamped.password_eq (h : Stamped u u') : u'.password = u.password := by
  obtain ⟨_, _, _, _, rfl⟩ := h; rfl

/-- The aspect stamps the record and changes nothing else. -/
theorem stamped_of_beforeSave (h : beforeSave ctx u = .ok u') : Stamped u u' := by
  unfold beforeSave at h
  split at h
  · cases hc : getCurrentUser ctx with
    | error e => rw [hc] at h; cases h
    | ok currentUser =>
        rw [hc] at h
        change (if _ then _ else _) = Except.ok u' at h
        split at h
        · cases h; exact ⟨_, _, _, _, rfl⟩
        · cases h; exact ⟨_, _, _, _, rfl⟩
  · cases h; exact Stamped.refl u

/-- `u'` is `u` with its password encoded: under the salt of `u` itself
when it has one that is not blank, else as it was. -/
def Encoded (env : Env) (u u' : User) : Prop :=
  (isNotBlank u.password = false ∧ u' = u) ∨
    ∃ p e, u.password = some p ∧ isNotBlank (some p) = true ∧
      env.passwordEncoder.encodePassword p u.userId = .ok e ∧ u' = { u with password := some e }

theorem encoded_of_encodePassword (h : UserService.encodePassword env u = .ok u') :
    Encoded env u u' := by
  unfold UserService.encodePassword at h
  split at h
  · next hp =>
      cases h
      exact Or.inl ⟨by rw [hp]; rfl, rfl⟩
  · next p hp =>
      split at h
      · next hb =>
          cases he : env.passwordEncoder.encodePassword p u.userId with
          | error e =>
              change (env.passwordEncoder.encodePassword p u.userId >>= _) = _ at h
              rw [he] at h
              cases h
          | ok e =>
              change (env.passwordEncoder.encodePassword p u.userId >>= _) = _ at h
              rw [he] at h
              cases h
              exact Or.inr ⟨p, e, hp, hb, he, rfl⟩
      · next hb =>
          cases h
          exact Or.inl ⟨by rw [hp]; simpa using hb, rfl⟩

theorem Encoded.exists_password (h : Encoded env u u') :
    ∃ p, u' = { u with password := p } := by
  rcases h with ⟨-, rfl⟩ | ⟨p, e, -, -, -, rfl⟩
  · exact ⟨_, rfl⟩
  · exact ⟨_, rfl⟩

/-- No password stays none. -/
theorem Encoded.password_of_none (h : Encoded env u u') (hnone : u.password = none) :
    u'.password = none := by
  rcases h with ⟨-, rfl⟩ | ⟨_, _, hsome, -, -, -⟩
  · exact hnone
  · exact absurd (hsome.symm.trans hnone) nofun

theorem Encoded.id_eq (h : Encoded env u u') : u'.id = u.id := by
  obtain ⟨_, rfl⟩ := h.exists_password; rfl

theorem Encoded.userId_eq (h : Encoded env u u') : u'.userId = u.userId := by
  obtain ⟨_, rfl⟩ := h.exists_password; rfl

/-! ## The repository in the running transaction -/

@[simp] theorem run_getUserById (k : Option String) (s : Store) :
    (UserService.getUserById k).run s =
      (.ok (s.cache.read s.lookup k), { s with cache := s.cache.afterRead s.lookup k }) := rfl

@[simp] theorem run_evictUser (k : Option String) (s : Store) :
    (evictUser k).run s = (.ok (), { s with cache := s.cache.evict k }) := rfl

theorem run_saveRepository_eq_ok :
    (saveRepository u).run s = (.ok u', s') ↔
      ∃ users, s.users.save u = .ok (u', users) ∧ s' = { s with users } := by
  simp only [Eff.run, saveRepository]
  rcases s.users.save u with e | ⟨saved, users⟩
  · simp
  · simp only [Prod.mk.injEq, Except.ok.injEq]
    constructor
    · rintro ⟨rfl, rfl⟩
      exact ⟨users, ⟨rfl, rfl⟩, rfl⟩
    · rintro ⟨users, ⟨rfl, rfl⟩, rfl⟩
      exact ⟨rfl, rfl⟩

theorem state_of_run_saveRepository_error {e : Throwable}
    (h : (saveRepository u).run s = (.error e, s')) : s' = s := by
  simp only [Eff.run, saveRepository] at h
  rcases hr : s.users.save u with e | ⟨saved, users⟩
  · rw [hr] at h
    cases h
    rfl
  · rw [hr] at h
    cases h

/-! ## The methods that write -/

/-- **A `saveUser` that returned** has stored the stamped and encoded
record and evicted its user id. -/
theorem run_saveUser_eq_ok (h : (UserService.saveUser env ctx u).run s = (.ok u', s')) :
    ∃ stamped enc users, beforeSave ctx u = .ok stamped ∧ Encoded env stamped enc ∧
      s.users.save enc = .ok (u', users) ∧ s' = ⟨users, s.cache.evict u.userId⟩ := by
  unfold UserService.saveUser at h
  obtain ⟨stamped, hst, h⟩ := Eff.run_ofExcept_bind_eq_ok.1 h
  obtain ⟨created, s₁, hbody, h⟩ := Eff.run_bind_eq_ok.1 h
  obtain ⟨enc, henc, hsave⟩ :=
    Eff.run_ofExcept_bind_eq_ok.1 (Eff.run_transactional_eq_ok.1 hbody)
  obtain ⟨users, hsaved, rfl⟩ := run_saveRepository_eq_ok.1 hsave
  -- the eviction comes behind the transaction, and its key is the user id of the argument
  rw [evictUser, Eff.run_modify_bind, Eff.run_pure, Prod.mk.injEq, Except.ok.injEq] at h
  obtain ⟨rfl, rfl⟩ := h
  exact ⟨stamped, enc, users, hst, encoded_of_encodePassword henc, hsaved, by
    rw [(stamped_of_beforeSave hst).userId_eq]⟩

/-- **When a `saveUser` returns**: the aspect stamps the record, its
password can be encoded, and what comes out can be stored. -/
theorem run_saveUser_returns_iff :
    (∃ u' s', (UserService.saveUser env ctx u).run s = (.ok u', s')) ↔
      ∃ stamped enc c, beforeSave ctx u = .ok stamped ∧
        UserService.encodePassword env stamped = .ok enc ∧ toColumns enc = .ok c ∧
        ∀ a ∈ s.users, a.userId = c.userId → enc.id = some a.id := by
  constructor
  · rintro ⟨u', s', h⟩
    obtain ⟨stamped, hst, h⟩ := Eff.run_ofExcept_bind_eq_ok.1 h
    obtain ⟨created, s₁, hbody, -⟩ := Eff.run_bind_eq_ok.1 h
    obtain ⟨enc, henc, hsave⟩ :=
      Eff.run_ofExcept_bind_eq_ok.1 (Eff.run_transactional_eq_ok.1 hbody)
    obtain ⟨users, hsaved, -⟩ := run_saveRepository_eq_ok.1 hsave
    obtain ⟨c, hc, hfree⟩ := save_returns_iff.1 ⟨_, users, hsaved⟩
    exact ⟨stamped, enc, c, hst, henc, hc, hfree⟩
  · rintro ⟨stamped, enc, c, hst, henc, hc, hfree⟩
    obtain ⟨saved, users, hsaved⟩ := save_returns_iff.2 ⟨c, hc, hfree⟩
    have hwrite : (saveRepository enc).run s = (.ok saved, { s with users }) :=
      run_saveRepository_eq_ok.2 ⟨users, hsaved, rfl⟩
    refine ⟨saved, ⟨users, s.cache.evict stamped.userId⟩, ?_⟩
    refine Eff.run_ofExcept_bind_eq_ok.2 ⟨stamped, hst, Eff.run_bind_eq_ok.2
      ⟨saved, { s with users }, Eff.run_transactional_eq_ok.2 ?_, rfl⟩⟩
    exact Eff.run_ofExcept_bind_eq_ok.2 ⟨enc, henc, hwrite⟩

/-- **The same for `saveUser` with a role.** -/
theorem run_saveUserWithRole_eq_ok {role : Role} {x : Unit}
    (h : (UserService.saveUserWithRole env ctx u role).run s = (.ok x, s')) :
    ∃ stamped enc saved users, beforeSave ctx u = .ok stamped ∧ Encoded env stamped enc ∧
      s.users.save { enc with role := some role } = .ok (saved, users) ∧
      s' = ⟨users, s.cache.evict u.userId⟩ := by
  unfold UserService.saveUserWithRole at h
  obtain ⟨stamped, hst, h⟩ := Eff.run_ofExcept_bind_eq_ok.1 h
  obtain ⟨enc, henc, h⟩ := Eff.run_ofExcept_bind_eq_ok.1 h
  obtain ⟨saved, s₂, hsave, h⟩ := Eff.run_bind_eq_ok.1 h
  obtain ⟨users, hsaved, rfl⟩ := run_saveRepository_eq_ok.1 hsave
  rw [run_evictUser, Prod.mk.injEq] at h
  have henc := encoded_of_encodePassword henc
  exact ⟨stamped, enc, saved, users, hst, henc, hsaved, by
    rw [← h.2, henc.userId_eq, (stamped_of_beforeSave hst).userId_eq]⟩

/-- The merge of a record into the account with its id has that id. -/
theorem merge_id {old : Account} {lower : String → String} (h : u.id = some old.id) :
    (old.toUser.merge lower u).id = some old.id := by
  change User.mergeObject (some old.id) u.id = some old.id
  rw [h]
  rfl

/-- **The user id that a merge stores** is the submitted one, or the old
one when a blank one is submitted. -/
theorem userId_of_merge_cases {old : Account} {c : Columns} {lower : String → String}
    (hstores : Stores (old.toUser.merge lower u) c) :
    (isNotBlank u.userId = true ∧ some c.userId = u.userId) ∨
      (isNotBlank u.userId = false ∧ c.userId = old.userId) := by
  have huser : User.mergeString false (some old.userId) u.userId = some c.userId :=
    hstores.userId
  cases hb : isNotBlank u.userId with
  | true =>
      rw [User.mergeString_of_notBlank hb] at huser
      exact Or.inl ⟨rfl, huser.symm⟩
  | false =>
      rw [User.mergeString_of_blank hb] at huser
      exact Or.inr ⟨rfl, (Option.some.inj huser).symm⟩

/-- It is the submitted one, when that is not blank or is the old one. -/
theorem userId_of_merge {old : Account} {c : Columns} {lower : String → String}
    (hstores : Stores (old.toUser.merge lower u) c)
    (h : isNotBlank u.userId = true ∨ u.userId = some old.userId) : u.userId = some c.userId := by
  rcases userId_of_merge_cases hstores with ⟨-, huser⟩ | ⟨hb, huser⟩
  · exact huser.symm
  · rw [huser]
    exact h.resolve_left (by simp [hb])

/-- And the old one, when the submitted one is blank or is the old one. -/
theorem userId_of_merge_blank {old : Account} {c : Columns} {lower : String → String}
    (hstores : Stores (old.toUser.merge lower u) c)
    (h : isNotBlank u.userId = false ∨ u.userId = some old.userId) : c.userId = old.userId := by
  rcases userId_of_merge_cases hstores with ⟨hb, huser⟩ | ⟨-, huser⟩
  · exact Option.some.inj (huser.trans (h.resolve_left (by simp [hb])))
  · exact huser

/-- **A `modifyUser` that returned** has updated the stored account with
the id of the record to its merge with the encoded record, and evicted
the user id the record carries. -/
theorem run_modifyUser_eq_ok {share k : Option String}
    (h : (UserService.modifyUser env u share).run s = (.ok k, s')) :
    ∃ old enc c, u.id = some old.id ∧ Encoded env u enc ∧
      Stores (old.toUser.merge env.toLowerCase enc) c ∧
      s.users.Updates old (updatedRow old c) s'.users ∧ s'.cache = s.cache.evict u.userId := by
  unfold UserService.modifyUser at h
  obtain ⟨userId, s₁, hbody, h⟩ := Eff.run_bind_eq_ok.1 h
  rw [evictUser, Eff.run_modify_bind, Eff.run_pure, Prod.mk.injEq] at h
  obtain ⟨-, rfl⟩ := h
  obtain ⟨id, hid, hbody⟩ :=
    Eff.run_ofExcept_bind_eq_ok.1 (Eff.run_transactional_eq_ok.1 hbody)
  obtain ⟨enc, henc, hbody⟩ := Eff.run_ofExcept_bind_eq_ok.1 hbody
  have hid := checkNotNull_eq_ok hid
  have henc := encoded_of_encodePassword henc
  rw [Eff.run_get_bind] at hbody
  cases hfind : s.users.findOne id with
  | none => rw [hfind] at hbody; simp at hbody
  | some target =>
      rw [hfind] at hbody
      obtain ⟨old, hold, rfl, rfl⟩ := findOne_eq_some_iff.1 hfind
      obtain ⟨saved, s₆, hsave, hbody⟩ := Eff.run_bind_eq_ok.1 hbody
      obtain ⟨users, hsaved, rfl⟩ := run_saveRepository_eq_ok.1 hsave
      rw [Eff.run_pure, Prod.mk.injEq] at hbody
      obtain ⟨-, rfl⟩ := hbody
      have hmid : (old.toUser.merge env.toLowerCase enc).id = some old.id :=
        merge_id (henc.id_eq.trans hid)
      -- the merged record has the id of `old`, so the save is an update of it
      rcases save_cases hsaved with ⟨old', c, hid', hst, hup, -⟩ | ⟨c, hnew, -⟩
      · rw [hmid, Option.some.injEq] at hid'
        have : old' = old := eq_of_id_eq hup.mem_old hold hid'.symm
        subst this
        exact ⟨old', enc, c, hid, henc, hst, hup, rfl⟩
      · exact absurd hmid (hnew old hold)

/-- The loop of `deleteUsers` takes out one account after the other. -/
theorem run_deleteEach_eq_ok {userIds : List String} {x : Unit}
    (h : (UserService.deleteEach userIds).run s = (.ok x, s')) :
    s.users.Deletes userIds s'.users ∧ s'.cache = s.cache := by
  -- on the user ids, for every store the loop may have got to
  induction userIds generalizing s with
  | nil =>
      obtain rfl : s = s' := (Prod.mk.inj h).2
      exact ⟨⟨List.nodup_nil, fun k hk => absurd hk List.not_mem_nil, by simp⟩, rfl⟩
  | cons k ks ih =>
      rw [UserService.deleteEach, Eff.run_get_bind] at h
      obtain ⟨users, hdelete, h⟩ := Eff.run_ofExcept_bind_eq_ok.1 h
      rw [Eff.run_modify_bind] at h
      obtain ⟨hrest, hcache⟩ := ih h
      obtain ⟨hstored, hmem⟩ := delete_found_eq_ok hdelete
      have hmem' : ∀ a, a ∈ s'.users ↔ (a ∈ s.users ∧ a.userId ≠ k) ∧ a.userId ∉ ks :=
        fun a => (hrest.mem_iff a).trans (and_congr_left fun _ => hmem a)
      refine ⟨⟨List.nodup_cons.2 ⟨fun hk => ?_, hrest.nodup⟩, fun i hi => ?_, fun a => ?_⟩, hcache⟩
      · -- a second deletion would have found nothing
        obtain ⟨a, ha, hak⟩ := hrest.stored k hk
        exact ((hmem a).1 ha).2 hak
      · rcases List.mem_cons.1 hi with rfl | hi
        · exact hstored
        · obtain ⟨a, ha, hai⟩ := hrest.stored i hi
          exact ⟨a, ((hmem a).1 ha).1, hai⟩
      · rw [hmem' a, List.mem_cons, not_or, and_assoc]

/-- **A `deleteUsers` that returned** has taken out the named accounts, and
emptied the cache. -/
theorem run_deleteUsers_eq_ok {userIds : List String} {x : Unit}
    (h : (UserService.deleteUsers userIds).run s = (.ok x, s')) :
    s.users.Deletes userIds s'.users ∧ s'.cache = Cache.empty := by
  obtain ⟨⟨⟩, s₁, hbody, hempty⟩ := Eff.run_bind_eq_ok.1 h
  rw [Eff.run_modify, Prod.mk.injEq] at hempty
  rw [← hempty.2]
  exact ⟨(run_deleteEach_eq_ok (Eff.run_transactional_eq_ok.1 hbody)).1, rfl⟩

/-! ## The methods that throw -/

/-- A `saveUser` that threw has changed nothing. -/
theorem state_of_run_saveUser_error {e : Throwable}
    (h : (UserService.saveUser env ctx u).run s = (.error e, s')) : s' = s := by
  unfold UserService.saveUser at h
  rcases Eff.run_ofExcept_bind_eq_error.1 h with ⟨-, h⟩ | ⟨stamped, -, h⟩
  · exact h
  rcases Eff.run_bind_eq_error.1 h with h | ⟨created, s₁, -, h⟩
  · -- the transaction takes the table back, and nothing has touched the cache
    obtain ⟨s₁, hbody, rfl⟩ := Eff.run_transactional_eq_error.1 h
    rcases Eff.run_ofExcept_bind_eq_error.1 hbody with ⟨-, rfl⟩ | ⟨enc, -, hsave⟩
    · rfl
    · rw [state_of_run_saveRepository_error hsave]
      rfl
  · simp [evictUser] at h

/-- A `modifyUser` that threw has changed nothing. -/
theorem state_of_run_modifyUser_error {e : Throwable} {share : Option String}
    (h : (UserService.modifyUser env u share).run s = (.error e, s')) : s' = s := by
  unfold UserService.modifyUser at h
  rcases Eff.run_bind_eq_error.1 h with h | ⟨userId, s₁, -, h⟩
  · obtain ⟨s₁, hbody, rfl⟩ := Eff.run_transactional_eq_error.1 h
    rcases Eff.run_ofExcept_bind_eq_error.1 hbody with ⟨-, rfl⟩ | ⟨id, -, hbody⟩
    · rfl
    rcases Eff.run_ofExcept_bind_eq_error.1 hbody with ⟨-, rfl⟩ | ⟨enc, -, hbody⟩
    · rfl
    rw [Eff.run_get_bind] at hbody
    cases hfind : s.users.findOne id with
    | none =>
        rw [hfind, Eff.run_throw, Prod.mk.injEq] at hbody
        rw [← hbody.2]
        rfl
    | some target =>
        rw [hfind] at hbody
        rcases Eff.run_bind_eq_error.1 hbody with hsave | ⟨saved, s₂, -, hbody⟩
        · rw [state_of_run_saveRepository_error hsave]
          rfl
        · cases hbody
  · simp [evictUser] at h

/-- The loop of `deleteUsers` does not touch the cache. -/
theorem cache_of_run_deleteEach {userIds : List String} {y : Except Throwable Unit}
    (h : (UserService.deleteEach userIds).run s = (y, s')) : s'.cache = s.cache := by
  induction userIds generalizing s with
  | nil => rw [← (Prod.mk.inj h).2]
  | cons k ks ih =>
      rw [UserService.deleteEach, Eff.run_get_bind, Eff.run_ofExcept_bind] at h
      split at h
      · have hrest := ih h
        exact hrest
      · rw [← (Prod.mk.inj h).2]

/-- A `deleteUsers` that threw has changed nothing. -/
theorem state_of_run_deleteUsers_error {userIds : List String} {e : Throwable}
    (h : (UserService.deleteUsers userIds).run s = (.error e, s')) : s' = s := by
  rcases Eff.run_bind_eq_error.1 h with h | ⟨⟨⟩, s₁, -, hempty⟩
  · obtain ⟨s₁, hbody, rfl⟩ := Eff.run_transactional_eq_error.1 h
    exact congrArg (Store.mk s.users) (cache_of_run_deleteEach hbody)
  · cases hempty

end Zooffice
