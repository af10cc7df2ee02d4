import Zooffice.Common.Run
import Zooffice.User.Ownership
/-!
# Roles and user ids under requests of other principals than administrators

The role of a `USER` is taken from the record found under the submitted
user id, which has to be the principal's own; so neither its role nor its
user id can change. There is no such check for a `SUPER_USER` or a
`SYSTEM_USER`: each may change both on its own account. What is kept in
every run is `KeepsIdentity`, for the accounts outside those; the lookup
goes through the cache, so the cache has to tell the truth about them
(`CacheTells`), and it does as long as it did at the start.
-/


namespace Zooffice

open Repository UserController

variable {env : Env} {P : Int → Prop} {s s' : Store}

/-! ## The invariant -/

/-- The accounts with an id in `P` have kept their role and user id. -/
def KeepsIdentity (P : Int → Prop) (r r' : Repository) : Prop :=
  ∀ a ∈ r, P a.id → ∃ b ∈ r', b.id = a.id ∧ b.role = a.role ∧ b.userId = a.userId

theorem KeepsIdentity.refl (r : Repository) : KeepsIdentity P r r :=
  fun a ha _ => ⟨a, ha, rfl, rfl, rfl⟩

theorem KeepsIdentity.trans {r r' r'' : Repository} (h : KeepsIdentity P r r')
    (h' : KeepsIdentity P r' r'') : KeepsIdentity P r r'' := by
  intro a ha hP
  obtain ⟨b, hb, hid, hrole, huser⟩ := h a ha hP
  obtain ⟨c, hc, hid', hrole', huser'⟩ := h' b hb (hid ▸ hP)
  exact ⟨c, hc, hid'.trans hid, hrole'.trans hrole, huser'.trans huser⟩

/-- What the cache holds of an account with an id in `P` is its role, and
is under its user id. -/
def CacheTells (P : Int → Prop) (s : Store) : Prop :=
  ∀ k v, s.cache.get? k = some (some v) →
    ∃ i, v.id = some i ∧
      (P i → ∃ a ∈ s.users, a.id = i ∧ v.role = some a.role ∧ k = some a.userId)

/-- A record the table returns tells what it holds. -/
theorem tells_of_lookup {k : Option String} {v : User} (h : s.lookup k = some v) :
    ∃ a ∈ s.users, v.id = some a.id ∧ v.role = some a.role ∧ k = some a.userId := by
  obtain ⟨a, ha, hk, rfl⟩ := findOneByUserId_eq_some_iff.1 h
  exact ⟨a, ha, rfl, rfl, hk.symm⟩

theorem cacheTells_of_coherent (h : s.cache.Coherent s.lookup) : CacheTells P s := by
  intro k v hv
  obtain ⟨a, ha, hid, hrole, hk⟩ := tells_of_lookup (h k (some v) hv).symm
  exact ⟨a.id, hid, fun _ => ⟨a, ha, rfl, hrole, hk⟩⟩

/-- A read through the cache returns a record that tells the truth. -/
theorem CacheTells.read {k : Option String} {v : User} (h : CacheTells P s)
    (hv : s.cache.read s.lookup k = some v) :
    ∃ i, v.id = some i ∧
      (P i → ∃ a ∈ s.users, a.id = i ∧ v.role = some a.role ∧ k = some a.userId) := by
  unfold Cache.read at hv
  cases hc : s.cache.get? k with
  | some w =>
      rw [hc, Option.getD_some] at hv
      exact h k v (hv ▸ hc)
  | none =>
      rw [hc, Option.getD_none] at hv
      obtain ⟨a, ha, hid, hrole, hk⟩ := tells_of_lookup hv
      exact ⟨a.id, hid, fun _ => ⟨a, ha, rfl, hrole, hk⟩⟩

/-- And it keeps the cache telling it. -/
theorem CacheTells.afterRead (h : CacheTells P s) (k : Option String) :
    CacheTells P { s with cache := s.cache.afterRead s.lookup k } := by
  intro k' v hv
  rcases Cache.get?_afterRead hv with hold | ⟨rfl, hnew⟩
  · exact h k' v hold
  · obtain ⟨a, ha, hid, hrole, hk⟩ := tells_of_lookup hnew.symm
    exact ⟨a.id, hid, fun _ => ⟨a, ha, rfl, hrole, hk⟩⟩

/-- A write that keeps the accounts in `P`, and evicts, keeps it too. -/
theorem CacheTells.write (h : CacheTells P s) (hkeep : KeepsIdentity P s.users s'.users)
    {k : Option String} (hcache : s'.cache = s.cache.evict k) : CacheTells P s' := by
  intro k' v hv
  rw [hcache] at hv
  have hne : k' ≠ k := by
    rintro rfl
    simp at hv
  rw [Cache.get?_evict_of_ne hne] at hv
  obtain ⟨i, hi, htells⟩ := h k' v hv
  refine ⟨i, hi, fun hP => ?_⟩
  obtain ⟨a, ha, rfl, hrole, hk⟩ := htells hP
  obtain ⟨b, hb, hid, hbrole, huser⟩ := hkeep a ha hP
  exact ⟨b, hb, hid, by rw [hrole, hbrole], by rw [hk, huser]⟩

/-! ## One request -/

/-- The request is not an administrator's, and a super user or system
user does not own an account in `P`. -/
def Confined (P : Int → Prop) (q : SaveRequest) : Prop :=
  q.principal.user.role ≠ some Role.admin ∧
    ∀ i, q.principal.user.id = some i → P i →
      q.principal.user.role ≠ some Role.superUser ∧
        q.principal.user.role ≠ some Role.systemUser

theorem Confined.eq_user {q : SaveRequest} {i : Int} (h : Confined P q)
    (hadmitted : Admitted q.principal q.updatedUser) (hi : q.principal.user.id = some i)
    (hP : P i) : q.principal.user.role = some Role.user := by
  have hnone : q.principal.user.role ≠ none := by
    rcases hadmitted with hadmin | ⟨hrole, -⟩
    · simp [hadmin]
    · exact hrole
  obtain ⟨hsuper, hsystem⟩ := h.2 i hi hP
  have hadmin := h.1
  revert hnone hadmin hsuper hsystem
  rcases q.principal.user.role with _ | role
  · simp
  · cases role <;> simp

/-- **The update of a general user keeps its role and user id.** The
record found under the submitted user id is its own account. -/
theorem identity_of_modifies {q : SaveRequest} {submitted : User} {s₁ : Store} {old row : Account}
    {enc : User} {c : Columns} (htells : CacheTells P s) (hP : P old.id)
    (hrole : q.principal.user.role = some Role.user) (hold : old ∈ s.users)
    (hid : submitted.id = some old.id)
    (hsub : Submits q.principal q.updatedUser s submitted s₁) (henc : Encoded env submitted enc)
    (hstores : Stores (old.toUser.merge env.toLowerCase enc) c) (hrow : row = updatedRow old c) :
    row.role = old.role ∧ row.userId = old.userId := by
  rcases hsub with ⟨-, found, hfound, hfid, rfl, rfl⟩ | ⟨hne, -, -⟩
  · obtain ⟨i, hi, hacc⟩ := htells.read hfound
    -- the record that was found is the stored one, by its id
    have hio : i = old.id := Option.some.inj (hi.symm.trans (hfid.trans hid))
    subst hio
    obtain ⟨a, ha, hai, har, hak⟩ := hacc hP
    have hao : a = old := eq_of_id_eq ha hold hai
    subst hao
    obtain ⟨p, rfl⟩ := henc.exists_password
    have hr := hstores.role
    have hu := hstores.userId
    simp only [User.merge, har, User.mergeObject_some, Option.some.injEq] at hr
    simp only [User.merge, Account.toUser, hak, User.mergeString_self, Option.some.injEq] at hu
    subst hrow
    exact ⟨hr.symm, hu.symm⟩
  · exact absurd hrole hne

/-- **What a request does to the accounts in `P`**, when an update of one
of them keeps its role and user id. -/
theorem keepsIdentity_of_save {q : SaveRequest} (htells : CacheTells P s)
    (hupdate : ∀ old ∈ s.users, P old.id → ∀ submitted s₁ enc c,
      Admitted q.principal q.updatedUser → Submits q.principal q.updatedUser s submitted s₁ →
      submitted.id = some old.id → Encoded env submitted enc →
      Stores (old.toUser.merge env.toLowerCase enc) c →
      (updatedRow old c).role = old.role ∧ (updatedRow old c).userId = old.userId)
    (hs' : s' = (q.run env s).2) : KeepsIdentity P s.users s'.users ∧ CacheTells P s' := by
  have hcases := run_save_cases env q.now q.principal q.updatedUser q.followersStr s
  rw [← SaveRequest.run, ← hs'] at hcases
  rcases hcases with (rfl | rfl) | ⟨hadmitted, submitted, s₁, hsub, hwrite⟩
  · exact ⟨KeepsIdentity.refl _, htells⟩
  · exact ⟨KeepsIdentity.refl _, htells.afterRead _⟩
  -- the lookup of a general user may have cached a record
  have htells₁ : CacheTells P s₁ := by
    rcases hsub with ⟨-, found, -, -, -, rfl⟩ | ⟨-, -, rfl⟩
    · exact htells.afterRead _
    · exact htells
  rw [← hsub.users_eq]
  rcases hwrite with ⟨old, enc, c, hid, henc, hstores, hup, hcache⟩ |
    ⟨stamped, enc, c, -, -, -, hins, hcache⟩
  · have hkeep : KeepsIdentity P s₁.users s'.users := by
      intro a ha hPa
      by_cases hao : a.id = old.id
      · have hao' : a = old := eq_of_id_eq ha hup.mem_old hao
        subst hao'
        have hkept := hupdate a (hsub.users_eq ▸ ha) hPa submitted s₁ enc c hadmitted hsub hid henc
          hstores
        exact ⟨updatedRow a c, hup.row_mem, rfl, hkept.1, hkept.2⟩
      · exact ⟨a, (hup.mem_of_ne hao).2 ha, rfl, rfl, rfl⟩
    exact ⟨hkeep, htells₁.write hkeep hcache⟩
  · have hkeep : KeepsIdentity P s₁.users s'.users :=
      fun a ha _ => ⟨a, (hins.mem_iff a).2 (Or.inl ha), rfl, rfl, rfl⟩
    exact ⟨hkeep, htells₁.write hkeep hcache⟩

/-- What a confined request does to them. -/
theorem confined_step {q : SaveRequest} (hq : Confined P q) (htells : CacheTells P s)
    (hs' : s' = (q.run env s).2) : KeepsIdentity P s.users s'.users ∧ CacheTells P s' := by
  refine keepsIdentity_of_save htells (fun old hold hP submitted s₁ enc c hadmitted hsub hid henc
    hstores => ?_) hs'
  -- an update reaches an account in `P` only when the principal owns it
  have hown : q.principal.user.id = some old.id :=
    (id_eq_of_admitted hq.1 hadmitted).trans (hsub.id_eq.symm.trans hid)
  exact identity_of_modifies htells hP (hq.eq_user hadmitted hown hP) hold hid hsub henc hstores rfl

/-! ## Sequences of requests -/

/-- The store a request leaves, whether it returned or threw. -/
def serve (env : Env) (s : Store) (q : SaveRequest) : Option Store := some (q.run env s).2

/-- **Confined requests keep the roles and user ids in `P`.** -/
theorem keepsIdentity_of_perform {reqs : List SaveRequest} (hconf : ∀ q ∈ reqs, Confined P q)
    (htells : CacheTells P s) (h : perform (serve env) s reqs = some s') :
    KeepsIdentity P s.users s'.users := by
  have hinv := perform_invariant (G := fun _ q => Confined P q)
    (I := fun t => KeepsIdentity P s.users t.users ∧ CacheTells P t)
    (fun t q t' ht hq hstep => by
      have hkeep := confined_step hq ht.2 (Option.some.inj hstep).symm
      exact ⟨ht.1.trans hkeep.1, hkeep.2⟩)
    ⟨KeepsIdentity.refl _, htells⟩ (along_of_forall (fun q hq _ => hconf q hq) s) h
  exact hinv.1

/-- **Only the own account of a super user or system user may change its
role or user id.** Whatever principals that are not administrators
submit, every other account keeps both. -/
theorem role_and_userId_kept (env : Env) (s s' : Store) (reqs : List SaveRequest)
    (hcoherent : s.cache.Coherent s.lookup)
    (hroles : ∀ q ∈ reqs, q.principal.user.role ≠ some Role.admin)
    (hrun : perform (serve env) s reqs = some s') :
    ∀ a ∈ s.users,
      (¬ ∃ q ∈ reqs, q.principal.user.id = some a.id ∧
        (q.principal.user.role = some Role.superUser ∨
          q.principal.user.role = some Role.systemUser)) →
      ∃ b ∈ s'.users, b.id = a.id ∧ b.role = a.role ∧ b.userId = a.userId := by
  intro a ha hfree
  refine keepsIdentity_of_perform (P := fun i => i = a.id) ?_ (cacheTells_of_coherent hcoherent)
    hrun a ha rfl
  rintro q hq
  refine ⟨hroles q hq, ?_⟩
  rintro i hi rfl
  exact ⟨fun hsuper => hfree ⟨q, hq, hi, Or.inl hsuper⟩,
    fun hsystem => hfree ⟨q, hq, hi, Or.inr hsystem⟩⟩

/-- A general user that asks for another role, and under its own id. -/
def generalUserForm : SaveRequest where
  now := 1
  principal := ⟨{ id := some 2, userId := some "user", role := some Role.user }, none⟩
  updatedUser :=
    { id := some 2, userId := some "user", userName := some "user", email := some "user@nhn.com",
      role := some Role.admin }
  followersStr := none

/-- And one of another name. -/
def newNameForm : SaveRequest where
  now := 2
  principal := generalUserForm.principal
  updatedUser :=
    { id := some 2, userId := some "user", userName := some "bob", email := some "user@nhn.com" }
  followersStr := none

/-- The store after both requests. -/
def storeAfterForms : Store :=
  (perform (serve plaintextEnv) DBInit.plaintextStarted [generalUserForm, newNameForm]).getD
    DBInit.plaintextStarted

theorem role_and_userId_kept_generalUserForm :
    ∃ a ∈ DBInit.plaintextStarted.users, a.id = 2 ∧
      ∃ b ∈ storeAfterForms.users, b.id = a.id ∧ b.role = a.role ∧ b.userId = a.userId := by
  obtain ⟨u, hu⟩ : ∃ u, DBInit.plaintextStarted.users.findOne 2 = some u := ⟨_, rfl⟩
  obtain ⟨a, ha, hid, -⟩ := findOne_eq_some_iff.1 hu
  have hfree : ¬ ∃ q ∈ [generalUserForm, newNameForm], q.principal.user.id = some a.id ∧
      (q.principal.user.role = some Role.superUser ∨
        q.principal.user.role = some Role.systemUser) := by
    rw [hid]
    decide
  exact ⟨a, ha, hid, role_and_userId_kept plaintextEnv DBInit.plaintextStarted _
    [generalUserForm, newNameForm] (Cache.coherent_empty _) (by decide) rfl a ha hfree⟩

/-- A super user that asks for another role and another user id. -/
def superUserForm : SaveRequest where
  now := 1
  principal := ⟨{ id := some 3, userId := some "superuser", role := some Role.superUser }, none⟩
  updatedUser :=
    { id := some 3, userId := some "root", userName := some "superuser",
      email := some "superuser@nhn.com", role := some Role.admin }
  followersStr := none

/-- **It gets them.** -/
theorem superUser_changes_role_and_userId :
    superUserForm.principal.user.role ≠ some Role.admin ∧
      perform (serve plaintextEnv) DBInit.plaintextStarted [superUserForm] =
        some (superUserForm.run plaintextEnv DBInit.plaintextStarted).2 ∧
      ¬ KeepsIdentity (fun _ => True) DBInit.plaintextStarted.users
        (superUserForm.run plaintextEnv DBInit.plaintextStarted).2.users := by
  refine ⟨by decide, rfl, fun hkeep => ?_⟩
  have hbefore : DBInit.plaintextStarted.users.findOne 3 =
      some { id := some 3, userId := some "superuser", userName := some "superuser",
             password := some "superuser\x7bsuperuser\x7d", email := some "superuser@nhn.com",
             role := some Role.superUser, createdDate := some 0 } := by rfl
  obtain ⟨a, ha, haid, harec⟩ := findOne_eq_some_iff.1 hbefore
  obtain ⟨b, hb, hid, hrole, -⟩ := hkeep a ha trivial
  have hafter : ((superUserForm.run plaintextEnv DBInit.plaintextStarted).2.users.findOne 3).map
      User.role = some (some Role.admin) := by rfl
  have hfound := findOne_eq_some_iff.2 ⟨b, hb, hid.trans haid, rfl⟩
  rw [hfound] at hafter
  have hadmin : b.role = Role.admin := by simpa [Account.toUser] using hafter
  have hsuper : a.role = Role.superUser := by
    have := congrArg User.role harec
    simpa [Account.toUser] using this
  rw [hadmin, hsuper] at hrole
  cases hrole

end Zooffice
