import Zooffice.Security.Lifetime
import Zooffice.User.Model.Registration
/-!
# From the check of a user id to the creation of its account

The page asks whether a user id is taken before it sends the form, and
nothing reserves the user id in between. The answer stays right as long as
nothing brings a record of that user id; so an account is created then, and
after the other answer it is not.
-/


namespace Zooffice

open Repository UserController

variable {env : Env} {s s' t : Store} {k : String} {q : SaveRequest}

/-- **A request that creates an account**: an administrator that is stored
sends it, the record is a new one with a user id and a role, and its
password can be encoded. -/
structure Registers (env : Env) (k : String) (q : SaveRequest) : Prop where
  admin : q.principal.user.role = some Role.admin
  stored : q.principal.user.id ≠ none
  new : q.updatedUser.exist = false
  valid : q.updatedUser.validate = true
  userId : q.updatedUser.userId = some k
  role : q.updatedUser.role ≠ none
  encodes : ∃ enc, UserService.encodePassword env q.updatedUser = .ok enc

namespace Registers

theorem preAuthorize (h : Registers env k q) :
    preAuthorizeSave q.principal q.updatedUser = .ok () := by
  have hauthorities : q.principal.getAuthorities = .ok ["A"] := by
    rw [SecuredUser.getAuthorities, h.admin]
    rfl
  rw [preAuthorizeSave, hauthorities]
  rfl

/-- The aspect stamps the record. -/
theorem exists_stamped (h : Registers env k q) :
    ∃ stamped, beforeSave (requestContext q.now q.principal) q.updatedUser = .ok stamped := by
  change ∃ stamped, (if q.updatedUser.exist = true then _ else _) = Except.ok stamped
  rw [h.new]
  exact ⟨_, rfl⟩

end Registers

/-- Whether a password can be encoded depends on it and on the user id. -/
theorem exists_encodePassword {u v : User} (hpassword : v.password = u.password)
    (huser : v.userId = u.userId) (h : ∃ enc, UserService.encodePassword env u = .ok enc) :
    ∃ enc, UserService.encodePassword env v = .ok enc := by
  obtain ⟨enc, h⟩ := h
  have hsalt : getSalt ⟨v, none⟩ = getSalt ⟨u, none⟩ := huser
  unfold UserService.encodePassword at h ⊢
  rw [hpassword]
  cases hp : u.password with
  | none => exact ⟨_, rfl⟩
  | some p =>
      rw [hp] at h
      dsimp only at h ⊢
      by_cases hblank : isNotBlank (some p) = true
      · rw [if_pos hblank] at h ⊢
        obtain ⟨encoded, hencoded, -⟩ := except_bind_eq_ok.1 h
        exact ⟨_, except_bind_eq_ok.2 ⟨encoded, hsalt ▸ hencoded, rfl⟩⟩
      · rw [if_neg hblank]
        exact ⟨_, rfl⟩

/-- What is stored of a stamped record of such a request. -/
theorem exists_toColumns (h : Registers env k q) {stamped enc : User}
    (hst : StampedBy q.now q.principal q.updatedUser stamped) (henc : Encoded env stamped enc) :
    ∃ c, toColumns enc = .ok c ∧ c.userId = k := by
  obtain ⟨role, hrole⟩ := Option.ne_none_iff_exists'.1 h.role
  obtain ⟨i, hi⟩ := Option.ne_none_iff_exists'.1 h.stored
  obtain ⟨p, rfl⟩ := henc.exists_password
  have hcreated : stamped.createdUser = some ⟨some i⟩ := (hst.createdUser h.new).trans (hi ▸ rfl)
  have hmodified : stamped.lastModifiedUser = some ⟨some i⟩ := hst.lastModifiedUser.trans (hi ▸ rfl)
  have huser : stamped.userId = some k := hst.stamped.userId_eq.trans h.userId
  have hstampedRole : stamped.role = some role := by
    obtain ⟨cd, cu, md, mu, rfl⟩ := hst.stamped
    exact hrole
  unfold toColumns
  simp only [hcreated, hmodified, huser, hstampedRole, toColumn]
  exact ⟨_, rfl, rfl⟩

/-- The service saves the record where the user id is not taken. -/
theorem exists_run_saveUser (h : Registers env k q) (hfree : s.lookup (some k) = none) :
    ∃ created s', (UserService.saveUser env (requestContext q.now q.principal)
      q.updatedUser).run s = (.ok created, s') := by
  obtain ⟨stamped, hbefore⟩ := h.exists_stamped
  have hst := stampedBy_of_beforeSave hbefore
  obtain ⟨enc, hencode⟩ := exists_encodePassword hst.stamped.password_eq hst.stamped.userId_eq
    h.encodes
  have henc := encoded_of_encodePassword hencode
  obtain ⟨c, hc, hck⟩ := exists_toColumns h hst henc
  have hid : enc.id = q.updatedUser.id := henc.id_eq.trans hst.stamped.id_eq
  have hunused : ∀ a ∈ s.users, a.userId ≠ c.userId := by
    intro a ha hak
    rw [hck] at hak
    rw [Store.lookup, ← hak, findOneByUserId_of_mem ha] at hfree
    cases hfree
  obtain ⟨created, users, hsave⟩ := exists_save_new hc
    (hid ▸ id_ne_of_not_exist h.new) hunused
  unfold UserService.saveUser
  rw [Eff.run_ofExcept_bind, hbefore]
  dsimp only
  have hbody : (Eff.transactional Store.rollback (do
      let user ← Eff.ofExcept (UserService.encodePassword env stamped)
      saveRepository user) : App User).run s = (.ok created, { s with users }) :=
    Eff.run_transactional_eq_ok.2 (Eff.run_ofExcept_bind_eq_ok.2
      ⟨enc, hencode, run_saveRepository_eq_ok.2 ⟨users, hsave, rfl⟩⟩)
  rw [Eff.run_bind_of_ok hbody]
  exact ⟨_, _, rfl⟩

/-- A request that returned has inserted an account with the user id. -/
theorem inserts_of_registers {url : String} (h : Registers env k q)
    (hrun : q.run env s = (.ok url, s')) :
    ∃ row : Account, row.userId = k ∧ s.users.Inserts row s'.users := by
  obtain ⟨-, -, submitted, s₁, hsub, hwrite⟩ := save_cases hrun
  rcases hwrite with ⟨hexist, -⟩ | ⟨-, stamped, enc, c, hst, henc, hstores, hins, -⟩
  · rw [exist_congr hsub.id_eq, h.new] at hexist
    cases hexist
  · rw [hsub.users_eq] at hins
    have huser : some c.userId = some k := by
      rw [← hstores.userId, henc.userId_eq, hst.userId_eq, hsub.userId_eq, h.userId]
    exact ⟨_, Option.some.inj huser, hins⟩

/-- **The request creates the account exactly where the user id is not
taken**, and throws where it is. -/
theorem run_save_returns_iff (h : Registers env k q) :
    (∃ url, (q.run env s).1 = .ok url) ↔ s.lookup (some k) = none := by
  constructor
  · rintro ⟨url, hurl⟩
    obtain ⟨row, hk, hins⟩ := inserts_of_registers h (Prod.ext hurl rfl)
    refine Option.eq_none_iff_forall_ne_some.2 fun x hx => ?_
    obtain ⟨a, ha, hak, -⟩ := findOneByUserId_eq_some_iff.1 hx
    exact hins.userId_free a ha ((Option.some.inj hak).trans hk.symm)
  · intro hfree
    obtain ⟨created, s', hsave⟩ := exists_run_saveUser h hfree
    obtain ⟨i, hi⟩ := Option.ne_none_iff_exists'.1 h.stored
    have hrole : ¬ q.principal.user.role = some Role.user := by
      rw [h.admin]
      decide
    have hvalid : checkArgument q.updatedUser.validate none = .ok () := by
      rw [h.valid]
      rfl
    rw [SaveRequest.run, UserController.save, Eff.run_ofExcept_bind, h.preAuthorize]
    dsimp only
    rw [saveOrUpdateUserDetail, Eff.run_ofExcept_bind, hvalid]
    dsimp only
    rw [checkUser, if_neg hrole, Eff.run_bind_of_ok (Eff.run_pure _ _)]
    have hstore : (storeUser env (requestContext q.now q.principal) q.updatedUser
        q.followersStr).run s = (.ok (q.updatedUser.id.or created.id), s') := by
      rw [storeUser, h.new, if_neg (by decide)]
      exact Eff.run_bind_of_ok hsave
    rw [Eff.run_bind_of_ok hstore, redirect, hi]
    exact ⟨_, rfl⟩

/-! ## The check -/

/-- The check reads the record through the cache, and answers whether there
is one. -/
theorem run_check_eq_ok {principal : SecuredUser} {answer : String}
    (h : (check principal k).run s = (.ok answer, s')) :
    s' = s.afterRead (some k) ∧
      answer = if (s.cache.read s.lookup (some k)).isNone then returnSuccess else returnError := by
  obtain ⟨⟨⟩, -, h⟩ := Eff.run_ofExcept_bind_eq_ok.1 h
  rw [checkUserId, Eff.run_bind_of_ok (run_getUserById _ s), Eff.run_pure, Prod.mk.injEq,
    Except.ok.injEq] at h
  exact ⟨h.2.symm, h.1.symm⟩

theorem returnSuccess_ne_returnError : returnSuccess ≠ returnError := by decide

/-- **What a coherent cache answers is what the table answers.** -/
theorem answer_of_coherent {principal : SecuredUser} {answer : String}
    (hcoherent : s.cache.Coherent s.lookup) (h : (check principal k).run s = (.ok answer, s')) :
    (answer = returnSuccess ↔ s'.lookup (some k) = none) ∧
      (answer = returnError ↔ s'.lookup (some k) ≠ none) ∧ s'.cache.Coherent s'.lookup := by
  obtain ⟨rfl, rfl⟩ := run_check_eq_ok h
  rw [hcoherent.read_eq]
  have hlookup : (s.afterRead (some k)).lookup (some k) = s.lookup (some k) := rfl
  refine ⟨?_, ?_, hcoherent.afterRead _⟩
  · rw [hlookup]
    cases s.lookup (some k) with
    | none => exact iff_of_true rfl rfl
    | some x => exact iff_of_false returnSuccess_ne_returnError.symm (Option.some_ne_none x)
  · rw [hlookup]
    cases s.lookup (some k) with
    | none => exact iff_of_false returnSuccess_ne_returnError fun h => h rfl
    | some x => exact iff_of_true rfl (Option.some_ne_none x)

/-- A user id that is free, and that the cache tells to be. -/
theorem unknown_of_coherent (hcoherent : s.cache.Coherent s.lookup)
    (hfree : s.lookup (some k) = none) : Pinned k Unknown s := by
  refine ⟨hfree, fun v hv => (hcoherent _ v hv).trans hfree, keyed_of_coherent hcoherent, ?_⟩
  intro key v x _ hx
  rw [hfree] at hx
  cases hx

/-- **A user id that the page was told to be free** is one that an account
is created under, whatever goes on between the check and the request that
does not bring a record of that user id; and one that it was told to be
taken is not. -/
theorem created_of_checked (env : Env) (s s' t : Store) (principal : SecuredUser)
    (k answer : String) (as : List Activity) (q : SaveRequest)
    (hcoherent : s.cache.Coherent s.lookup)
    (hcheck : (check principal k).run s = (.ok answer, s')) (hregisters : Registers env k q)
    (hbrings : ∀ a ∈ as, ¬ Brings k a) (hrun : perform (happen env) s' as = some t) :
    (answer = returnSuccess → (∃ url, (q.run env t).1 = .ok url) ∧
        ∃ a ∈ (q.run env t).2.users, a.userId = k ∧ a.id = t.users.sequence) ∧
      (answer = returnError → ¬ ∃ url, (q.run env s').1 = .ok url) := by
  obtain ⟨hsuccess, herror, hcoherent'⟩ := answer_of_coherent hcoherent hcheck
  refine ⟨fun hanswer => ?_, fun hanswer => ?_⟩
  · have hunknown := unknown_of_perform (unknown_of_coherent hcoherent' (hsuccess.1 hanswer))
      hbrings hrun
    obtain ⟨url, hurl⟩ := (run_save_returns_iff hregisters).2 hunknown.stored
    obtain ⟨row, hrow, hins⟩ := inserts_of_registers hregisters (Prod.ext hurl rfl)
    exact ⟨⟨url, hurl⟩, row, hins.row_mem, hrow, hins.id_eq⟩
  · rw [run_save_returns_iff hregisters]
    exact herror.1 hanswer

theorem registers_creationForm : Registers plaintextEnv "carol" creationForm :=
  ⟨rfl, by decide, rfl, rfl, rfl, by decide, ⟨_, rfl⟩⟩

theorem created_of_checked_creationForm :
    ∃ a ∈ (creationForm.run plaintextEnv (storeAfterActivities
        ((check creationForm.principal "carol").run DBInit.plaintextStarted).2
        [.request (.delete creationForm.principal "user")])).2.users, a.userId = "carol" :=
  have ⟨_, a, ha, hak, _⟩ := (created_of_checked plaintextEnv DBInit.plaintextStarted _ _
    creationForm.principal "carol" returnSuccess [.request (.delete creationForm.principal "user")]
    creationForm (Cache.coherent_empty _) rfl registers_creationForm (fun a ha => by
      obtain rfl := List.mem_singleton.1 ha
      exact id) rfl).1 rfl
  ⟨a, ha, hak⟩

end Zooffice
