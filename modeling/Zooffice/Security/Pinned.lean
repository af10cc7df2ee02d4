import Zooffice.Common.Triple
import Zooffice.Security.Model.Activity
import Zooffice.Security.Session
import Zooffice.User.GeneralUsers
/-!
# What is told about one user id

Between the request that creates an account and the one that deletes it
there may be any number of requests and logins, of anybody. `Pinned` says
what is told about one user id, by the table and by the cache, and that no
record cached elsewhere is one of its account. Whatever `Spares` the user
id keeps it, whether it returns or throws.
-/


namespace Zooffice

open Repository UserController ZoofficeAuthenticationProvider
  ZoofficeUsernamePasswordAuthenticationFilter

variable {env : Env} {ctx : CallContext} {s s' : Store} {k : String} {Q : Option User → Prop}
  {u u' : SecuredUser} {plugins : List LoginPlugin}

/-- What may be told about a user id: it stays as it is when a login writes
the time zone and the language, a record that is told is not one that a
login stores again, and nobody is told a record where there is none. -/
structure Firm (Q : Option User → Prop) : Prop where
  localized : ∀ v timeZone userLanguage, Q (some v) →
    Q (some { v with timeZone := timeZone, userLanguage := userLanguage })
  own : ∀ v, Q (some v) → isProvidedElsewhere ⟨v, v.authProviderClass⟩ = false
  single : ∀ v, Q (some v) → ¬ Q none

/-- **What is told about a user id**, by the table and by the cache. A
cached record is under its own user id, and no other one is a record of the
account with this user id. -/
structure Pinned (k : String) (Q : Option User → Prop) (s : Store) : Prop where
  stored : Q (s.lookup (some k))
  cached : ∀ v, s.cache.get? (some k) = some v → Q v
  keyed : Keyed s
  apart : ∀ key v x, s.cache.get? key = some (some v) → s.lookup (some k) = some x →
    v.id = x.id → key = some k

/-- The record is of the account with the user id. -/
def IsOf (s : Store) (k : String) (id : Option Int) : Prop :=
  ∃ x, s.lookup (some k) = some x ∧ id = x.id

namespace Pinned

/-- What is read under the user id is what is told. -/
theorem read (h : Pinned k Q s) : Q (s.cache.read s.lookup (some k)) := by
  unfold Cache.read
  cases hc : s.cache.get? (some k) with
  | none => exact h.stored
  | some v => exact h.cached v hc

/-- A store that tells the same about the user id, and has no entries but
those of before. -/
theorem congr (h : Pinned k Q s) (hlookup : s'.lookup (some k) = s.lookup (some k))
    (hcache : ∀ key v, s'.cache.get? key = some v → s.cache.get? key = some v) :
    Pinned k Q s' where
  stored := hlookup ▸ h.stored
  cached v hv := h.cached v (hcache _ v hv)
  keyed key v hv := h.keyed key v (hcache key _ hv)
  apart key v x hv hx hid := h.apart key v x (hcache key _ hv) (hlookup ▸ hx) hid

/-- Records of one account are under one user id. -/
theorem eq_of_lookup {key key' : Option String} {v x : User} (hv : s.lookup key = some v)
    (hx : s.lookup key' = some x) (hid : v.id = x.id) : key = key' := by
  obtain ⟨a, ha, rfl, rfl⟩ := findOneByUserId_eq_some_iff.1 hv
  obtain ⟨b, hb, rfl, rfl⟩ := findOneByUserId_eq_some_iff.1 hx
  rw [eq_of_id_eq ha hb (Option.some.inj hid)]

/-- What is read under another user id is no record of the account. -/
theorem not_isOf_of_read (h : Pinned k Q s) {key : Option String} {v : User}
    (hv : s.cache.read s.lookup key = some v) (hkey : key ≠ some k) : ¬ IsOf s k v.id := by
  rintro ⟨x, hx, hid⟩
  unfold Cache.read at hv
  cases hc : s.cache.get? key with
  | none =>
      rw [hc, Option.getD_none] at hv
      exact hkey (eq_of_lookup hv hx hid)
  | some w =>
      rw [hc, Option.getD_some] at hv
      exact hkey (h.apart key v x (hv ▸ hc) hx hid)

/-- **A read through the cache.** -/
theorem afterRead (h : Pinned k Q s) (key : Option String) : Pinned k Q (s.afterRead key) where
  stored := h.stored
  cached v hv := by
    rcases Cache.get?_afterRead hv with hold | ⟨rfl, hnew⟩
    · exact h.cached v hold
    · exact hnew ▸ h.stored
  keyed := keeps_getUserById key s h.keyed
  apart key' v x hv hx hid := by
    rcases Cache.get?_afterRead hv with hold | ⟨rfl, hnew⟩
    · exact h.apart key' v x hold hx hid
    · exact eq_of_lookup hnew.symm hx hid

/-- An eviction. -/
theorem evict (h : Pinned k Q s) {users : Repository} (key : Option String)
    (hlookup : users.findOneByUserId (some k) = s.lookup (some k)) :
    Pinned k Q ⟨users, s.cache.evict key⟩ :=
  h.congr hlookup fun _ _ hv => (Cache.get?_evict_eq_some_iff.1 hv).2

end Pinned

/-! ## Writes that spare the account -/

/-- An account with the user id is the one that is told. -/
theorem isOf_of_mem {a : Account} (ha : a ∈ s.users) (hk : a.userId = k) : IsOf s k (some a.id) :=
  ⟨a.toUser, hk ▸ findOneByUserId_of_mem ha, rfl⟩

/-- An account with the user id is stored. -/
theorem isSome_lookup_iff : (s.lookup (some k)).isSome ↔ ∃ a ∈ s.users, a.userId = k := by
  rw [Option.isSome_iff_exists]
  constructor
  · rintro ⟨x, hx⟩
    obtain ⟨a, ha, hk, -⟩ := findOneByUserId_eq_some_iff.1 hx
    exact ⟨a, ha, Option.some.inj hk⟩
  · rintro ⟨a, ha, rfl⟩
    exact ⟨a.toUser, findOneByUserId_of_mem ha⟩

/-- **A save of another account under another user id.** -/
theorem lookup_of_save {w saved : User} {users : Repository}
    (hsave : s.users.save w = .ok (saved, users)) (huser : w.userId ≠ some k)
    (hid : ¬ IsOf s k w.id) :
    users.findOneByUserId (some k) = s.lookup (some k) ∧ ¬ IsOf s k saved.id := by
  rcases save_cases hsave with ⟨old, c, hold, hstores, hup, rfl⟩ | ⟨c, -, hstores, hins, rfl⟩
  · have hrow : some k ≠ some c.userId := fun hk => huser (hstores.userId.trans hk.symm)
    have holdUser : some k ≠ some old.userId := fun hk =>
      hid (hold ▸ isOf_of_mem hup.mem_old (Option.some.inj hk).symm)
    exact ⟨hup.findOneByUserId hrow holdUser, fun hof => hid (hold ▸ hof)⟩
  · have hrow : some k ≠ some c.userId := fun hk => huser (hstores.userId.trans hk.symm)
    refine ⟨hins.findOneByUserId hrow, ?_⟩
    -- the id is one that no stored account has yet
    rintro ⟨x, hx, hseq⟩
    obtain ⟨a, ha, -, rfl⟩ := findOneByUserId_eq_some_iff.1 hx
    have hlt := s.users.id_lt a ha
    rw [← Option.some.inj hseq] at hlt
    exact absurd hlt (Int.lt_irrefl _)

/-- **A `saveUser` of such a record**, whether it returns or throws. -/
theorem pinned_of_saveUser {w : User} {y : Except Throwable User} (h : Pinned k Q s)
    (huser : w.userId ≠ some k) (hid : ¬ IsOf s k w.id)
    (hrun : (UserService.saveUser env ctx w).run s = (y, s')) :
    Pinned k Q s' ∧ ∀ saved, y = .ok saved → saved.userId ≠ some k ∧ ¬ IsOf s' k saved.id := by
  rcases y with e | saved
  · rw [state_of_run_saveUser_error hrun]
    exact ⟨h, fun _ hok => by cases hok⟩
  · obtain ⟨stamped, enc, users, hst, henc, hsave, rfl⟩ := run_saveUser_eq_ok hrun
    have hst := stamped_of_beforeSave hst
    have hencId : ¬ IsOf s k enc.id := by rwa [henc.id_eq, hst.id_eq]
    have hencUser : enc.userId ≠ some k := by rwa [henc.userId_eq, hst.userId_eq]
    obtain ⟨hlookup, hsaved⟩ := lookup_of_save hsave hencUser hencId
    refine ⟨h.evict _ hlookup, ?_⟩
    rintro _ ⟨⟩
    obtain ⟨i, rfl⟩ := saved_eq hsave
    refine ⟨hencUser, fun hof => hsaved ?_⟩
    obtain ⟨x, hx, hxid⟩ := hof
    exact ⟨x, hlookup ▸ hx, hxid⟩

/-! ## Requests -/

/-- What a save request may not do: update the account, or bring one with
this user id where there is none. -/
structure SavesOther (k : String) (s : Store) (updatedUser : User) : Prop where
  other : ¬ IsOf s k updatedUser.id
  taken : updatedUser.userId = some k → (s.lookup (some k)).isSome

/-- An update of another account does not take its user id. -/
theorem lookup_of_modifies {submitted : User} (hother : SavesOther k s submitted)
    (h : Modifies env submitted s s') : s'.lookup (some k) = s.lookup (some k) := by
  obtain ⟨old, enc, c, hid, henc, hstores, hup, -⟩ := h
  have hold : old.userId ≠ k := fun hk => hother.other (hid ▸ isOf_of_mem hup.mem_old hk)
  refine hup.findOneByUserId (fun hk => ?_) fun hk => hold (Option.some.inj hk).symm
  have hrow : c.userId = k := (Option.some.inj hk).symm
  rcases userId_of_merge_cases hstores with ⟨-, huser⟩ | ⟨-, huser⟩
  · -- the user id is taken, so no other account can be given it
    have htaken := hother.taken (by rw [← henc.userId_eq, ← huser, hrow])
    obtain ⟨a, ha, hak⟩ := isSome_lookup_iff.1 htaken
    have haid := hup.userId_free a ha (hak.trans hrow.symm)
    exact hold (eq_of_id_eq ha hup.mem_old haid ▸ hak)
  · exact hold (huser.symm.trans hrow)

theorem lookup_of_creates {submitted : User} (hother : SavesOther k s submitted)
    (h : Creates env submitted s s') : s'.lookup (some k) = s.lookup (some k) := by
  obtain ⟨stamped, enc, c, hst, henc, hstores, hins, -⟩ := h
  refine hins.findOneByUserId fun hk => ?_
  have huser : submitted.userId = some k := by
    rw [← hst.userId_eq, ← henc.userId_eq, hstores.userId, hk]
  obtain ⟨a, ha, hak⟩ := isSome_lookup_iff.1 (hother.taken huser)
  exact hins.userId_free a ha (hak.trans (Option.some.inj hk))

/-- **A save request that spares the user id.** -/
theorem pinned_of_save {q : SaveRequest} (h : Pinned k Q s)
    (hother : SavesOther k s q.updatedUser) (hrun : (q.run env s).2 = s') : Pinned k Q s' := by
  have hcases := run_save_cases env q.now q.principal q.updatedUser q.followersStr s
  rw [← SaveRequest.run, hrun] at hcases
  rcases hcases with (rfl | rfl) | ⟨-, submitted, s₁, hsub, hwrite⟩
  · exact h
  · exact h.afterRead _
  · -- the principal's check may have read a record, and has not touched the table
    have h₁ : Pinned k Q s₁ := by
      rcases hsub with ⟨-, found, -, -, -, rfl⟩ | ⟨-, -, rfl⟩
      · exact h.afterRead _
      · exact h
    have hlookup₁ : s₁.lookup = s.lookup := by
      funext key
      rw [Store.lookup, hsub.users_eq, Store.lookup]
    have hother₁ : SavesOther k s₁ submitted := by
      refine ⟨?_, ?_⟩
      · rw [hsub.id_eq, IsOf, hlookup₁]
        exact hother.other
      · rw [hsub.userId_eq, hlookup₁]
        exact hother.taken
    rcases hwrite with hmod | hcre
    · obtain ⟨_, _, _, _, _, _, _, hcache⟩ := id hmod
      have hevict := h₁.evict submitted.userId (lookup_of_modifies hother₁ hmod)
      rw [← hcache] at hevict
      exact hevict
    · obtain ⟨_, _, _, _, _, _, _, hcache⟩ := id hcre
      have hevict := h₁.evict submitted.userId (lookup_of_creates hother₁ hcre)
      rw [← hcache] at hevict
      exact hevict

/-- **A deletion that does not name the user id**, if it is stored. -/
theorem pinned_of_delete {principal : SecuredUser} {userIds : String}
    {y : Except Throwable String} (h : Pinned k Q s)
    (hspares : (s.lookup (some k)).isSome → k ∉ ids userIds)
    (hrun : (UserController.delete principal userIds).run s = (y, s')) : Pinned k Q s' := by
  rcases run_delete_cases hrun with rfl | ⟨-, hdeletes, hempty⟩
  · exact h
  · refine h.congr ?_ fun key v hv => ?_
    · refine findOneByUserId_congr fun x hx => ?_
      have hxk : x.userId = k := Option.some.inj hx
      rw [hdeletes.mem_iff]
      exact and_iff_left_of_imp fun hmem => hxk ▸ hspares (isSome_lookup_iff.2 ⟨x, hmem, hxk⟩)
    · rw [hempty] at hv
      cases hv

/-! ## Logins -/

/-- The installed plugins provide no record under the user id, and none of
its account. -/
def ProvideOthers (k : String) (s : Store) (plugins : List LoginPlugin) : Prop :=
  ∀ p ∈ plugins, ∀ name v, p.loadUser name = .ok (some v) →
    v.userId ≠ some k ∧ ¬ IsOf s k v.id

/-- The details of a login that does no harm: those under the user id are
of a stored account, and no login stores them again; any others are not of
its account. -/
structure Harmless (k : String) (s : Store) (u : SecuredUser) : Prop where
  own : u.user.userId = some k → (s.lookup (some k)).isSome ∧ isProvidedElsewhere u = false
  other : u.user.userId ≠ some k → ¬ IsOf s k u.user.id

/-- What a login goes on with. -/
def Holds (k : String) (Q : Option User → Prop) (u : SecuredUser) (s : Store) : Prop :=
  Pinned k Q s ∧ Harmless k s u

/-- An installed plugin has provided the record that is found. -/
theorem exists_loadUser_of_loadFrom {p : LoginPlugin} {name : Option String}
    (h : (loadFrom name p.getModule).run s = (.ok (some u), s')) :
    ∃ v, u = ⟨v, v.authProviderClass⟩ ∧ p.loadUser name = .ok (some v) := by
  rcases Eff.run_tryCatch_eq_ok.1 h with h | ⟨e, s₁, -, h⟩
  · obtain ⟨v, hload, h⟩ := Eff.run_ofExcept_bind_eq_ok.1 h
    rcases v with _ | v
    · cases h
    · obtain ⟨⟨⟩, -, h⟩ := Eff.run_ofExcept_bind_eq_ok.1 h
      exact ⟨v, (Option.some.inj (Except.ok.inj (Prod.mk.inj h).1)).symm, hload⟩
  · -- what is caught is logged or passed on
    split at h
    · cases h
    · cases h

/-- What is loaded was read through the cache, or provided by a plugin. -/
theorem provided_of_run_loadUserByUsername {name : Option String}
    (h : (loadUserByUsername name (getEnabledModulesByClass plugins)).run s = (.ok u, s')) :
    ∃ v, u = ⟨v, v.authProviderClass⟩ ∧
      (s.cache.read s.lookup name = some v ∨
        ∃ p ∈ plugins, p.loadUser name = .ok (some v)) := by
  cases hread : s.cache.read s.lookup name with
  | some v => exact ⟨v, eq_of_run_loadUserByUsername hread h, Or.inl rfl⟩
  | none =>
      rw [getEnabledModulesByClass, loadUserByUsername, Eff.run_bind, run_loadFrom_default,
        hread] at h
      dsimp only at h
      -- the plugins are asked in order, on the ones that are left
      generalize s.afterRead name = s₁ at h
      induction plugins generalizing s₁ with
      | nil => cases h
      | cons p rest ih =>
          obtain ⟨found, s₂, hfound, h⟩ := Eff.run_bind_eq_ok.1 h
          rcases found with _ | user
          · obtain ⟨v, hv, hprov⟩ := ih _ h
            refine ⟨v, hv, hprov.imp_right ?_⟩
            rintro ⟨p', hp', hload⟩
            exact ⟨p', List.mem_cons_of_mem _ hp', hload⟩
          · obtain rfl : user = u := Except.ok.inj (Prod.mk.inj h).1
            obtain ⟨v, hv, hload⟩ := exists_loadUser_of_loadFrom hfound
            exact ⟨v, hv, Or.inr ⟨p, List.mem_cons_self, hload⟩⟩

/-- **Loading does no harm.** -/
theorem triple_loadUserByUsername (hfirm : Firm Q) (name : Option String) :
    Eff.Triple (fun s => Pinned k Q s ∧ ProvideOthers k s plugins)
      (loadUserByUsername name (getEnabledModulesByClass plugins)) (Holds k Q) (Pinned k Q) where
  returns s u s' hs hrun := by
    obtain ⟨h, hplugins⟩ := hs
    obtain ⟨v, rfl, hprov⟩ := provided_of_run_loadUserByUsername hrun
    obtain rfl := state_of_run_loadUserByUsername hrun
    refine ⟨h.afterRead name, ?_⟩
    rcases hprov with hread | ⟨p, hp, hload⟩
    · have hname : v.userId = name := h.keyed.read hread
      refine ⟨fun hk => ?_, fun hk => h.not_isOf_of_read hread (hname ▸ hk)⟩
      obtain rfl : name = some k := hname.symm.trans hk
      have hv : Q (some v) := hread ▸ h.read
      refine ⟨Option.ne_none_iff_isSome.1 fun hnone => ?_, hfirm.own v hv⟩
      exact hfirm.single v hv (hnone ▸ h.stored)
    · obtain ⟨huser, hid⟩ := hplugins p hp name v hload
      exact ⟨fun hk => absurd hk huser, fun _ => hid⟩
  throws s e s' hs hrun := by
    obtain rfl := state_of_run_loadUserByUsername hrun
    exact hs.1.afterRead name

/-- So does `retrieveUser`, which may throw another exception. -/
theorem triple_retrieveUser (hfirm : Firm Q) (name : Option String) :
    Eff.Triple (fun s => Pinned k Q s ∧ ProvideOthers k s plugins) (retrieveUser plugins name)
      (Holds k Q) (Pinned k Q) := by
  refine Eff.triple_tryCatch (triple_loadUserByUsername hfirm name) fun e => ?_
  split
  · exact Eff.triple_throw fun _ h => h
  · split
    · exact Eff.triple_throw fun _ h => h
    · exact Eff.triple_throw fun _ h => h

/-- The record that is saved for a user is under its user id, and is not of
the account when the user is not. -/
theorem not_isOf_localRecord (now : Date) (h : Pinned k Q s) (huser : u.user.userId ≠ some k)
    (hid : ¬ IsOf s k u.user.id) :
    (localRecord env now u (s.cache.read s.lookup u.user.userId)).userId ≠ some k ∧
      ¬ IsOf s k (localRecord env now u (s.cache.read s.lookup u.user.userId)).id := by
  refine ⟨?_, ?_⟩
  · rw [localRecord_userId fun v hv => h.keyed.read hv]
    exact huser
  · obtain ⟨role, hrole⟩ := exists_role_withRole
      (mergedRecord env (s.cache.read s.lookup u.user.userId) (providedRecord now u))
    rw [localRecord, hrole]
    cases hread : s.cache.read s.lookup u.user.userId with
    | none => exact hid
    | some v =>
        -- the merge keeps the id of the provided record, if it has one
        have hv := h.not_isOf_of_read hread huser
        change ¬ IsOf s k (User.mergeObject v.id u.user.id)
        cases hprov : u.user.id with
        | none => exact hv
        | some i => rwa [hprov] at hid

/-- **Storing the record of another provider.** -/
theorem triple_addUserIntoLocal (hprov : isProvidedElsewhere u = true) :
    Eff.Triple (Holds k Q u) (addUserIntoLocal env ctx u) (Holds k Q) (Pinned k Q) := by
  have hother : ∀ s, Holds k Q u s → u.user.userId ≠ some k := by
    rintro s ⟨-, hu⟩ hk
    rw [(hu.own hk).2] at hprov
    cases hprov
  have hafter : ∀ s, Holds k Q u s → ∀ y s',
      (UserService.saveUser env ctx (localRecord env ctx.now u
        (s.cache.read s.lookup u.user.userId))).run (s.afterRead u.user.userId) = (y, s') →
      Pinned k Q s' ∧ ∀ saved, y = .ok saved → saved.userId ≠ some k ∧ ¬ IsOf s' k saved.id := by
    intro s hs y s' hrun
    have huser := hother s hs
    obtain ⟨hsave, hid⟩ := not_isOf_localRecord ctx.now hs.1 huser (hs.2.other huser)
    exact pinned_of_saveUser (hs.1.afterRead _) hsave hid hrun
  constructor
  · intro s u' s' hs hrun
    obtain ⟨saved, hsave, rfl⟩ := run_addUserIntoLocal_eq_ok hrun
    obtain ⟨hpinned, hsaved⟩ := hafter s hs _ _ hsave
    obtain ⟨huser, hid⟩ := hsaved saved rfl
    exact ⟨hpinned, fun hk => absurd hk huser, fun _ => hid⟩
  · intro s e s' hs hrun
    unfold addUserIntoLocal at hrun
    rw [Eff.run_bind_of_ok (run_getUserById _ s)] at hrun
    rcases Eff.run_bind_eq_error.1 hrun with hsave | ⟨saved, s₁, -, hpure⟩
    · exact (hafter s hs _ _ hsave).1
    · cases hpure

/-- Checks that throw have done nothing, or it is the storing that threw. -/
theorem state_of_run_checks_error {credentials : Option String} {e : Throwable}
    (h : (additionalAuthenticationChecks env ctx plugins u credentials).2.run s =
      (.error e, s')) :
    s' = s ∨ (isProvidedElsewhere u = true ∧
      (addUserIntoLocal env ctx u).run s = (.error e, s')) := by
  cases hctx : ctx.authentication with
  | some p =>
      simp only [additionalAuthenticationChecks, hctx] at h
      cases h
  | none =>
      cases credentials with
      | none =>
          simp only [additionalAuthenticationChecks, hctx] at h
          exact Or.inl (Prod.mk.inj h).2.symm
      | some password =>
          rw [run_additionalAuthenticationChecks hctx] at h
          generalize decidingAnswer env plugins u password = answer at h
          rcases answer with _ | e' | b
          · exact Or.inl (Prod.mk.inj h).2.symm
          · exact Or.inl (Prod.mk.inj h).2.symm
          · dsimp only at h
            split at h
            · next hprov => exact Or.inr ⟨hprov, h⟩
            · cases h

/-- **The checks.** -/
theorem triple_checks (credentials : Option String) :
    Eff.Triple (Holds k Q u) (additionalAuthenticationChecks env ctx plugins u credentials).2
      (Holds k Q) (Pinned k Q) where
  returns s u' s' hs hrun := by
    rcases run_checks_cases hrun with ⟨-, rfl, rfl⟩ | ⟨⟨hprov, -⟩, hadd⟩
    · exact hs
    · exact (triple_addUserIntoLocal hprov).returns s u' s' hs hadd
  throws s e s' hs hrun := by
    rcases state_of_run_checks_error hrun with rfl | ⟨hprov, hadd⟩
    · exact hs.1
    · exact (triple_addUserIntoLocal hprov).throws s e s' hs hadd

/-- The time zone and the language are written into a stored account. -/
theorem localized_of_updates {form : LoginForm} {old : Account} {c : Columns}
    (hstores : Stores
      { old.toUser with timeZone := form.timezone, userLanguage := form.language } c) :
    (updatedRow old c).toUser =
      { old.toUser with timeZone := form.timezone, userLanguage := form.language } := by
  let row : Account := { old with timeZone := form.timezone, userLanguage := form.language }
  have hrow : updatedRow row c = row := updatedRow_of_stores_toUser hstores
  exact congrArg Account.toUser hrow

/-- **The account with the user id is written**, and stays what is told. -/
theorem holds_of_localized_own (hfirm : Firm Q) {form : LoginForm} {saved : User}
    {users : Repository} (h : Pinned k Q s) (hu : Harmless k s u) (hk : u.user.userId = some k)
    (hsave : s.users.save (localizedRecord form u s.users) = .ok (saved, users))
    (hsaved : saved.userId = some k) : Holds k Q { u with user := saved } { s with users } := by
  obtain ⟨hsome, hown⟩ := hu.own hk
  obtain ⟨x, hx⟩ := Option.isSome_iff_exists.1 hsome
  obtain ⟨a, ha, hak, rfl⟩ := findOneByUserId_eq_some_iff.1 hx
  have hfound : s.users.findOneByUserId u.user.userId = some a.toUser := hk ▸ hx
  rw [localizedRecord, hfound, Option.getD_some] at hsave
  rcases save_cases hsave with ⟨old, c, hold, hstores, hup, -⟩ | ⟨c, hnew, -⟩
  · obtain rfl : old = a := eq_of_id_eq hup.mem_old ha (Option.some.inj hold).symm
    have hrow := localized_of_updates hstores
    have hafter : users.findOneByUserId (some k) = some (updatedRow old c).toUser :=
      findOneByUserId_eq_some_iff.2 ⟨_, hup.row_mem, hstores.userId.symm.trans hak, rfl⟩
    refine ⟨⟨?_, h.cached, h.keyed, fun key v y hv hy hid => ?_⟩, fun _ => ⟨?_, hown⟩,
      fun hne => absurd hsaved hne⟩
    · have hQ : Q (some old.toUser) := hx ▸ h.stored
      rw [Store.lookup, hafter, hrow]
      exact hfirm.localized _ _ _ hQ
    · obtain rfl := Option.some.inj (hafter.symm.trans hy)
      exact h.apart key v old.toUser hv hx hid
    · rw [Store.lookup, hafter]
      rfl
  · exact absurd rfl (hnew a ha)

/-- **The filter writes the time zone and the language** of the form. -/
theorem triple_saveTimezoneAndLanguage (hfirm : Firm Q) (form : LoginForm) :
    Eff.Triple (Holds k Q u) (saveTimezoneAndLanguage form u) (Holds k Q) (Pinned k Q) where
  returns s u' s' hs hrun := by
    obtain ⟨saved, users, hsave, rfl, rfl⟩ := run_saveTimezoneAndLanguage_eq_ok hrun
    obtain ⟨h, hu⟩ := hs
    obtain ⟨i, hsaved⟩ := saved_eq hsave
    have huserId : saved.userId = u.user.userId := by
      rw [hsaved]
      exact localizedRecord_userId form
    by_cases hk : u.user.userId = some k
    · exact holds_of_localized_own hfirm h hu hk hsave (huserId.trans hk)
    · -- another account, or a new one
      have hid : ¬ IsOf s k (localizedRecord form u s.users).id := by
        unfold localizedRecord
        cases hfound : s.users.findOneByUserId u.user.userId with
        | none => exact hu.other hk
        | some v =>
            rintro ⟨x, hx, hid⟩
            exact hk (Pinned.eq_of_lookup hfound hx hid)
      obtain ⟨hlookup, hnew⟩ := lookup_of_save hsave
        (by rwa [localizedRecord_userId form]) hid
      refine ⟨h.congr hlookup fun _ _ hv => hv, fun hk' => absurd (huserId.symm.trans hk') hk,
        fun _ => ?_⟩
      rintro ⟨x, hx, hxid⟩
      exact hnew ⟨x, hlookup ▸ hx, hxid⟩
  throws s e s' hs hrun := by
    unfold saveTimezoneAndLanguage at hrun
    rw [Eff.run_get_bind] at hrun
    rcases Eff.run_bind_eq_error.1 hrun with hsave | ⟨saved, s₁, -, hpure⟩
    · rw [state_of_run_saveRepository_error hsave]
      exact hs.1
    · cases hpure

/-- A check on the account, which changes nothing. -/
theorem triple_accountCheck {α : Type} (r : Except Throwable α) :
    Eff.Triple (Holds k Q u) (Eff.ofExcept r) (fun _ => Holds k Q u) (Pinned k Q) :=
  Eff.triple_ofExcept (fun _ _ hs => hs) fun _ hs => hs.1

/-- **A form login.** -/
theorem triple_attemptAuthentication (hfirm : Firm Q) (form : LoginForm)
    (authentication : Option SecuredUser) :
    Eff.Triple (fun s => Pinned k Q s ∧ ProvideOthers k s plugins)
      (attemptAuthentication env plugins form authentication) (Holds k Q) (Pinned k Q) := by
  refine Eff.triple_bind (R := Holds k Q) ?_ fun checked =>
    triple_saveTimezoneAndLanguage hfirm form
  refine Eff.triple_bind (Eff.triple_mapError (triple_retrieveUser hfirm form.username))
    fun loaded => ?_
  refine Eff.triple_bind (triple_accountCheck _) fun _ => ?_
  refine Eff.triple_bind (triple_checks form.password) fun checked => ?_
  refine Eff.triple_bind (triple_accountCheck _) fun _ => ?_
  exact Eff.triple_bind (triple_accountCheck _) fun _ => Eff.triple_pure fun _ hs => hs

/-- **A login of a user that another system has authenticated.** -/
theorem triple_preAuthenticate (hfirm : Firm Q) (username : Option String)
    (details : Option ZoofficeAuthenticationPreAuthProvider.LanguageAndTimezone) :
    Eff.Triple (fun s => Pinned k Q s ∧ ProvideOthers k s plugins)
      (ZoofficeAuthenticationPreAuthProvider.authenticate env ctx plugins username details)
      (Holds k Q) (Pinned k Q) := by
  refine Eff.triple_bind (R := Holds k Q) ?_ fun loaded => ?_
  · refine Eff.triple_bind (triple_loadUserByUsername hfirm username) fun loaded => ?_
    refine Eff.triple_bind (triple_accountCheck _) fun _ => ?_
    exact Eff.triple_bind (triple_accountCheck _) fun _ => Eff.triple_pure fun _ hs => hs
  -- the details of the token change neither the id nor the user id
  have hdetails : ∀ s, Holds k Q loaded s →
      Holds k Q (ZoofficeAuthenticationPreAuthProvider.withDetails details loaded) s := by
    intro s hs
    cases details with
    | none => exact hs
    | some d => exact ⟨hs.1, hs.2.own, hs.2.other⟩
  dsimp only
  split
  · next hprov => exact (triple_addUserIntoLocal hprov).imp hdetails (fun _ _ h => h) fun _ h => h
  · exact Eff.triple_pure hdetails

/-! ## Whatever goes on -/

/-- What spares the user id: a save that does not touch its account, a
deletion that does not name it, and a login for which no plugin provides
its record. -/
def Spares (k : String) (s : Store) : Activity → Prop
  | .request (.save q) => SavesOther k s q.updatedUser
  | .request (.delete _ userIds) => (s.lookup (some k)).isSome → k ∉ ids userIds
  | a => ProvideOthers k s a.plugins

/-- **Every login that spares the user id** keeps what is told, and does no
harm. -/
theorem triple_login {a : Activity} {login : App SecuredUser} (hfirm : Firm Q)
    (h : a.login env = some login) :
    Eff.Triple (fun s => Pinned k Q s ∧ Spares k s a) login (Holds k Q) (Pinned k Q) := by
  cases a with
  | request q => cases h
  | getUserById userId => cases h
  | formLogin plugins form authentication =>
      obtain rfl := Option.some.inj h
      exact triple_attemptAuthentication hfirm form authentication
  | preAuthLogin ctx plugins username details =>
      obtain rfl := Option.some.inj h
      exact triple_preAuthenticate hfirm username details

/-- **What spares the user id keeps what is told of it.** -/
theorem pinned_of_happen {a : Activity} (hfirm : Firm Q) (h : Pinned k Q s)
    (hspares : Spares k s a) (hstep : happen env s a = some s') : Pinned k Q s' := by
  cases a with
  | request q =>
      cases q with
      | save q => exact pinned_of_save h hspares (Option.some.inj hstep)
      | delete principal userIds =>
          exact pinned_of_delete h hspares (Prod.ext rfl (Option.some.inj hstep))
  | getUserById userId =>
      obtain rfl := Option.some.inj hstep
      exact h.afterRead userId
  | formLogin plugins form authentication =>
      obtain rfl := Option.some.inj hstep
      exact (triple_login (a := .formLogin plugins form authentication) hfirm rfl).ends
        ⟨h, hspares⟩ (fun _ _ hs => hs.1) fun _ hs => hs
  | preAuthLogin ctx plugins username details =>
      obtain rfl := Option.some.inj hstep
      exact (triple_login (a := .preAuthLogin ctx plugins username details) hfirm rfl).ends
        ⟨h, hspares⟩ (fun _ _ hs => hs.1) fun _ hs => hs

end Zooffice
