import Zooffice.Security.Session
import Zooffice.User.Init
/-!
# The cache of the users

Reading through the cache and removing everything keep it coherent with
the table. A save evicts one user id: that of the record it is given.
It is enough when the account did not have another one before, or none
that is cached (`EvictsStored`). The filter of the form login saves and
evicts nothing, and it has just read the user it saves through the cache;
it keeps the cache coherent when the form carries the time zone and the
language the account has, or when the login has stored the user of
another provider and so evicted it (`LoginKeepsCache`).
-/


namespace Zooffice

open Repository ZoofficeAuthenticationProvider ZoofficeUsernamePasswordAuthenticationFilter

variable {env : Env} {s s' : Store}

/-- The calls that use the `users` cache or write the table. -/
inductive ServiceCall where
  | getUserById (userId : Option String)
  | saveUser (ctx : CallContext) (user : User)
  | saveUserWithRole (ctx : CallContext) (user : User) (role : Role)
  | modifyUser (user : User) (shareUserIds : Option String)
  | deleteUsers (userIds : List String)
  | login (plugins : List LoginPlugin) (form : LoginForm) (authentication : Option SecuredUser)

/-- The store that a method leaves which returned. -/
def returned {α : Type} : Except Throwable α × Store → Option Store
  | (.ok _, s') => some s'
  | (.error _, _) => none

/-- A completed call. -/
def call (env : Env) (s : Store) : ServiceCall → Option Store
  | .getUserById userId => returned ((UserService.getUserById userId).run s)
  | .saveUser ctx user => returned ((UserService.saveUser env ctx user).run s)
  | .saveUserWithRole ctx user role =>
      returned ((UserService.saveUserWithRole env ctx user role).run s)
  | .modifyUser user shareUserIds =>
      returned ((UserService.modifyUser env user shareUserIds).run s)
  | .deleteUsers userIds => returned ((UserService.deleteUsers userIds).run s)
  | .login plugins form authentication =>
      returned ((attemptAuthentication env plugins form authentication).run s)

theorem exists_of_returned {α : Type} {x : Except Throwable α × Store}
    (h : returned x = some s') : ∃ a, x = (.ok a, s') := by
  rcases x with ⟨e | a, t⟩
  · cases h
  · cases h
    exact ⟨a, rfl⟩

/-! ## When a call keeps the cache coherent -/

/-- The cache has no entry under the user id. -/
def Uncached (s : Store) (k : Option String) : Prop := s.cache.get? k = none

/-- Evicting the user id of the record evicts the one the account had, or
that is not cached. -/
def EvictsStored (s : Store) (user : User) : Prop :=
  ∀ old ∈ s.users, user.id = some old.id →
    user.userId = some old.userId ∨ Uncached s (some old.userId)

/-- The user `u` that a login has loaded is stored through the service,
which evicts it. -/
def StoredAgain (authentication : Option SecuredUser) (u : SecuredUser) : Prop :=
  isProvidedElsewhere u = true ∧ authentication = none

/-- The write of the filter changes no cached user: it writes what is
stored, or a user id that is not cached. -/
def FilterKeepsCache (s : Store) (form : LoginForm) (u : SecuredUser) : Prop :=
  (∃ a ∈ s.users, u.user.userId = some a.userId ∧ a.timeZone = form.timezone ∧
      a.userLanguage = form.language) ∨
    (Uncached s u.user.userId ∧
      ∀ old ∈ s.users, (localizedRecord form u s.users).id = some old.id →
        Uncached s (some old.userId))

/-- The write of a login changes no cached user. -/
def LoginKeepsCache (env : Env) (s : Store) (plugins : List LoginPlugin) (form : LoginForm)
    (authentication : Option SecuredUser) : Prop :=
  ∀ u s', (retrieveUser plugins form.username).run s = (.ok u, s') →
    (StoredAgain authentication u →
      EvictsStored s' (localRecord env form.now u (s'.cache.read s'.lookup u.user.userId))) ∧
    (¬ StoredAgain authentication u → FilterKeepsCache s' form u)

/-- **The call evicts every user it changes.** -/
def KeepsCache (env : Env) (s : Store) : ServiceCall → Prop
  | .getUserById _ => True
  | .saveUser _ user => EvictsStored s user
  | .saveUserWithRole _ user _ => EvictsStored s user
  | .modifyUser user _ => EvictsStored s user
  | .deleteUsers _ => True
  | .login plugins form authentication => LoginKeepsCache env s plugins form authentication

/-! ## One call -/

/-- An update and the eviction of `e` keep the cache coherent, when the
old and the new user id are `e` or not cached. -/
theorem coherent_evict_of_updates {old row : Account} {users : Repository} {e : Option String}
    (h : s.cache.Coherent s.lookup) (hup : s.users.Updates old row users)
    (hold : some old.userId = e ∨ Uncached s (some old.userId))
    (hrow : some row.userId = e ∨ Uncached s (some row.userId)) :
    (s.cache.evict e).Coherent (Store.lookup ⟨users, s.cache⟩) := by
  refine (Cache.coherent_evict_iff h).2 fun k hk hcached => ?_
  have hne : ∀ {v : Option String}, v = e ∨ Uncached s v → k ≠ v := by
    rintro v (rfl | hv) rfl
    · exact hk rfl
    · exact hcached hv
  exact hup.findOneByUserId (hne hrow) (hne hold)

/-- The same for an insert. -/
theorem coherent_evict_of_inserts {row : Account} {users : Repository} {e : Option String}
    (h : s.cache.Coherent s.lookup) (hins : s.users.Inserts row users)
    (hrow : some row.userId = e ∨ Uncached s (some row.userId)) :
    (s.cache.evict e).Coherent (Store.lookup ⟨users, s.cache⟩) := by
  refine (Cache.coherent_evict_iff h).2 fun k hk hcached => ?_
  refine hins.findOneByUserId ?_
  rintro rfl
  rcases hrow with hrow | hrow
  · exact hk hrow
  · exact hcached hrow

/-- **A save that evicts the user id of its record.** -/
theorem coherent_of_save {w saved : User} {users : Repository} (h : s.cache.Coherent s.lookup)
    (hsave : s.users.save w = .ok (saved, users)) (hevicts : EvictsStored s w) :
    (s.cache.evict w.userId).Coherent (Store.lookup ⟨users, s.cache⟩) := by
  rcases save_cases hsave with ⟨old, c, hid, hstores, hup, -⟩ | ⟨c, -, hstores, hins, -⟩
  · exact coherent_evict_of_updates h hup
      ((hevicts old hup.mem_old hid).imp Eq.symm fun hun => hun) (Or.inl hstores.userId.symm)
  · exact coherent_evict_of_inserts h hins (Or.inl hstores.userId.symm)

/-- What a save is given is the record of the call, up to stamps, the
encoded password and the role. -/
theorem EvictsStored.congr {w w' : User} (h : EvictsStored s w) (hid : w'.id = w.id)
    (huser : w'.userId = w.userId) : EvictsStored s w' := by
  intro old hold hoid
  rw [huser]
  exact h old hold (hid.symm.trans hoid)

theorem coherent_of_saveUser {ctx : CallContext} {w saved : User}
    (h : s.cache.Coherent s.lookup) (hevicts : EvictsStored s w)
    (hrun : (UserService.saveUser env ctx w).run s = (.ok saved, s')) :
    s'.cache.Coherent s'.lookup := by
  obtain ⟨stamped, enc, users, hst, henc, hsave, rfl⟩ := run_saveUser_eq_ok hrun
  have hst := stamped_of_beforeSave hst
  have huser := henc.userId_eq.trans hst.userId_eq
  have hcoh := coherent_of_save h hsave (hevicts.congr (henc.id_eq.trans hst.id_eq) huser)
  rw [huser] at hcoh
  exact hcoh

theorem coherent_of_saveUserWithRole {ctx : CallContext} {w : User} {role : Role} {x : Unit}
    (h : s.cache.Coherent s.lookup) (hevicts : EvictsStored s w)
    (hrun : (UserService.saveUserWithRole env ctx w role).run s = (.ok x, s')) :
    s'.cache.Coherent s'.lookup := by
  obtain ⟨stamped, enc, saved, users, hst, henc, hsave, rfl⟩ := run_saveUserWithRole_eq_ok hrun
  have hst := stamped_of_beforeSave hst
  have huser := henc.userId_eq.trans hst.userId_eq
  have hcoh := coherent_of_save h hsave (hevicts.congr (henc.id_eq.trans hst.id_eq) huser)
  change (s.cache.evict enc.userId).Coherent _ at hcoh
  rw [huser] at hcoh
  exact hcoh

/-- **A `modifyUser`** stores the merged user id and evicts the submitted
one. -/
theorem coherent_of_modifyUser {w : User} {share x : Option String}
    (h : s.cache.Coherent s.lookup) (hevicts : EvictsStored s w)
    (hrun : (UserService.modifyUser env w share).run s = (.ok x, s')) :
    s'.cache.Coherent s'.lookup := by
  obtain ⟨old, enc, c, hid, henc, hstores, hup, hcache⟩ := run_modifyUser_eq_ok hrun
  have hold : some old.userId = w.userId ∨ Uncached s (some old.userId) :=
    (hevicts old hup.mem_old hid).imp Eq.symm fun hun => hun
  have hrow : some (updatedRow old c).userId = w.userId ∨
      Uncached s (some (updatedRow old c).userId) := by
    change some c.userId = w.userId ∨ Uncached s (some c.userId)
    -- the merge stores the submitted user id, or keeps the old one
    rcases userId_of_merge_cases hstores with ⟨-, hsubmitted⟩ | ⟨-, hkept⟩
    · exact Or.inl (hsubmitted.trans henc.userId_eq)
    · rwa [hkept]
  have hcoh := coherent_evict_of_updates h hup hold hrow
  rw [← hcache] at hcoh
  exact hcoh

theorem coherent_of_deleteUsers {userIds : List String} {x : Unit}
    (hrun : (UserService.deleteUsers userIds).run s = (.ok x, s')) :
    s'.cache.Coherent s'.lookup := by
  rw [(run_deleteUsers_eq_ok hrun).2]
  exact Cache.coherent_empty _

/-! ## One login -/

/-- **The write of the filter.** -/
theorem coherent_of_filter {form : LoginForm} {u done : SecuredUser}
    (h : s.cache.Coherent s.lookup) (hkeeps : FilterKeepsCache s form u)
    (hrun : (saveTimezoneAndLanguage form u).run s = (.ok done, s')) :
    s'.cache.Coherent s'.lookup := by
  obtain ⟨saved, users, hsave, rfl, -⟩ := run_saveTimezoneAndLanguage_eq_ok hrun
  refine (Cache.coherent_write_iff h).2 fun k hcached => ?_
  rcases hkeeps with ⟨a, ha, hk, htime, hlang⟩ | ⟨huncached, holdUncached⟩
  · -- the stored record is written back, so no row changes
    have hrecord : localizedRecord form u s.users = a.toUser := by
      rw [localizedRecord, hk, findOneByUserId_of_mem ha, ← htime, ← hlang]
      rfl
    rw [hrecord] at hsave
    exact findOneByUserId_congr fun x _ => mem_iff_of_save_toUser ha hsave x
  · -- what is written is not cached, neither under the old user id nor the new
    have hne : ∀ {v : Option String}, Uncached s v → k ≠ v := by
      rintro v hv rfl
      exact hcached hv
    have huser := localizedRecord_userId (u := u) form (r := s.users)
    rcases save_cases hsave with ⟨old, c, hid, hstores, hup, -⟩ | ⟨c, -, hstores, hins, -⟩
    · have hrow : u.user.userId = some c.userId := huser.symm.trans hstores.userId
      exact hup.findOneByUserId (hne (hrow ▸ huncached)) (hne (holdUncached old hup.mem_old hid))
    · have hrow : u.user.userId = some c.userId := huser.symm.trans hstores.userId
      exact hins.findOneByUserId (hne (hrow ▸ huncached))

/-- Reading the user id of the record leaves the other entries. -/
theorem EvictsStored.afterRead {w : User} (h : EvictsStored s w) :
    EvictsStored (s.afterRead w.userId) w := by
  intro old hold hid
  by_cases hk : w.userId = some old.userId
  · exact Or.inl hk
  · refine Or.inr ?_
    have hun := (h old hold hid).resolve_left hk
    change (s.cache.afterRead s.lookup w.userId).get? _ = none
    rw [Cache.get?_afterRead_of_ne (Ne.symm hk)]
    exact hun

/-- **Storing the user of another provider** evicts it, and leaves it
stored. -/
theorem coherent_of_addUserIntoLocal {ctx : CallContext} {form : LoginForm} {u u' : SecuredUser}
    (h : s.cache.Coherent s.lookup)
    (hevicts : EvictsStored s (localRecord env ctx.now u (s.cache.read s.lookup u.user.userId)))
    (hrun : (addUserIntoLocal env ctx u).run s = (.ok u', s')) :
    s'.cache.Coherent s'.lookup ∧ FilterKeepsCache s' form u' := by
  obtain ⟨saved, hsave, rfl⟩ := run_addUserIntoLocal_eq_ok hrun
  have hname : (localRecord env ctx.now u (s.cache.read s.lookup u.user.userId)).userId =
      u.user.userId := localRecord_userId fun v hv => (keyed_of_coherent h).read hv
  have hafter : (s.afterRead u.user.userId).cache.Coherent (s.afterRead u.user.userId).lookup :=
    h.afterRead _
  have hevicts' := hevicts.afterRead
  rw [hname] at hevicts'
  refine ⟨coherent_of_saveUser hafter hevicts' hsave, Or.inr ?_⟩
  obtain ⟨stamped, enc, users, hst, henc, hsaved, rfl⟩ := run_saveUser_eq_ok hsave
  have hencName : enc.userId = u.user.userId := by
    rw [henc.userId_eq, (stamped_of_beforeSave hst).userId_eq, hname]
  have hsavedName : saved.userId = u.user.userId := by
    obtain ⟨i, rfl⟩ := saved_eq hsaved
    exact hencName
  -- the save has evicted the user id
  have huncached : ∀ k, k = u.user.userId →
      Uncached ⟨users, (s.afterRead u.user.userId).cache.evict
        (localRecord env ctx.now u (s.cache.read s.lookup u.user.userId)).userId⟩ k := by
    rintro k rfl
    rw [hname]
    exact Cache.get?_evict_self _ _
  refine ⟨huncached _ hsavedName, fun old hold hid => huncached _ ?_⟩
  -- the record the filter saves is the one just stored under the user id
  obtain ⟨row, hrowMem, hrow⟩ := exists_row_of_save hsaved
  rw [hencName] at hrow
  have hfind : users.findOneByUserId saved.userId = some row.toUser := by
    rw [hsavedName, hrow]
    exact findOneByUserId_of_mem hrowMem
  have hrowId : (localizedRecord form { u with user := saved } users).id = some row.id := by
    rw [localizedRecord, hfind]
    rfl
  have hsame : row = old :=
    eq_of_id_eq hrowMem hold (Option.some.inj (hrowId.symm.trans hid))
  rw [← hsame, ← hrow]

/-- **One login.** -/
theorem coherent_of_login {plugins : List LoginPlugin} {form : LoginForm}
    {authentication : Option SecuredUser} {done : SecuredUser} (h : s.cache.Coherent s.lookup)
    (hkeeps : LoginKeepsCache env s plugins form authentication)
    (hrun : (attemptAuthentication env plugins form authentication).run s = (.ok done, s')) :
    s'.cache.Coherent s'.lookup := by
  obtain ⟨loaded, checked, s₁, hload, hcheck, hfilter⟩ := run_attemptAuthentication_eq_ok hrun
  obtain ⟨hagain, hnot⟩ := hkeeps loaded _ hload
  have hafter : (s.afterRead form.username).cache.Coherent (s.afterRead form.username).lookup :=
    h.afterRead _
  have hctx : (loginContext form authentication).authentication = none ↔ authentication = none :=
    Option.map_eq_none_iff
  rcases run_checks_cases hcheck with ⟨hstays, rfl, rfl⟩ | ⟨hstored, hadd⟩
  · rw [hctx] at hstays
    exact coherent_of_filter hafter (hnot hstays) hfilter
  · rw [hctx] at hstored
    obtain ⟨hcoh, hkeepsFilter⟩ := coherent_of_addUserIntoLocal hafter
      (hagain hstored) hadd
    exact coherent_of_filter hcoh hkeepsFilter hfilter

/-! ## Sequences of calls -/

/-- **One call** keeps the cache coherent, when it evicts every user it
changes. -/
theorem coherent_of_call {c : ServiceCall} (h : s.cache.Coherent s.lookup)
    (hkeeps : KeepsCache env s c) (hcall : call env s c = some s') :
    s'.cache.Coherent s'.lookup := by
  cases c with
  | getUserById userId =>
      have hcall : returned ((UserService.getUserById userId).run s) = some s' := hcall
      obtain ⟨a, hrun⟩ := exists_of_returned hcall
      rw [run_getUserById, Prod.mk.injEq] at hrun
      rw [← hrun.2]
      exact h.afterRead _
  | saveUser ctx user =>
      obtain ⟨a, hrun⟩ := exists_of_returned hcall
      exact coherent_of_saveUser h hkeeps hrun
  | saveUserWithRole ctx user role =>
      obtain ⟨a, hrun⟩ := exists_of_returned hcall
      exact coherent_of_saveUserWithRole h hkeeps hrun
  | modifyUser user shareUserIds =>
      obtain ⟨a, hrun⟩ := exists_of_returned hcall
      exact coherent_of_modifyUser h hkeeps hrun
  | deleteUsers userIds =>
      obtain ⟨a, hrun⟩ := exists_of_returned hcall
      exact coherent_of_deleteUsers hrun
  | login plugins form authentication =>
      obtain ⟨a, hrun⟩ := exists_of_returned hcall
      exact coherent_of_login h hkeeps hrun

/-- **Every entry of the cache is what the table holds**, after every
sequence of completed calls that evict what they change. -/
theorem coherent_of_perform (env : Env) (s s' : Store) (calls : List ServiceCall)
    (hempty : s.cache = Cache.empty) (hguard : Along (call env) (KeepsCache env) s calls)
    (hrun : perform (call env) s calls = some s') : s'.cache.Coherent s'.lookup :=
  perform_invariant (I := fun t => t.cache.Coherent t.lookup)
    (fun _ _ _ ht hg hstep => coherent_of_call ht hg hstep)
    (by rw [hempty]; exact Cache.coherent_empty _) hguard hrun

/-- The store after some calls, for the runs on fixed inputs. -/
def storeAfterCalls (calls : List ServiceCall) : Store :=
  (perform (call plaintextEnv) DBInit.plaintextStarted calls).getD DBInit.plaintextStarted

/-- The general user is read, and gets another name. -/
def modifyCalls : List ServiceCall :=
  [.getUserById (some "user"),
    .modifyUser { id := some 2, userId := some "user", userName := some "bob",
                  email := some "user@nhn.com" } none]

theorem coherent_of_perform_modifyCalls :
    (storeAfterCalls modifyCalls).cache.Coherent (storeAfterCalls modifyCalls).lookup :=
  coherent_of_perform plaintextEnv DBInit.plaintextStarted _ modifyCalls rfl
    ⟨trivial, fun t ht => ⟨fun old hold hid => by
      cases ht
      exact Or.inl (DBInit.userId_of_mem_plaintextStarted hold hid), fun _ _ => trivial⟩⟩
    rfl

/-- **A login with a time zone leaves a stale entry.** The record that was
read into the cache has no time zone. -/
theorem not_coherent_of_login :
    let calls := [.login [] (formOf "user" "user") none]
    DBInit.plaintextStarted.cache = Cache.empty ∧
      perform (call plaintextEnv) DBInit.plaintextStarted calls = some (storeAfterCalls calls) ∧
      ¬ (storeAfterCalls calls).cache.Coherent (storeAfterCalls calls).lookup := by
  intro calls
  refine ⟨rfl, rfl, fun hcoh => ?_⟩
  have hcached : ((storeAfterCalls calls).cache.get? (some "user")).map
      (Option.map User.timeZone) = some (some none) := by rfl
  have hstored : ((storeAfterCalls calls).lookup (some "user")).map User.timeZone =
      some (some "Asia/Seoul") := by rfl
  obtain ⟨v, hv, htime⟩ := Option.map_eq_some_iff.1 hcached
  rw [hcoh _ v hv, hstored] at htime
  cases htime

end Zooffice
