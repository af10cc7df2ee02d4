import Zooffice.Common.Run
import Zooffice.Security.Login
import Zooffice.Security.Model.Session
import Zooffice.Security.Validation
import Zooffice.User.Model.Init
/-!
# Who a session belongs to

In a session without an authentication a login returns only for a user
whose plugin accepted the password. In a session that has one the checks
return at once, so a later login needs no password at all. `Owned` says
that the principal is a user for which an attempt was accepted; a run
keeps it as long as no attempt is made in an authenticated session for
another user with a password that is not accepted (`Guarded`).
-/


namespace Zooffice

open Repository ZoofficeAuthenticationProvider ZoofficeUsernamePasswordAuthenticationFilter

variable {env : Env} {ctx : CallContext} {s s' : Store} {u u' : SecuredUser}
  {plugins : List LoginPlugin}

/-! ## The cache holds records under their user id -/

/-- A cached record is under its user id. -/
def Keyed (s : Store) : Prop := ∀ k v, s.cache.get? k = some (some v) → v.userId = k

/-- The relation between two stores that a step keeps. -/
def KeyedAfter (s s' : Store) : Prop := Keyed s → Keyed s'

instance : Std.Refl KeyedAfter := ⟨fun _ h => h⟩

instance : IsTrans Store KeyedAfter := ⟨fun _ _ _ h h' hs => h' (h hs)⟩

theorem keyed_of_coherent (h : s.cache.Coherent s.lookup) : Keyed s :=
  fun k v hv => userId_of_findOneByUserId (h k (some v) hv).symm

theorem keyed_empty (r : Repository) : Keyed ⟨r, Cache.empty⟩ :=
  keyed_of_coherent (Cache.coherent_empty _)

/-- The record read through such a cache has the user id. -/
theorem Keyed.read {k : Option String} {v : User} (h : Keyed s)
    (hv : s.cache.read s.lookup k = some v) : v.userId = k := by
  unfold Cache.read at hv
  cases hc : s.cache.get? k with
  | some w =>
      rw [hc, Option.getD_some] at hv
      exact h k v (hv ▸ hc)
  | none =>
      rw [hc, Option.getD_none] at hv
      exact userId_of_findOneByUserId hv

theorem keeps_getUserById (k : Option String) :
    Eff.Keeps KeyedAfter (UserService.getUserById k) := by
  intro s hs k' v hv
  rcases Cache.get?_afterRead hv with hold | ⟨rfl, hnew⟩
  · exact hs k' v hold
  · exact userId_of_findOneByUserId hnew.symm

theorem keeps_evictUser (k : Option String) : Eff.Keeps KeyedAfter (evictUser k) := by
  intro s hs k' v hv
  by_cases hk : k' = k
  · subst hk
    simp at hv
  · rw [run_evictUser, Cache.get?_evict_of_ne hk] at hv
    exact hs k' v hv

theorem keeps_saveRepository (v : User) : Eff.Keeps KeyedAfter (saveRepository v) := by
  intro s hs
  rcases hrun : (saveRepository v).run s with ⟨e | saved, s'⟩
  · rw [state_of_run_saveRepository_error hrun]
    exact hs
  · obtain ⟨users, -, rfl⟩ := run_saveRepository_eq_ok.1 hrun
    exact hs

theorem keeps_saveUser (v : User) : Eff.Keeps KeyedAfter (UserService.saveUser env ctx v) := by
  refine Eff.keeps_bind (Eff.keeps_ofExcept _) fun stamped => ?_
  refine Eff.keeps_bind ?_ fun created => Eff.keeps_bind (keeps_evictUser _) fun _ =>
    Eff.keeps_pure _
  exact Eff.keeps_transactional
    (Eff.keeps_bind (Eff.keeps_ofExcept _) fun enc => keeps_saveRepository enc)
    fun _ _ h => h

theorem keeps_addUserIntoLocal : Eff.Keeps KeyedAfter (addUserIntoLocal env ctx u) :=
  Eff.keeps_bind (keeps_getUserById _) fun _ =>
    Eff.keeps_bind (keeps_saveUser _) fun _ => Eff.keeps_pure _

theorem keeps_retrieveUser (k : Option String) : Eff.Keeps KeyedAfter (retrieveUser plugins k) := by
  refine Eff.keeps_tryCatch ?_ fun e => ?_
  · intro s
    have hstate : ((loadUserByUsername k (getEnabledModulesByClass plugins)).run s).2 =
        s.afterRead k := state_of_run_loadUserByUsername rfl
    rw [hstate]
    exact keeps_getUserById k s
  · split
    · exact Eff.keeps_throw _
    · split <;> exact Eff.keeps_throw _

theorem keeps_additionalAuthenticationChecks (credentials : Option String) :
    Eff.Keeps KeyedAfter (additionalAuthenticationChecks env ctx plugins u credentials).2 := by
  cases hctx : ctx.authentication with
  | some p =>
      simp only [additionalAuthenticationChecks, hctx]
      exact Eff.keeps_pure _
  | none =>
      cases credentials with
      | none =>
          simp only [additionalAuthenticationChecks, hctx]
          exact Eff.keeps_throw _
      | some password =>
          intro s
          rw [run_additionalAuthenticationChecks hctx]
          rcases decidingAnswer env plugins u password with _ | e | b
          · exact fun hs => hs
          · exact fun hs => hs
          · dsimp only
            split
            · exact keeps_addUserIntoLocal s
            · exact fun hs => hs

/-- **An attempt keeps the cache keyed**, whether it returns or throws. -/
theorem keeps_attemptAuthentication (form : LoginForm) (authentication : Option SecuredUser) :
    Eff.Keeps KeyedAfter (attemptAuthentication env plugins form authentication) := by
  refine Eff.keeps_bind (keeps_authenticate (keeps_retrieveUser _) fun loaded =>
    keeps_additionalAuthenticationChecks _) fun checked => ?_
  exact Eff.keeps_bind Eff.keeps_get fun _ =>
    Eff.keeps_bind (keeps_saveRepository _) fun _ => Eff.keeps_pure _

/-! ## Who the filter returns -/

theorem accepts_iff {credentials : Option String} :
    accepts env plugins u credentials = true ↔
      ∃ password b, credentials = some password ∧
        decidingAnswer env plugins u password = some (.ok b) := by
  cases credentials with
  | none => simp [accepts]
  | some password =>
      simp only [accepts, authorize_enabled_eq, Option.some.injEq, exists_and_left,
        exists_eq_left']
      rcases decidingAnswer env plugins u password with _ | e | b
      · simp
      · simp [Except.map]
      · simp [Except.map]

/-- The checks leave the user id as it is. -/
theorem username_of_checks {credentials : Option String} (hs : Keyed s)
    (h : (additionalAuthenticationChecks env ctx plugins u credentials).2.run s = (.ok u', s')) :
    u'.getUsername = u.getUsername := by
  rcases run_checks_cases h with ⟨-, rfl, -⟩ | ⟨-, hadd⟩
  · rfl
  · obtain ⟨saved, hsave, rfl⟩ := run_addUserIntoLocal_eq_ok hadd
    obtain ⟨stamped, enc, users, hst, henc, hsaved, -⟩ := run_saveUser_eq_ok hsave
    obtain ⟨i, rfl⟩ := saved_eq hsaved
    change enc.userId = u.user.userId
    rw [henc.userId_eq, (stamped_of_beforeSave hst).userId_eq]
    exact localRecord_userId fun v hv => hs.read hv

/-- **The filter returns the user it has loaded.** -/
theorem username_of_attemptAuthentication {form : LoginForm} {authentication : Option SecuredUser}
    (hs : Keyed s)
    (h : (attemptAuthentication env plugins form authentication).run s = (.ok u', s')) :
    ∃ loaded, (retrieveUser plugins form.username).run s = (.ok loaded, s.afterRead form.username) ∧
      u'.getUsername = loaded.getUsername ∧
      (authentication = none → accepts env plugins loaded form.password = true) := by
  obtain ⟨loaded, checked, s₁, hload, hcheck, hsave⟩ := run_attemptAuthentication_eq_ok h
  obtain ⟨saved, users, hsaved, rfl, rfl⟩ := run_saveTimezoneAndLanguage_eq_ok hsave
  refine ⟨loaded, hload, ?_, fun hnone => ?_⟩
  · obtain ⟨i, rfl⟩ := saved_eq hsaved
    have hkeyed : Keyed (s.afterRead form.username) := keeps_getUserById form.username s hs
    rw [← username_of_checks hkeyed hcheck]
    exact localizedRecord_userId form
  · have hctx : (loginContext form authentication).authentication = none := by
      rw [hnone]
      rfl
    cases hpass : form.password with
    | none =>
        rw [hpass] at hcheck
        simp only [additionalAuthenticationChecks, hctx] at hcheck
        cases hcheck
    | some password =>
        rw [hpass] at hcheck
        obtain ⟨⟨b, hb⟩, -⟩ := (returns_iff hctx).1 ⟨checked, s₁, hcheck⟩
        exact accepts_iff.2 ⟨password, b, rfl, hb⟩

/-! ## Sequences of attempts -/

/-- The principal of the session is a user for which an attempt was
accepted. -/
def Owned (t : HttpSession) : Prop :=
  ∀ u, t.authentication = some u → u.getUsername ∈ t.accepted

/-- The attempt is made in a session without an authentication, or for a
user whose password was accepted before or is accepted now. -/
def Guarded (env : Env) (t : HttpSession) (a : Attempt) : Prop :=
  t.authentication = none ∨
    ∀ u, a.user t.store = some u →
      u.getUsername ∈ t.accepted ∨ accepts env a.plugins u a.form.password = true

/-- **A guarded attempt keeps the session owned.** -/
theorem owned_of_attempt {t t' : HttpSession} {a : Attempt} (hkeyed : Keyed t.store)
    (hown : Owned t) (hguard : Guarded env t a) (h : attempt env t a = some t') :
    Keyed t'.store ∧ Owned t' := by
  have ht' := Option.some.inj h
  refine ⟨?_, ?_⟩
  · rw [← ht']
    exact keeps_attemptAuthentication a.form t.authentication t.store hkeyed
  · rcases hrun : (attemptAuthentication env a.plugins a.form t.authentication).run t.store
      with ⟨e | u', s'⟩
    · -- an attempt that throws leaves the session's principal
      rw [← ht', hrun]
      exact fun u hu => List.mem_append_left _ (hown u hu)
    · obtain ⟨loaded, hload, hname, haccept⟩ := username_of_attemptAuthentication hkeyed hrun
      have huser : a.user t.store = some loaded := by rw [Attempt.user, hload]
      rw [← ht', hrun]
      rintro u ⟨⟩
      rw [hname]
      have hnow : accepts env a.plugins loaded a.form.password = true →
          loaded.getUsername ∈ t.accepted ++ a.accepted env t.store := fun hacc =>
        List.mem_append_right _ (by simp [Attempt.accepted, huser, hacc])
      -- without an authentication the checks were made, else the guard tells
      rcases hguard with hnone | hguard
      · exact hnow (haccept hnone)
      · rcases hguard loaded huser with hbefore | hacc
        · exact List.mem_append_left _ hbefore
        · exact hnow hacc

/-- **The principal of a session is a user whose password was accepted in
it**, after every sequence of guarded attempts. -/
theorem owned_of_perform (env : Env) (store : Store) (attempts : List Attempt) (t : HttpSession)
    (hkeyed : Keyed store)
    (hguard : Along (attempt env) (Guarded env) (HttpSession.unauthenticated store) attempts)
    (hrun : perform (attempt env) (HttpSession.unauthenticated store) attempts = some t) :
    Owned t := by
  have hinv := perform_invariant (I := fun t => Keyed t.store ∧ Owned t)
    (fun t a t' ht hg hstep => owned_of_attempt ht.1 ht.2 hg hstep)
    ⟨hkeyed, fun _ hu => by cases hu⟩ hguard hrun
  exact hinv.2

/-- The form with a user name and a password. -/
def formOf (username password : String) : LoginForm where
  now := 1
  username := some username
  password := some password
  timezone := some "Asia/Seoul"
  language := some "kr"

/-- The session after the first start, and after some forms were posted. -/
def sessionAfter (forms : List LoginForm) : HttpSession :=
  (perform (attempt plaintextEnv) (HttpSession.unauthenticated DBInit.plaintextStarted)
    (forms.map fun form => ⟨form, []⟩)).getD (HttpSession.unauthenticated DBInit.plaintextStarted)

/-- A user logs in, the administrator logs in over it, and the user again,
with a wrong password. -/
def acceptedForms : List LoginForm :=
  [formOf "user" "user", formOf "admin" "admin", formOf "user" "wrong"]

/-- What an attempt for a user with this password has to pass. -/
theorem guarded_of_accepts {t : HttpSession} {a : Attempt}
    (h : (a.user t.store).map (fun u => decide (u.getUsername ∈ t.accepted) ||
      accepts env a.plugins u a.form.password) = some true) : Guarded env t a := by
  refine .inr fun u hu => ?_
  rw [hu, Option.map_some, Option.some_inj, Bool.or_eq_true, decide_eq_true_eq] at h
  exact h

theorem owned_of_perform_acceptedForms :
    (sessionAfter acceptedForms).authentication.map SecuredUser.getUsername = some (some "user") ∧
      Owned (sessionAfter acceptedForms) := by
  refine ⟨rfl, owned_of_perform plaintextEnv DBInit.plaintextStarted
    (acceptedForms.map fun form => ⟨form, []⟩) _ (keyed_empty _) ?_ rfl⟩
  -- the first form is posted without an authentication, the others with one
  refine ⟨.inl rfl, fun t ht => ⟨guarded_of_accepts ?_, fun t' ht' =>
    ⟨guarded_of_accepts ?_, fun _ _ => trivial⟩⟩⟩
  · cases ht
    rfl
  · cases ht
    cases ht'
    rfl

/-- **A general user becomes the administrator without its password.** The
second form carries a wrong one. -/
theorem not_owned_of_wrong_password :
    let forms := [formOf "user" "user", formOf "admin" "wrong"]
    perform (attempt plaintextEnv) (HttpSession.unauthenticated DBInit.plaintextStarted)
        (forms.map fun form => ⟨form, []⟩) = some (sessionAfter forms) ∧
      (sessionAfter forms).authentication.map SecuredUser.getUsername = some (some "admin") ∧
      ¬ Owned (sessionAfter forms) := by
  have hadmin : (sessionAfter [formOf "user" "user", formOf "admin" "wrong"]).authentication.map
      SecuredUser.getUsername = some (some "admin") := by rfl
  refine ⟨rfl, hadmin, fun hown => ?_⟩
  obtain ⟨u, hu, hname⟩ := Option.map_eq_some_iff.1 hadmin
  have hmem := hown u hu
  have haccepted : (sessionAfter [formOf "user" "user", formOf "admin" "wrong"]).accepted =
      [some "user"] := by rfl
  rw [hname, haccepted] at hmem
  exact absurd hmem (by decide)

end Zooffice
