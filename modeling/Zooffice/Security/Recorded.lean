import Zooffice.Security.Model.Activity
import Zooffice.Security.Session
import Zooffice.User.Controller
/-!
# What the cache holds was stored

A cached record was read from the table once, so it is under its own user
id and has an id that was given out. The table never takes back an id it
has given out, except in a transaction that fails, in which nothing is
cached. So this holds after everything that may go on, and the id of a new
account is on no cached record.
-/


namespace Zooffice

open Repository UserController ZoofficeAuthenticationProvider
  ZoofficeUsernamePasswordAuthenticationFilter

variable {env : Env} {ctx : CallContext} {s s' : Store} {plugins : List LoginPlugin}

/-- **What is cached was stored**: it is under its user id, with an id that
was given out. -/
structure Recorded (s : Store) : Prop where
  keyed : Keyed s
  issued : ∀ key v, s.cache.get? key = some (some v) → ∃ i, v.id = some i ∧ i < s.users.sequence

/-- Nothing is cached. -/
theorem recorded_empty (r : Repository) : Recorded ⟨r, Cache.empty⟩ :=
  ⟨keyed_empty r, fun _ _ hv => by cases hv⟩

/-- Ids are given out, and what is cached stays so. -/
def RecordedAfter (s s' : Store) : Prop :=
  s.users.sequence ≤ s'.users.sequence ∧ (Recorded s → Recorded s')

instance : Std.Refl RecordedAfter := ⟨fun _ => ⟨Int.le_refl _, fun h => h⟩⟩

instance : IsTrans Store RecordedAfter :=
  ⟨fun _ _ _ h h' => ⟨Int.le_trans h.1 h'.1, fun hs => h'.2 (h.2 hs)⟩⟩

/-- Ids are given out, and nothing is cached or evicted. -/
def TableAfter (s s' : Store) : Prop :=
  s.users.sequence ≤ s'.users.sequence ∧ s'.cache = s.cache

instance : Std.Refl TableAfter := ⟨fun _ => ⟨Int.le_refl _, rfl⟩⟩

instance : IsTrans Store TableAfter :=
  ⟨fun _ _ _ h h' => ⟨Int.le_trans h.1 h'.1, h'.2.trans h.2⟩⟩

/-- More ids, and no entry but those of before. -/
theorem recordedAfter_of_entries (hsequence : s.users.sequence ≤ s'.users.sequence)
    (hcache : ∀ key v, s'.cache.get? key = some v → s.cache.get? key = some v) :
    RecordedAfter s s' := by
  refine ⟨hsequence, fun hs => ⟨fun key v hv => hs.keyed key v (hcache key _ hv), ?_⟩⟩
  intro key v hv
  obtain ⟨i, hid, hi⟩ := hs.issued key v (hcache key _ hv)
  exact ⟨i, hid, Int.lt_of_lt_of_le hi hsequence⟩

theorem TableAfter.recordedAfter (h : TableAfter s s') : RecordedAfter s s' :=
  recordedAfter_of_entries h.1 fun _ _ hv => h.2 ▸ hv

/-! ## The operations -/

/-- A save gives out an id, or none. -/
theorem sequence_le_of_save {r r' : Repository} {v v' : User} (h : r.save v = .ok (v', r')) :
    r.sequence ≤ r'.sequence := by
  unfold Repository.save at h
  obtain ⟨c, -, h⟩ := except_bind_eq_ok.1 h
  split at h
  · obtain ⟨r₁, hup, h⟩ := except_bind_eq_ok.1 h
    cases h
    unfold updateRow at hup
    split at hup
    · cases hup
    · cases hup
      exact Int.le_refl _
  · obtain ⟨r₁, hins, h⟩ := except_bind_eq_ok.1 h
    cases h
    unfold insertRow at hins
    split at hins
    · cases hins
    · cases hins
      exact Int.le_of_lt (Int.lt_succ _)

/-- A deletion gives out none. -/
theorem sequence_of_delete {r r' : Repository} {v : Option User} (h : r.delete v = .ok r') :
    r'.sequence = r.sequence := by
  unfold Repository.delete at h
  split at h
  · cases h
  · split at h
    · cases h
      rfl
    · cases h
      rfl

theorem tableAfter_saveRepository (v : User) : Eff.Keeps TableAfter (saveRepository v) := by
  intro s
  rcases hrun : (saveRepository v).run s with ⟨e | saved, s'⟩
  · rw [state_of_run_saveRepository_error hrun]
    exact Std.Refl.refl s
  · obtain ⟨users, hsave, rfl⟩ := run_saveRepository_eq_ok.1 hrun
    exact ⟨sequence_le_of_save hsave, rfl⟩

theorem tableAfter_deleteEach (userIds : List String) :
    Eff.Keeps TableAfter (UserService.deleteEach userIds) := by
  induction userIds with
  | nil => exact Eff.keeps_pure _
  | cons k ks ih =>
      intro s
      rw [UserService.deleteEach, Eff.run_get_bind, Eff.run_ofExcept_bind]
      cases hdelete : s.users.delete (s.lookup (some k)) with
      | error e => exact Std.Refl.refl s
      | ok users =>
          dsimp only
          rw [Eff.run_modify_bind]
          have hfirst : TableAfter s ⟨users, s.cache⟩ :=
            ⟨Int.le_of_eq (sequence_of_delete hdelete).symm, rfl⟩
          exact IsTrans.trans _ _ _ hfirst (ih ⟨users, s.cache⟩)

/-- **A transaction** in which nothing is cached: taking the table back
takes back the ids it gave out. -/
theorem keeps_transactional_of_tableAfter {α : Type} {x : App α} (hx : Eff.Keeps TableAfter x) :
    Eff.Keeps RecordedAfter (Eff.transactional Store.rollback x) := by
  have hrollback : ∀ s s', TableAfter s s' → TableAfter s (Store.rollback s s') :=
    fun s s' h => ⟨Int.le_refl s.users.sequence, h.2⟩
  exact fun s => (Eff.keeps_transactional hx hrollback s).recordedAfter

theorem recordedAfter_getUserById (key : Option String) :
    Eff.Keeps RecordedAfter (UserService.getUserById key) := by
  refine fun s => ⟨Int.le_refl _, fun hs => ⟨keeps_getUserById key s hs.keyed, ?_⟩⟩
  intro key' v hv
  rcases Cache.get?_afterRead hv with hold | ⟨rfl, hnew⟩
  · exact hs.issued key' v hold
  · obtain ⟨a, ha, -, rfl⟩ := findOneByUserId_eq_some_iff.1 hnew.symm
    exact ⟨a.id, rfl, s.users.id_lt a ha⟩

theorem recordedAfter_evictUser (key : Option String) :
    Eff.Keeps RecordedAfter (evictUser key) := fun _ =>
  recordedAfter_of_entries (Int.le_refl _) fun _ _ hv => (Cache.get?_evict_eq_some_iff.1 hv).2

/-! ## The service -/

theorem recordedAfter_saveUser (v : User) :
    Eff.Keeps RecordedAfter (UserService.saveUser env ctx v) := by
  refine Eff.keeps_bind (Eff.keeps_ofExcept _) fun stamped => ?_
  refine Eff.keeps_bind (keeps_transactional_of_tableAfter ?_) fun created =>
    Eff.keeps_bind (recordedAfter_evictUser _) fun _ => Eff.keeps_pure _
  exact Eff.keeps_bind (Eff.keeps_ofExcept _) fun enc => tableAfter_saveRepository enc

theorem recordedAfter_modifyUser (v : User) (share : Option String) :
    Eff.Keeps RecordedAfter (UserService.modifyUser env v share) := by
  refine Eff.keeps_bind (keeps_transactional_of_tableAfter ?_) fun userId =>
    Eff.keeps_bind (recordedAfter_evictUser _) fun _ => Eff.keeps_pure _
  refine Eff.keeps_bind (Eff.keeps_ofExcept _) fun id =>
    Eff.keeps_bind (Eff.keeps_ofExcept _) fun enc => Eff.keeps_bind Eff.keeps_get fun t => ?_
  split
  · exact Eff.keeps_throw _
  · exact Eff.keeps_bind (tableAfter_saveRepository _) fun _ => Eff.keeps_pure _

theorem recordedAfter_deleteUsers (userIds : List String) :
    Eff.Keeps RecordedAfter (UserService.deleteUsers userIds) := by
  refine Eff.keeps_bind (keeps_transactional_of_tableAfter (tableAfter_deleteEach userIds))
    fun _ s => ?_
  exact recordedAfter_of_entries (Int.le_refl _) fun _ _ hv => by cases hv

/-! ## The requests -/

theorem recordedAfter_checkUser (user updatedUser : User) :
    Eff.Keeps RecordedAfter (checkUser user updatedUser) := by
  unfold checkUser
  split
  · refine Eff.keeps_bind (recordedAfter_getUserById _) fun found =>
      Eff.keeps_bind (Eff.keeps_ofExcept _) fun inDb => ?_
    dsimp only
    split
    · exact Eff.keeps_throw _
    · exact Eff.keeps_bind (Eff.keeps_ofExcept _) fun _ => Eff.keeps_pure _
  · exact Eff.keeps_pure _

theorem recordedAfter_storeUser (updatedUser : User) (followersStr : Option String) :
    Eff.Keeps RecordedAfter (storeUser env ctx updatedUser followersStr) := by
  unfold storeUser
  split
  · exact Eff.keeps_bind (recordedAfter_modifyUser _ _) fun _ => Eff.keeps_pure _
  · exact Eff.keeps_bind (recordedAfter_saveUser _) fun _ => Eff.keeps_pure _

theorem recordedAfter_save (q : SaveRequest) :
    Eff.Keeps RecordedAfter
      (UserController.save env q.now q.principal q.updatedUser q.followersStr) := by
  refine Eff.keeps_bind (Eff.keeps_ofExcept _) fun _ =>
    Eff.keeps_bind (Eff.keeps_ofExcept _) fun _ =>
      Eff.keeps_bind (recordedAfter_checkUser _ _) fun submitted =>
        Eff.keeps_bind (recordedAfter_storeUser _ _) fun updatedId => ?_
  unfold redirect
  split
  · exact Eff.keeps_throw _
  · exact Eff.keeps_pure _

theorem recordedAfter_delete (principal : SecuredUser) (userIds : String) :
    Eff.Keeps RecordedAfter (UserController.delete principal userIds) :=
  Eff.keeps_bind (Eff.keeps_ofExcept _) fun _ =>
    Eff.keeps_bind (recordedAfter_deleteUsers _) fun _ => Eff.keeps_pure _

/-! ## The logins -/

theorem recordedAfter_loadUserByUsername (name : Option String) :
    Eff.Keeps RecordedAfter (loadUserByUsername name (getEnabledModulesByClass plugins)) := by
  intro s
  have hstate : ((loadUserByUsername name (getEnabledModulesByClass plugins)).run s).2 =
      s.afterRead name := state_of_run_loadUserByUsername rfl
  rw [hstate]
  exact recordedAfter_getUserById name s

theorem recordedAfter_addUserIntoLocal (u : SecuredUser) :
    Eff.Keeps RecordedAfter (addUserIntoLocal env ctx u) :=
  Eff.keeps_bind (recordedAfter_getUserById _) fun _ =>
    Eff.keeps_bind (recordedAfter_saveUser _) fun _ => Eff.keeps_pure _

theorem recordedAfter_checks (u : SecuredUser) (credentials : Option String) :
    Eff.Keeps RecordedAfter (additionalAuthenticationChecks env ctx plugins u credentials).2 := by
  unfold additionalAuthenticationChecks
  split
  · exact Eff.keeps_pure _
  · split
    · exact Eff.keeps_throw _
    · refine Eff.keeps_bind (Eff.keeps_ofExcept _) fun authorized => ?_
      split
      · split
        · exact recordedAfter_addUserIntoLocal u
        · exact Eff.keeps_pure _
      · exact Eff.keeps_throw _

theorem recordedAfter_attemptAuthentication (form : LoginForm)
    (authentication : Option SecuredUser) :
    Eff.Keeps RecordedAfter (attemptAuthentication env plugins form authentication) := by
  refine Eff.keeps_bind (keeps_authenticate ?_ fun loaded => recordedAfter_checks loaded _)
    fun checked => ?_
  · refine Eff.keeps_tryCatch (recordedAfter_loadUserByUsername _) fun e => ?_
    split
    · exact Eff.keeps_throw _
    · split
      · exact Eff.keeps_throw _
      · exact Eff.keeps_throw _
  · refine Eff.keeps_bind Eff.keeps_get fun t => Eff.keeps_bind (fun s => ?_) fun _ =>
      Eff.keeps_pure _
    exact (tableAfter_saveRepository _ s).recordedAfter

theorem recordedAfter_preAuthenticate (username : Option String)
    (details : Option ZoofficeAuthenticationPreAuthProvider.LanguageAndTimezone) :
    Eff.Keeps RecordedAfter
      (ZoofficeAuthenticationPreAuthProvider.authenticate env ctx plugins username details) := by
  refine Eff.keeps_bind ?_ fun loaded => ?_
  · refine Eff.keeps_bind (recordedAfter_loadUserByUsername _) fun loaded => ?_
    refine Eff.keeps_bind (Eff.keeps_ofExcept _) fun _ => ?_
    exact Eff.keeps_bind (Eff.keeps_ofExcept _) fun _ => Eff.keeps_pure _
  dsimp only
  split
  · exact recordedAfter_addUserIntoLocal _
  · exact Eff.keeps_pure _

/-- **Whatever goes on**, what is cached was stored. -/
theorem recorded_of_happen {a : Activity} (h : Recorded s) (hstep : happen env s a = some s') :
    Recorded s' := by
  have hafter : RecordedAfter s s' := by
    cases a with
    | request q =>
        cases q with
        | save q =>
            obtain rfl := Option.some.inj hstep
            exact recordedAfter_save q s
        | delete principal userIds =>
            obtain rfl := Option.some.inj hstep
            exact recordedAfter_delete principal userIds s
    | getUserById userId =>
        obtain rfl := Option.some.inj hstep
        exact recordedAfter_getUserById userId s
    | formLogin plugins form authentication =>
        obtain rfl := Option.some.inj hstep
        exact recordedAfter_attemptAuthentication form authentication s
    | preAuthLogin ctx plugins username details =>
        obtain rfl := Option.some.inj hstep
        exact recordedAfter_preAuthenticate username details s
  exact hafter.2 h

end Zooffice
