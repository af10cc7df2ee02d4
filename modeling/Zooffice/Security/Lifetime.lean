import Zooffice.Security.LocalAccount
/-!
# From the creation of an account to its deletion

An account that a save request has created can be logged into with the
password of the request and with no other one, whatever has gone on before
and whatever goes on afterwards, as long as nothing that goes on concerns
it; and so it is from a change of the password on. Once it is deleted nobody
is logged in under its user id, not in a session that has an authentication
either, until a request or a plugin brings a record of that user id again.
-/


namespace Zooffice

open Repository UserController ZoofficeAuthenticationProvider
  ZoofficeUsernamePasswordAuthenticationFilter

variable {env : Env} {s s' t : Store} {k : String}

/-! ## After a deletion -/

/-- It may bring a record of the user id: a save submits it, or a plugin
provides it. -/
def Brings (k : String) : Activity → Prop
  | .request (.save q) => q.updatedUser.userId = some k
  | .request (.delete _ _) => False
  | a => ∃ p ∈ a.plugins, ∃ name v, p.loadUser name = .ok (some v) ∧ v.userId = some k

/-- There is no account. -/
def Unknown (o : Option User) : Prop := o = none

theorem not_unknown_some (v : User) : ¬ Unknown (some v) := Option.some_ne_none v

theorem firm_unknown : Firm Unknown where
  localized v _ _ h := absurd h (not_unknown_some v)
  own v h := absurd h (not_unknown_some v)
  single v h := absurd h (not_unknown_some v)

/-- What does not bring a record spares the user id. -/
theorem spares_of_not_brings {a : Activity} (h : Pinned k Unknown s) (ha : ¬ Brings k a) :
    Spares k s a := by
  have hisOf : ∀ id, ¬ IsOf s k id := by
    rintro id ⟨x, hx, -⟩
    rw [h.stored] at hx
    cases hx
  have hothers : (¬ ∃ p ∈ a.plugins, ∃ name v, p.loadUser name = .ok (some v) ∧
      v.userId = some k) → ProvideOthers k s a.plugins :=
    fun hnot p hp name v hload => ⟨fun hk => hnot ⟨p, hp, name, v, hload, hk⟩, hisOf _⟩
  cases a with
  | request q =>
      cases q with
      | save q => exact ⟨hisOf _, fun hk => absurd hk ha⟩
      | delete principal userIds =>
          intro hsome
          rw [h.stored] at hsome
          cases hsome
  | getUserById userId => exact hothers ha
  | formLogin plugins form authentication => exact hothers ha
  | preAuthLogin ctx plugins username details => exact hothers ha

/-- The deletion that returned leaves no account and nothing cached. -/
theorem unknown_of_delete {principal : SecuredUser} {userIds url : String}
    (hdelete : (UserController.delete principal userIds).run s = (.ok url, s'))
    (hk : k ∈ ids userIds) : Pinned k Unknown s' := by
  obtain ⟨⟨⟩, -, hbody⟩ := Eff.run_ofExcept_bind_eq_ok.1 hdelete
  obtain ⟨⟨⟩, s₁, hloop, hpure⟩ := Eff.run_bind_eq_ok.1 hbody
  obtain rfl : s₁ = s' := (Prod.mk.inj hpure).2
  obtain ⟨hdeletes, hempty⟩ := run_deleteUsers_eq_ok hloop
  refine ⟨?_, fun v hv => ?_, fun key v hv => ?_, fun key v x hv => ?_⟩
  · refine Option.eq_none_iff_forall_ne_some.2 fun x hx => ?_
    obtain ⟨a, ha, hak, -⟩ := findOneByUserId_eq_some_iff.1 hx
    exact ((hdeletes.mem_iff a).1 ha).2 (Option.some.inj hak ▸ hk)
  all_goals
    rw [hempty] at hv
    cases hv

/-- What does not bring a record leaves the user id unknown. -/
theorem unknown_of_perform {as : List Activity} (h : Pinned k Unknown s)
    (hbrings : ∀ a ∈ as, ¬ Brings k a) (hrun : perform (happen env) s as = some t) :
    Pinned k Unknown t :=
  perform_invariant (G := fun _ a => ¬ Brings k a)
    (fun _ _ _ hs ha hstep => pinned_of_happen firm_unknown hs (spares_of_not_brings hs ha) hstep)
    h (along_of_forall (fun a ha _ => hbrings a ha) s) hrun

/-- **Nobody is logged in under the user id of a deleted account**,
whatever goes on after the deletion, until something brings a record of
that user id. -/
theorem not_authenticated_of_deleted (env : Env) (s s' t : Store) (principal : SecuredUser)
    (userIds url k : String) (as : List Activity) (a : Activity)
    (hdelete : (UserController.delete principal userIds).run s = (.ok url, s'))
    (hk : k ∈ ids userIds) (hbrings : ∀ b ∈ a :: as, ¬ Brings k b)
    (hrun : perform (happen env) s' as = some t) :
    t.cache.read t.lookup (some k) = none ∧
      ∀ u, a.authenticated env t = some u → u.getUsername ≠ some k := by
  have hpinned := unknown_of_perform (unknown_of_delete hdelete hk)
    (fun b hb => hbrings b (List.mem_cons_of_mem a hb)) hrun
  refine ⟨hpinned.read, fun u hu huser => ?_⟩
  obtain ⟨login, hlogin, hu⟩ := Option.bind_eq_some_iff.1 hu
  rcases hlast : login.run t with ⟨e | v, t'⟩
  · rw [hlast] at hu
    cases hu
  · rw [hlast] at hu
    obtain rfl := Option.some.inj hu
    have hspares := spares_of_not_brings hpinned (hbrings a List.mem_cons_self)
    obtain ⟨hafter, hharmless⟩ := (triple_login firm_unknown hlogin).returns t v t'
      ⟨hpinned, hspares⟩ hlast
    -- the user of the user id would be of a stored account
    have hsome := (hharmless.own huser).1
    rw [hafter.stored] at hsome
    cases hsome

/-- The administrator creates an account. -/
def creationForm : SaveRequest where
  now := 1
  principal := ⟨{ id := some 1, userId := some "admin", role := some Role.admin }, none⟩
  updatedUser :=
    { userId := some "carol", userName := some "carol", email := some "carol@nhn.com",
      password := some "secret", role := some Role.user }
  followersStr := none

/-- The store after the activities, for the runs on fixed inputs. -/
def storeAfterActivities (s : Store) (as : List Activity) : Store :=
  (perform (happen plaintextEnv) s as).getD s

/-- The store after a deletion. -/
def storeAfterDeletion : Store :=
  ((UserController.delete creationForm.principal "user").run DBInit.plaintextStarted).2

/-- The store after a deletion and what goes on then. -/
def storeBehindDeletion : Store :=
  storeAfterActivities storeAfterDeletion [.request (.save creationForm)]

theorem not_authenticated_of_deleted_user :
    storeBehindDeletion.cache.read storeBehindDeletion.lookup (some "user") = none ∧
      ∀ u, (Activity.formLogin [] (formOf "user" "user") none).authenticated plaintextEnv
        storeBehindDeletion = some u → u.getUsername ≠ some "user" :=
  not_authenticated_of_deleted plaintextEnv DBInit.plaintextStarted storeAfterDeletion _
    creationForm.principal "user" "redirect:/user/" "user" [.request (.save creationForm)]
    (.formLogin [] (formOf "user" "user") none) rfl (by decide) (fun b hb => by
      rcases List.mem_cons.1 hb with rfl | hb
      · rintro ⟨p, hp, -⟩
        cases hp
      · obtain rfl := List.mem_singleton.1 hb
        exact fun hk => absurd (Option.some.inj hk) (by decide)) rfl

/-! ## After a creation and after a change -/

/-- What goes on after the creation: a login with a wrong password, and a
deletion of another account. -/
def activitiesOfOthers : List Activity :=
  [.formLogin [] (formOf "carol" "wrong") none, .request (.delete creationForm.principal "user")]

/-- What goes on after the change: an account is created, and the old
password is tried. -/
def activitiesAfterChange : List Activity :=
  [.request (.save creationForm), .formLogin [] (formOf "user" "user") none]

end Zooffice
