import Zooffice.User.BuiltIn
/-!
# Requests of general users

What principals with the role `USER` can do together, whatever they send
and in whatever order. No account comes into being or changes its role or
user id; the accounts that are no principal's own stay as they are; and an
account disappears only when a deletion names it, which every general user
may send for any account.
-/


namespace Zooffice

open Repository UserController

variable {env : Env} {s s' : Store} {own own' : Int → Prop} {named named' : String → Prop}

/-- Who sends the request. -/
def UserRequest.principal : UserRequest → SecuredUser
  | .save q => q.principal
  | .delete principal _ => principal

/-- The user ids that the request names to be deleted. -/
def UserRequest.names : UserRequest → String → Prop
  | .save _, _ => False
  | .delete _ userIds, k => k ∈ ids userIds

/-- **What is left of a table** when the accounts in `named` may be gone
and those in `own` may have changed, but for their role and user id. -/
structure Confines (own : Int → Prop) (named : String → Prop) (r r' : Repository) : Prop where
  before : ∀ b ∈ r', ∃ a ∈ r, a.id = b.id ∧ a.role = b.role ∧ a.userId = b.userId
  kept : ∀ a ∈ r, ¬ named a.userId → ∃ b ∈ r', b.id = a.id ∧ b.role = a.role ∧ b.userId = a.userId
  same : ∀ a ∈ r, ¬ named a.userId → ¬ own a.id → a ∈ r'

namespace Confines

theorem refl (r : Repository) : Confines own named r r :=
  ⟨fun b hb => ⟨b, hb, rfl, rfl, rfl⟩, fun a ha _ => ⟨a, ha, rfl, rfl, rfl⟩, fun _ ha _ _ => ha⟩

theorem trans {r r' r'' : Repository} (h : Confines own named r r')
    (h' : Confines own named r' r'') : Confines own named r r'' := by
  refine ⟨fun c hc => ?_, fun a ha hnamed => ?_, fun a ha hnamed hown => ?_⟩
  · obtain ⟨b, hb, hid, hrole, huser⟩ := h'.before c hc
    obtain ⟨a, ha, hid', hrole', huser'⟩ := h.before b hb
    exact ⟨a, ha, hid'.trans hid, hrole'.trans hrole, huser'.trans huser⟩
  · obtain ⟨b, hb, hid, hrole, huser⟩ := h.kept a ha hnamed
    obtain ⟨c, hc, hid', hrole', huser'⟩ := h'.kept b hb (huser ▸ hnamed)
    exact ⟨c, hc, hid'.trans hid, hrole'.trans hrole, huser'.trans huser⟩
  · exact h'.same a (h.same a ha hnamed hown) hnamed hown

theorem mono {r r' : Repository} (h : Confines own named r r') (hown : ∀ i, own i → own' i)
    (hnamed : ∀ k, named k → named' k) : Confines own' named' r r' :=
  ⟨h.before, fun a ha hn => h.kept a ha fun hk => hn (hnamed _ hk),
    fun a ha hn ho => h.same a ha (fun hk => hn (hnamed _ hk)) fun hi => ho (hown _ hi)⟩

end Confines

/-! ## One request -/

/-- The accounts that a deletion names are gone, and the others stay. -/
theorem confines_of_delete {principal : SecuredUser} {userIds : String}
    {y : Except Throwable String} (htells : CacheTells (fun _ => True) s)
    (h : (UserController.delete principal userIds).run s = (y, s')) :
    Confines own (fun k => k ∈ ids userIds) s.users s'.users ∧ CacheTells (fun _ => True) s' := by
  rcases run_delete_cases h with rfl | ⟨-, hdeletes, hempty⟩
  · exact ⟨Confines.refl _, htells⟩
  · refine ⟨⟨fun b hb => ?_, fun a ha hnamed => ?_, fun a ha hnamed _ => ?_⟩, fun k v hv => ?_⟩
    · exact ⟨b, ((hdeletes.mem_iff b).1 hb).1, rfl, rfl, rfl⟩
    · exact ⟨a, (hdeletes.mem_iff a).2 ⟨ha, hnamed⟩, rfl, rfl, rfl⟩
    · exact (hdeletes.mem_iff a).2 ⟨ha, hnamed⟩
    · rw [hempty] at hv
      cases hv

/-- The record that was looked up for a general user is a stored one, and
the submitted id is its. -/
theorem exists_stored_of_submits {q : SaveRequest} {submitted : User} {s₁ : Store}
    (htells : CacheTells (fun _ => True) s) (hrole : q.principal.user.role = some Role.user)
    (hsub : Submits q.principal q.updatedUser s submitted s₁) :
    ∃ a ∈ s.users, q.updatedUser.id = some a.id := by
  rcases hsub with ⟨-, found, hfound, hid, -, -⟩ | ⟨hne, -, -⟩
  · obtain ⟨i, hi, hstored⟩ := htells.read hfound
    obtain ⟨a, ha, rfl, -, -⟩ := hstored trivial
    exact ⟨a, ha, hid.symm.trans hi⟩
  · exact absurd hrole hne

/-- **What a general user's save has done**: nothing to the table, or the
own account was updated. No account was created. -/
theorem updates_of_generalUser {q : SaveRequest} (htells : CacheTells (fun _ => True) s)
    (hrole : q.principal.user.role = some Role.user) (hs' : s' = (q.run env s).2) :
    s'.users = s.users ∨ ∃ old row, s.users.Updates old row s'.users ∧
      q.principal.user.id = some old.id ∧ row.role = old.role ∧ row.userId = old.userId := by
  have hadmin : q.principal.user.role ≠ some Role.admin := by
    rw [hrole]
    decide
  subst hs'
  rcases hrun : q.run env s with ⟨e | url, s'⟩
  · rcases save_error_cases hrun with (rfl | rfl) | ⟨hnone, hadmitted, submitted, s₁, hsub, -⟩
    · exact .inl rfl
    · exact .inl rfl
    · obtain ⟨a, -, hid⟩ := exists_stored_of_submits htells hrole hsub
      have hown := (id_eq_of_admitted hadmin hadmitted).trans hid
      rw [hnone] at hown
      cases hown
  · obtain ⟨hadmitted, -, submitted, s₁, hsub, hwrite⟩ := save_cases hrun
    obtain ⟨a, ha, hid⟩ := exists_stored_of_submits htells hrole hsub
    obtain ⟨enc, c, henc, hstores, hup⟩ := updates_of_write ha hid hsub hwrite
    have hkept := identity_of_modifies htells trivial hrole ha (hsub.id_eq.trans hid) hsub henc
      hstores rfl
    exact .inr ⟨a, updatedRow a c, hup, (id_eq_of_admitted hadmin hadmitted).trans hid, hkept⟩

/-- The own account keeps its role and user id, and the others all they
have. -/
theorem confines_of_updates {r r' : Repository} {old row : Account} (hup : r.Updates old row r')
    (hrole : row.role = old.role) (huser : row.userId = old.userId) :
    Confines (fun i => some i = some old.id) named r r' := by
  refine ⟨fun b hb => ?_, fun a ha _ => ?_, fun a ha _ hown => ?_⟩
  · rcases (hup.mem_iff b).1 hb with rfl | ⟨hb, -⟩
    · exact ⟨old, hup.mem_old, hup.id_eq.symm, hrole.symm, huser.symm⟩
    · exact ⟨b, hb, rfl, rfl, rfl⟩
  · by_cases hid : a.id = old.id
    · obtain rfl := eq_of_id_eq ha hup.mem_old hid
      exact ⟨row, hup.row_mem, hup.id_eq, hrole, huser⟩
    · exact ⟨a, (hup.mem_of_ne hid).2 ha, rfl, rfl, rfl⟩
  · exact (hup.mem_of_ne fun hid => hown (congrArg some hid)).2 ha

/-- **One request of a general user.** -/
theorem confines_of_respond {q : UserRequest} (htells : CacheTells (fun _ => True) s)
    (hrole : q.principal.user.role = some Role.user) (h : respond env s q = some s') :
    Confines (fun i => q.principal.user.id = some i) q.names s.users s'.users ∧
      CacheTells (fun _ => True) s' := by
  cases q with
  | save q =>
      have hs' : s' = (q.run env s).2 := (Option.some.inj h).symm
      have hconfined : Confined (fun _ => True) q := by
        have hrole' : q.principal.user.role = some Role.user := hrole
        refine ⟨?_, fun _ _ _ => ?_⟩
        · rw [hrole']
          decide
        · rw [hrole']
          decide
      refine ⟨?_, (confined_step hconfined htells hs').2⟩
      rcases updates_of_generalUser htells hrole hs' with heq | ⟨old, row, hup, hown, hr, hu⟩
      · rw [heq]
        exact Confines.refl _
      · refine (confines_of_updates hup hr hu).mono (fun i hi => ?_) fun _ hk => hk
        exact hown.trans hi.symm
  | delete principal userIds =>
      exact confines_of_delete htells (Prod.ext rfl (Option.some.inj h))

/-! ## Runs -/

/-- An account of one of the principals. -/
def OwnedBy (reqs : List UserRequest) (i : Int) : Prop := ∃ q ∈ reqs, q.principal.user.id = some i

/-- An account that one of the requests names to be deleted. -/
def NamedBy (reqs : List UserRequest) (k : String) : Prop := ∃ q ∈ reqs, q.names k

/-- **General users are confined.** Whatever requests they send, in
whatever order, every account there is afterwards was there before, with
the same role and user id; every account that no deletion named is still
there, with the same role and user id; and it is as it was if it is not a
principal's own. -/
theorem confines_of_perform (env : Env) (s s' : Store) (reqs : List UserRequest)
    (hcoherent : s.cache.Coherent s.lookup)
    (hroles : ∀ q ∈ reqs, q.principal.user.role = some Role.user)
    (hrun : perform (respond env) s reqs = some s') :
    Confines (OwnedBy reqs) (NamedBy reqs) s.users s'.users := by
  have hinv := perform_invariant
    (I := fun t => Confines (OwnedBy reqs) (NamedBy reqs) s.users t.users ∧
      CacheTells (fun _ => True) t)
    (G := fun _ q => q ∈ reqs)
    (fun t q t' ht hq hstep => by
      obtain ⟨hconfines, htells⟩ := confines_of_respond ht.2 (hroles q hq) hstep
      have hwider : Confines (OwnedBy reqs) (NamedBy reqs) t.users t'.users :=
        hconfines.mono (fun i hi => ⟨q, hq, hi⟩) fun k hk => ⟨q, hq, hk⟩
      exact ⟨ht.1.trans hwider, htells⟩)
    ⟨Confines.refl _, cacheTells_of_coherent hcoherent⟩
    (along_of_forall (fun _ hq _ => hq) s) hrun
  exact hinv.1

/-- A general user that asks for another role, and deletes an account. -/
def generalUserRequests : List UserRequest :=
  [.save generalUserForm, .delete generalUserForm.principal "superuser"]

theorem confines_of_perform_generalUserRequests :
    Confines (OwnedBy generalUserRequests) (NamedBy generalUserRequests)
      DBInit.plaintextStarted.users (storeAfterRequests generalUserRequests).users :=
  confines_of_perform plaintextEnv DBInit.plaintextStarted
    (storeAfterRequests generalUserRequests) generalUserRequests (Cache.coherent_empty _)
    (fun q hq => by
      rcases List.mem_cons.1 hq with rfl | hq
      · rfl
      · obtain rfl := List.mem_singleton.1 hq
        rfl) rfl

end Zooffice
