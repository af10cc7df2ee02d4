import Zooffice.Common.Run
import Zooffice.User.Controller
import Zooffice.User.Init
/-!
# The accounts that an account refers to

Each creation writes the principal into `created_user` and
`last_modified_user` of the new account, and no foreign key keeps the
principal's account. A deletion looks at no reference. So the references
lead to stored accounts as long as a principal that creates is still
stored, and a deletion takes the accounts that refer to those it takes
out.
-/


namespace Zooffice

open Repository UserController

variable {env : Env} {s s' : Store}

/-! ## Creations and deletions -/

/-- A new record that a principal saves. -/
structure Creation where
  now : Date
  principal : SecuredUser
  user : User
  isNew : user.exist = false

/-- What changes the accounts. -/
inductive AccountChange where
  | create (c : Creation)
  | delete (userIds : List String)

/-- The change is made: `saveUser` in a request of the principal, or
`deleteUsers`. One that throws leaves what it leaves. -/
def change (env : Env) (s : Store) : AccountChange → Option Store
  | .create c => some ((UserService.saveUser env (requestContext c.now c.principal) c.user).run s).2
  | .delete userIds => some ((UserService.deleteUsers userIds).run s).2

/-- The account refers to the account with this id. -/
def Account.RefersTo (a : Account) (i : Int) : Prop :=
  a.createdUser = some i ∨ a.lastModifiedUser = some i

/-- An account with this id is stored. -/
def Repository.HasId (r : Repository) (i : Int) : Prop := ∃ b ∈ r, b.id = i

/-- **Every reference leads to a stored account.** -/
def ReferencesStored (r : Repository) : Prop := ∀ a ∈ r, ∀ i, a.RefersTo i → r.HasId i

/-- The change breaks no reference: the principal of a creation is still
stored, and a deletion of accounts that are all stored takes none that a
remaining account refers to. -/
def SparesReferences (s : Store) : AccountChange → Prop
  | .create c => ∀ i, c.principal.user.id = some i → s.users.HasId i
  | .delete userIds =>
      userIds.Nodup → (∀ k ∈ userIds, ∃ a ∈ s.users, a.userId = k) →
        ∀ a ∈ s.users, a.userId ∉ userIds → ∀ b ∈ s.users, a.RefersTo b.id → b.userId ∉ userIds

instance (a : Account) (i : Int) : Decidable (a.RefersTo i) := inferInstanceAs (Decidable (_ ∨ _))

instance (s : Store) : ∀ c, Decidable (SparesReferences s c)
  | .create c => inferInstanceAs (Decidable
      (∀ i ∈ c.principal.user.id, ∃ b ∈ s.users.table.rows, b.id = i))
  | .delete userIds => inferInstanceAs (Decidable
      (userIds.Nodup → (∀ k ∈ userIds, ∃ a ∈ s.users.table.rows, a.userId = k) →
        ∀ a ∈ s.users.table.rows, a.userId ∉ userIds →
          ∀ b ∈ s.users.table.rows, a.RefersTo b.id → b.userId ∉ userIds))

/-! ## One change -/

/-- A new account refers to the principal, and to no other. -/
theorem eq_of_refersTo {c : Creation} {stamped enc : User} {cols : Columns} {i j : Int}
    (hstamped : StampedBy c.now c.principal c.user stamped) (henc : Encoded env stamped enc)
    (hstores : Stores enc cols) (h : Account.RefersTo { cols with id := j } i) :
    c.principal.user.id = some i := by
  obtain ⟨p, rfl⟩ := henc.exists_password
  have hcreated := hstores.createdUser
  have hmodified := hstores.lastModifiedUser
  dsimp only at hcreated hmodified
  rw [hstamped.createdUser c.isNew] at hcreated
  rw [hstamped.lastModifiedUser] at hmodified
  -- a record without an id is referred to by none that is stored
  cases hid : c.principal.user.id with
  | none =>
      rw [hid] at hcreated
      cases hcreated
  | some k =>
      rw [hid] at hcreated hmodified
      have hcreated : some k = cols.createdUser := Except.ok.inj hcreated
      have hmodified : some k = cols.lastModifiedUser := Except.ok.inj hmodified
      rcases h with h | h
      · exact hcreated.trans h
      · exact hmodified.trans h

/-- **A creation by a principal that is stored.** -/
theorem referencesStored_of_create {c : Creation} {created : User} (h : ReferencesStored s.users)
    (hprincipal : ∀ i, c.principal.user.id = some i → s.users.HasId i)
    (hrun : (UserService.saveUser env (requestContext c.now c.principal) c.user).run s =
      (.ok created, s')) : ReferencesStored s'.users := by
  obtain ⟨stamped, enc, users, hst, henc, hsave, rfl⟩ := run_saveUser_eq_ok hrun
  have hst := stampedBy_of_beforeSave hst
  have hid : enc.id = c.user.id := henc.id_eq.trans hst.stamped.id_eq
  rcases save_cases hsave with ⟨old, cols, hold, -, hup, -⟩ | ⟨cols, -, hstores, hins, -⟩
  · exact absurd (hid.symm.trans hold) (id_ne_of_not_exist c.isNew old hup.mem_old)
  · have hkeeps : ∀ i, s.users.HasId i → users.HasId i := by
      rintro i ⟨b, hb, hbi⟩
      exact ⟨b, (hins.mem_iff b).2 (Or.inl hb), hbi⟩
    intro a ha i href
    rcases (hins.mem_iff a).1 ha with ha | rfl
    · exact hkeeps i (h a ha i href)
    · exact hkeeps i (hprincipal i (eq_of_refersTo hst henc hstores href))

/-- **A deletion that takes no account a remaining one refers to.** -/
theorem referencesStored_of_delete {userIds : List String} {r r' : Repository}
    (h : ReferencesStored r) (hdeletes : r.Deletes userIds r')
    (hspares : ∀ a ∈ r, a.userId ∉ userIds → ∀ b ∈ r, a.RefersTo b.id → b.userId ∉ userIds) :
    ReferencesStored r' := by
  intro a ha i href
  obtain ⟨haold, hastays⟩ := (hdeletes.mem_iff a).1 ha
  obtain ⟨b, hb, rfl⟩ := h a haold i href
  exact ⟨b, (hdeletes.mem_iff b).2 ⟨hb, hspares a haold hastays b hb href⟩, rfl⟩

/-- One change keeps the references, when it breaks none. -/
theorem referencesStored_of_change {a : AccountChange} (h : ReferencesStored s.users)
    (hspares : SparesReferences s a) (hstep : change env s a = some s') :
    ReferencesStored s'.users := by
  cases a with
  | create c =>
      obtain rfl := Option.some.inj hstep
      rcases hrun : (UserService.saveUser env (requestContext c.now c.principal) c.user).run s with
        ⟨e | created, s₁⟩
      · rw [state_of_run_saveUser_error hrun]
        exact h
      · exact referencesStored_of_create h hspares hrun
  | delete userIds =>
      obtain rfl := Option.some.inj hstep
      rcases hrun : (UserService.deleteUsers userIds).run s with ⟨e | ⟨⟩, s₁⟩
      · rw [state_of_run_deleteUsers_error hrun]
        exact h
      · have hdeletes := (run_deleteUsers_eq_ok hrun).1
        exact referencesStored_of_delete h hdeletes (hspares hdeletes.nodup hdeletes.stored)

/-! ## Sequences of changes -/

/-- The built-in accounts refer to none. -/
theorem referencesStored_of_started {now : Date} (h : DBInit.started env now = .ok s) :
    ReferencesStored s.users := by
  intro a ha i href
  have hbuiltIn := DBInit.builtIn_of_started h a ha
  rcases href with href | href
  · rw [hbuiltIn.createdUser] at href
    exact absurd href (by simp)
  · rw [hbuiltIn.lastModifiedUser] at href
    exact absurd href (by simp)

/-- **The references of the stored accounts lead to stored accounts** after
every sequence of changes that break none. -/
theorem referencesStored_of_perform (env : Env) (now : Date) (s s' : Store)
    (changes : List AccountChange) (hstart : DBInit.started env now = .ok s)
    (hspares : Along (change env) SparesReferences s changes)
    (hrun : perform (change env) s changes = some s') : ReferencesStored s'.users :=
  perform_invariant (I := fun t => ReferencesStored t.users)
    (fun _ _ _ ht ha hstep => referencesStored_of_change ht ha hstep)
    (referencesStored_of_started hstart) hspares hrun

/-- The administrator creates an account. -/
def bobsCreation : Creation where
  now := 1
  principal := ⟨{ id := some 1, userId := some "admin", role := some Role.admin }, none⟩
  user := { userId := some "bob", userName := some "bob", role := some Role.user }
  isNew := rfl

/-- The store after some changes, for the runs on fixed inputs. -/
def storeAfterChanges (changes : List AccountChange) : Store :=
  (perform (change plaintextEnv) DBInit.plaintextStarted changes).getD DBInit.plaintextStarted

/-- The administrator creates an account, which refers to the administrator
then, and another account is deleted. -/
theorem referencesStored_of_perform_bobsCreation :
    ReferencesStored (storeAfterChanges [.create bobsCreation, .delete ["user"]]).users :=
  referencesStored_of_perform plaintextEnv 0 DBInit.plaintextStarted _
    [.create bobsCreation, .delete ["user"]] DBInit.started_eq_ok (by decide +kernel)
    (perform_eq_some_getD (by decide +kernel) _)

/-- **The creator is deleted, and the account it has created refers to
nobody.** -/
theorem not_referencesStored_of_delete :
    DBInit.started plaintextEnv 0 = .ok DBInit.plaintextStarted ∧
      ¬∀ s', perform (change plaintextEnv) DBInit.plaintextStarted
        [.create bobsCreation, .delete ["admin"]] = some s' → ReferencesStored s'.users := by
  refine ⟨DBInit.started_eq_ok, fun hkept => ?_⟩
  have hstored := hkept (storeAfterChanges [.create bobsCreation, .delete ["admin"]]) rfl
  have hbob : ((storeAfterChanges [.create bobsCreation, .delete ["admin"]]).users.findOne 5).map
      User.createdUser = some (some ⟨some 1⟩) := by rfl
  obtain ⟨u, hu, hcreated⟩ := Option.map_eq_some_iff.1 hbob
  obtain ⟨a, ha, -, rfl⟩ := findOne_eq_some_iff.1 hu
  have hrefers : a.RefersTo 1 := by
    obtain ⟨i, hi, hone⟩ := Option.map_eq_some_iff.1 hcreated
    left
    rw [hi]
    exact congrArg UserRef.id hone
  -- no row has the id of the administrator any more
  obtain ⟨b, hb, hid⟩ := hstored a ha 1 hrefers
  have hfound := findOne_eq_some_iff.2 ⟨b, hb, hid, rfl⟩
  have hnone : (storeAfterChanges [.create bobsCreation, .delete ["admin"]]).users.findOne 1 =
      none := by rfl
  rw [hnone] at hfound
  cases hfound

end Zooffice
