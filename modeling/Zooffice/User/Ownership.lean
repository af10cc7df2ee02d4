import Zooffice.User.Controller
import Zooffice.User.Model.Init
/-!
# A principal that is not an administrator saves its own account

Method security makes the submitted id the principal's own, so the
request is an update, and an update touches the account with that id.
The lookup by the submitted user id, the role it yields and the merge of
the form do not matter to it.
-/


namespace Zooffice

open Repository UserController

variable {env : Env} {now : Date} {principal : SecuredUser} {updatedUser : User}
  {followersStr : Option String} {s s' : Store}

/-- An update leaves the other accounts, and no account comes or goes. -/
theorem Repository.Updates.id_iff {r r' : Repository} {old row : Account}
    (h : r.Updates old row r') (i : Int) : (∃ a ∈ r', a.id = i) ↔ ∃ a ∈ r, a.id = i := by
  constructor
  · rintro ⟨a, ha, rfl⟩
    rcases (h.mem_iff a).1 ha with rfl | ⟨ha, -⟩
    · exact ⟨old, h.mem_old, h.id_eq.symm⟩
    · exact ⟨a, ha, rfl⟩
  · rintro ⟨a, ha, rfl⟩
    by_cases hid : a.id = old.id
    · exact ⟨row, (h.mem_iff row).2 (Or.inl rfl), h.id_eq.trans hid.symm⟩
    · exact ⟨a, (h.mem_iff a).2 (Or.inr ⟨ha, hid⟩), rfl⟩

theorem Repository.Updates.mem_of_ne {r r' : Repository} {old row a : Account}
    (h : r.Updates old row r') (hne : a.id ≠ old.id) : a ∈ r' ↔ a ∈ r := by
  rw [h.mem_iff a]
  constructor
  · rintro (rfl | ⟨ha, -⟩)
    · exact absurd h.id_eq hne
    · exact ha
  · exact fun ha => Or.inr ⟨ha, hne⟩

/-- What may become of the table when the principal saves: its own
account changes, nothing else. -/
structure OwnAccountOnly (principal : SecuredUser) (r r' : Repository) : Prop where
  others : ∀ a : Account, some a.id ≠ principal.user.id → (a ∈ r' ↔ a ∈ r)
  ids : ∀ i, (∃ a ∈ r', a.id = i) ↔ ∃ a ∈ r, a.id = i

/-- The principal's request has the principal's id. -/
theorem id_eq_of_admitted (hrole : principal.user.role ≠ some Role.admin)
    (h : Admitted principal updatedUser) : principal.user.id = updatedUser.id := by
  rcases h with hadmin | ⟨-, hid⟩
  · exact absurd hadmin hrole
  · exact hid

/-- **The request of such a principal is an update of its own account.** -/
theorem ownAccountOnly_of_save {url : String} (hrole : principal.user.role ≠ some Role.admin)
    (hid : principal.user.exist = true)
    (h : (save env now principal updatedUser followersStr).run s = (.ok url, s')) :
    OwnAccountOnly principal s.users s'.users := by
  obtain ⟨hadmitted, -, submitted, s₁, hsub, hwrite⟩ := save_cases h
  have hown : submitted.id = principal.user.id :=
    hsub.id_eq.trans (id_eq_of_admitted hrole hadmitted).symm
  rcases hwrite with ⟨-, old, enc, c, hold, -, -, hup, -⟩ | ⟨hex, -⟩
  · rw [hsub.users_eq] at hup
    refine ⟨fun a ha => hup.mem_of_ne fun hne => ha ?_, hup.id_iff⟩
    rw [hne, ← hown, hold]
  · -- a creation would need a session user without an id
    rw [exist_congr hown, hid] at hex
    cases hex

/-- **Every account but the principal's own is left alone.** The request
of a principal that is not an administrator either throws and leaves the
table as it was, or changes the principal's account only. -/
theorem save_throws_or_ownAccountOnly (env : Env) (now : Date) (principal : SecuredUser)
    (updatedUser : User) (followersStr : Option String) (s : Store)
    (hrole : principal.user.role ≠ some Role.admin) (hid : principal.user.exist = true) :
    let done := (save env now principal updatedUser followersStr).run s
    ((∃ e, done.1 = .error e) ∧ done.2.users = s.users) ∨
      ((∃ url, done.1 = .ok url) ∧ OwnAccountOnly principal s.users done.2.users) := by
  intro done
  rcases hdone : done with ⟨e | url, s'⟩
  · exact Or.inl ⟨⟨e, rfl⟩, users_of_run_save_error hid hdone⟩
  · exact Or.inr ⟨⟨url, rfl⟩, ownAccountOnly_of_save hrole hid hdone⟩

/-- A super user that posts another user's id leaves the table alone. -/
theorem save_throws_or_ownAccountOnly_superUser :
    let principal : SecuredUser := ⟨{ id := some 3, role := some Role.superUser }, none⟩
    let updatedUser : User := { id := some 1, role := some Role.user }
    let s := DBInit.plaintextStarted
    let done := (save plaintextEnv 0 principal updatedUser none).run s
    ((∃ e, done.1 = .error e) ∧ done.2.users = s.users) ∨
      ((∃ url, done.1 = .ok url) ∧ OwnAccountOnly principal s.users done.2.users) :=
  save_throws_or_ownAccountOnly plaintextEnv 0 _ _ none _ (by decide) (by decide)

end Zooffice
