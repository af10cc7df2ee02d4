import Zooffice.User.Init
import Zooffice.User.Service
/-!
# Deleting a list of accounts

The loop of `deleteUsers` takes out one account after the other and fails
at the first user id that names none, which a repeated one does the
second time. Its transaction makes it all or nothing, and says when it is
all: each user id is stored, and named once.
-/


namespace Zooffice

open Repository

variable {s s' : Store} {userIds : List String}

/-- An account that is stored can be deleted. -/
theorem exists_delete_found {r : Repository} {k : String} (h : ∃ a ∈ r, a.userId = k) :
    ∃ r', r.delete (r.findOneByUserId (some k)) = .ok r' := by
  obtain ⟨a, ha, rfl⟩ := h
  rw [findOneByUserId_of_mem ha]
  exact ⟨_, rfl⟩

/-- The loop gets through a list of stored accounts without repetitions. -/
theorem exists_run_deleteEach (hnodup : userIds.Nodup)
    (hstored : ∀ k ∈ userIds, ∃ a ∈ s.users, a.userId = k) :
    ∃ s', (UserService.deleteEach userIds).run s = (.ok (), s') := by
  induction userIds generalizing s with
  | nil => exact ⟨s, rfl⟩
  | cons k ks ih =>
      obtain ⟨hk, hnodup⟩ := List.nodup_cons.1 hnodup
      obtain ⟨users, hdelete⟩ := exists_delete_found (hstored k List.mem_cons_self)
      obtain ⟨-, hmem⟩ := delete_found_eq_ok hdelete
      -- the other accounts of the list are still there
      have hrest : ∀ i ∈ ks, ∃ a ∈ users, a.userId = i := by
        intro i hi
        obtain ⟨a, ha, rfl⟩ := hstored i (List.mem_cons_of_mem _ hi)
        exact ⟨a, (hmem a).2 ⟨ha, fun hak => hk (hak ▸ hi)⟩, rfl⟩
      obtain ⟨s', hrun⟩ := ih (s := { s with users }) hnodup hrest
      refine ⟨s', ?_⟩
      rw [UserService.deleteEach, Eff.run_get_bind]
      refine Eff.run_ofExcept_bind_eq_ok.2 ⟨users, hdelete, ?_⟩
      rw [Eff.run_modify_bind]
      exact hrun

/-- **The deletion returns exactly when each user id is stored and named
once.** -/
theorem deleteUsers_returns_iff :
    (∃ s', (UserService.deleteUsers userIds).run s = (.ok (), s')) ↔
      userIds.Nodup ∧ ∀ k ∈ userIds, ∃ a ∈ s.users, a.userId = k := by
  constructor
  · rintro ⟨s', hrun⟩
    obtain ⟨hdeletes, -⟩ := run_deleteUsers_eq_ok hrun
    exact ⟨hdeletes.nodup, hdeletes.stored⟩
  · rintro ⟨hnodup, hstored⟩
    obtain ⟨s', hrun⟩ := exists_run_deleteEach hnodup hstored
    exact ⟨_, Eff.run_bind_eq_ok.2 ⟨(), s', Eff.run_transactional_eq_ok.2 hrun, rfl⟩⟩

/-- **All or nothing.** Either the deletion returns, each user id named a
stored account, those accounts and no others are gone and the cache is
empty; or it throws and the table is as it was. -/
theorem deleteUsers_all_or_nothing (userIds : List String) (s : Store) :
    let done := (UserService.deleteUsers userIds).run s
    (done.1 = .ok () ∧ (∀ k ∈ userIds, ∃ a ∈ s.users, a.userId = k) ∧
        (∀ a, a ∈ done.2.users ↔ a ∈ s.users ∧ a.userId ∉ userIds) ∧
        done.2.cache = Cache.empty) ∨
      ((∃ e, done.1 = .error e) ∧ done.2.users = s.users) := by
  intro done
  rcases hdone : done with ⟨e | ⟨⟩, s'⟩
  · exact Or.inr ⟨⟨e, rfl⟩, congrArg Store.users (state_of_run_deleteUsers_error hdone)⟩
  · obtain ⟨hdeletes, hcache⟩ := run_deleteUsers_eq_ok hdone
    exact Or.inl ⟨rfl, hdeletes.stored, hdeletes.mem_iff, hcache⟩

end Zooffice
