import Zooffice.User.Ownership
import Zooffice.User.Model.EditForm
/-!
# The page of an account and the form on it

The page `/user/{userId}` and the save of its form are two requests that
only the id in the form joins. The save is true to the id: it writes the
account that has it and no other. The page is not true to the path: it
shows the account of the principal, whatever account the path names.
-/


namespace Zooffice

open Repository UserController

variable {env : Env} {now : Date} {principal : SecuredUser} {updatedUser : User}
  {followersStr : Option String} {s s' : Store} {a : Account} {userId : String}

/-! ## The page -/

/-- **An administrator gets the page**, with the record that is read under
its own user id. -/
theorem run_detail_of_admin (hrole : principal.user.role = some Role.admin) :
    (detail now principal userId).run s =
      (.ok (s.cache.read s.lookup principal.user.userId),
        { s with cache := s.cache.afterRead s.lookup principal.user.userId }) := by
  have hadmitted : preAuthorizeDetail principal principal.user userId = .ok () := by
    rw [preAuthorizeDetail, SecuredUser.getAuthorities, hrole]
    rfl
  rw [detail, Eff.run_ofExcept_bind]
  change (Eff.ofExcept (preAuthorizeDetail principal principal.user userId) >>= _).run s = _
  rw [hadmitted, Eff.run_ofExcept_bind]
  rfl

/-! ## The save of the form -/

/-- The table `r'` is `r` but for the account with the id `i`, and no
account comes or goes. -/
structure WritesOnly (i : Int) (r r' : Repository) : Prop where
  others : ∀ b : Account, b.id ≠ i → (b ∈ r' ↔ b ∈ r)
  ids : ∀ j, (∃ b ∈ r', b.id = j) ↔ ∃ b ∈ r, b.id = j

theorem WritesOnly.refl (i : Int) (r : Repository) : WritesOnly i r r :=
  ⟨fun _ _ => Iff.rfl, fun _ => Iff.rfl⟩

theorem writesOnly_of_updates {row : Account} {r r' : Repository} (h : r.Updates a row r') :
    WritesOnly a.id r r' :=
  ⟨fun _ hne => h.mem_of_ne hne, h.id_iff⟩

/-- **A save writes the account whose id the form carries**, if it writes
at all. -/
theorem writesOnly_of_save (ha : a ∈ s.users) (hid : updatedUser.id = some a.id) :
    WritesOnly a.id s.users
      ((save env now principal updatedUser followersStr).run s).2.users := by
  rcases h : (save env now principal updatedUser followersStr).run s with ⟨e | url, s'⟩
  · rcases save_error_cases h with (rfl | rfl) | ⟨-, -, submitted, s₁, hsub, hwrite⟩
    · exact WritesOnly.refl _ _
    · exact WritesOnly.refl _ _
    · obtain ⟨_, _, -, -, hup⟩ := updates_of_write ha hid hsub hwrite
      exact writesOnly_of_updates hup
  · obtain ⟨-, -, submitted, s₁, hsub, hwrite⟩ := save_cases h
    obtain ⟨_, _, -, -, hup⟩ := updates_of_write ha hid hsub hwrite
    exact writesOnly_of_updates hup

/-! ## The two requests -/

/-- The page that the path `/user/{userId}` names edits its account: the
record in the form is the account, and the form sent back by the same
principal, at any time and with any edits but of the id, changes the
account and no other. -/
def EditsAccount (env : Env) (now : Date) (principal : SecuredUser) (userId : String)
    (s : Store) : Prop :=
  ∃ a ∈ s.users, a.userId = userId ∧
    ∃ s₁, (detail now principal userId).run s = (.ok (some a.toUser), s₁) ∧
      ∀ now' updatedUser followersStr, updatedUser.id = a.toUser.id →
        let saved := (save env now' principal updatedUser followersStr).run s₁
        WritesOnly a.id s.users saved.2.users ∧
          ∀ url, saved.1 = .ok url → ∃ row, s.users.Updates a row saved.2.users

/-- Under the user id the cache has the record of the account as it is
stored; or it has nothing, and the account has that user id. -/
def FoundUnder (s : Store) (k : Option String) (a : Account) : Prop :=
  s.cache.get? k = some (some a.toUser) ∨ s.cache.get? k = none ∧ k = some a.userId

theorem read_eq_some_iff {k : Option String} (ha : a ∈ s.users) :
    s.cache.read s.lookup k = some a.toUser ↔ FoundUnder s k a := by
  rw [FoundUnder, Cache.read]
  cases hcached : s.cache.get? k with
  | some found => simp
  | none =>
      refine ⟨fun hread => .inr ⟨rfl, ?_⟩, fun h => ?_⟩
      · -- what the table returns has the user id that was asked for
        exact (userId_of_findOneByUserId hread).symm
      · rcases h with h | ⟨-, rfl⟩
        · cases h
        · exact findOneByUserId_of_mem ha

/-- While the cache agrees with the table, the user id decides. -/
theorem foundUnder_iff_of_coherent {k : Option String} (hcoherent : s.cache.Coherent s.lookup)
    (ha : a ∈ s.users) : FoundUnder s k a ↔ k = some a.userId := by
  rw [← read_eq_some_iff ha, hcoherent.read_eq]
  exact ⟨fun hread => (userId_of_findOneByUserId hread).symm,
    fun hk => hk ▸ findOneByUserId_of_mem ha⟩

/-- The administrator of the first start. -/
def firstAdministrator : SecuredUser :=
  ⟨{ id := some 1, userId := some "admin", role := some Role.admin }, none⟩

end Zooffice
