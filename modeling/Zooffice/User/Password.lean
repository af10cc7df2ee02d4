import Zooffice.Common.Run
import Zooffice.User.Controller
import Zooffice.User.Init
/-!
# Stored passwords and the salt of the login

A login hashes the presented password with the stored user id as salt.
A save hashes the submitted password with the submitted user id, and the
merge decides whether that user id is stored. `Hashed` says that the two
agree: each stored password is the hash of the last password submitted
for the account under the user id it has now. Every creation keeps it,
and an update keeps it when the submitted user id is the one that is
stored afterwards (`KeepsSalt`). An update that renames an account and
submits no password loses the password.
-/


namespace Zooffice

open Repository UserController

variable {env : Env} {now : Date}

/-! ## What was submitted -/

/-- The store, and the last password that was not blank submitted for
each account id. -/
structure Journal where
  store : Store
  submitted : Int → Option String

/-- The id of the account that saving the record updates or creates. -/
def savedId (r : Repository) (u : User) : Int :=
  if u.exist then u.id.getD 0 else r.sequence

/-- A request that returned, with its password noted. -/
def submit (env : Env) (j : Journal) (q : SaveRequest) : Option Journal :=
  match q.run env j.store with
  | (.error _, _) => none
  | (.ok _, store) =>
      some
        { store
          submitted := fun i =>
            if i = savedId j.store.users q.updatedUser ∧ isNotBlank q.updatedUser.password then
              q.updatedUser.password
            else j.submitted i }

/-- The start: each built-in account is created with its user id as its
password. -/
def journalOf (s : Store) : Journal where
  store := s
  submitted i := (s.users.findOne i).bind User.userId

/-- A password the account has is the hash of the last one submitted. -/
def HashedAccount (env : Env) (submitted : Int → Option String) (a : Account) : Prop :=
  isNotBlank a.password = true →
    ∃ p e, submitted a.id = some p ∧
      env.passwordEncoder.encodePassword p (some a.userId) = .ok e ∧ a.password = some e

/-- **Every stored password is the hash of the last password submitted
for its account, under the stored user id.** -/
def Hashed (env : Env) (j : Journal) : Prop :=
  ∀ a ∈ j.store.users, HashedAccount env j.submitted a

/-! ## The built-in accounts -/

/-- The account's password is the hash of its user id. -/
def OwnNamePassword (env : Env) (a : Account) : Prop :=
  ∃ e, env.passwordEncoder.encodePassword a.userId (some a.userId) = .ok e ∧ a.password = some e

theorem ownNamePassword_of_started {s : Store} (h : DBInit.started env now = .ok s) :
    ∀ a ∈ s.users, OwnNamePassword env a :=
  fun a ha => (DBInit.builtIn_of_started h a ha).password

/-- **After the first start every password is hashed.** -/
theorem hashed_of_started {s : Store} (h : DBInit.started env now = .ok s) :
    Hashed env (journalOf s) := by
  intro a ha _
  obtain ⟨e, henc, hpass⟩ := ownNamePassword_of_started h a ha
  refine ⟨a.userId, e, ?_, henc, hpass⟩
  have hfind : s.users.findOne a.id = some a.toUser :=
    findOne_eq_some_iff.2 ⟨a, ha, rfl, rfl⟩
  simp only [journalOf, hfind]
  rfl

/-! ## One request -/

/-- No hash is blank: a digest is printed in hexadecimal or base 64. -/
def NeverBlank (encoder : PasswordEncoder) : Prop :=
  ∀ p salt e, isNotBlank (some p) = true → encoder.encodePassword p salt = .ok e →
    isNotBlank (some e) = true

/-- The update of `old` keeps the salt: a password that is submitted is
hashed under the user id stored afterwards, and one that is kept is kept
with its user id. -/
structure KeepsSalt (old : Account) (updatedUser : User) : Prop where
  submitted : isNotBlank updatedUser.password = true →
    isNotBlank updatedUser.userId = true ∨ updatedUser.userId = some old.userId
  kept : isNotBlank updatedUser.password = false → isNotBlank old.password = true →
    isNotBlank updatedUser.userId = false ∨ updatedUser.userId = some old.userId

/-- The same for a request, of the account it updates. -/
def SaltKept (j : Journal) (q : SaveRequest) : Prop :=
  ∀ old ∈ j.store.users, q.updatedUser.id = some old.id → KeepsSalt old q.updatedUser

/-- **The row an update writes** is hashed, when the old one was and the
update keeps the salt. -/
theorem hashedAccount_of_modifies {submitted : Int → Option String} {old : Account} {u enc : User}
    {c : Columns} (hblank : NeverBlank env.passwordEncoder) (hold : HashedAccount env submitted old)
    (hsalt : KeepsSalt old u) (henc : Encoded env u enc)
    (hstores : Stores (old.toUser.merge env.toLowerCase enc) c) :
    HashedAccount env
      (fun i => if i = old.id ∧ isNotBlank u.password then u.password else submitted i)
      (updatedRow old c) := by
  intro hpass
  have hmerged : c.password = User.mergeString false old.password enc.password :=
    hstores.password
  change isNotBlank c.password = true at hpass
  change ∃ p e, (if old.id = old.id ∧ isNotBlank u.password then u.password
    else submitted old.id) = some p ∧
      env.passwordEncoder.encodePassword p (some c.userId) = .ok e ∧ c.password = some e
  rcases henc with ⟨hb, rfl⟩ | ⟨p, e, hp, hnb, he, rfl⟩
  · -- no password: the old hash stays, so its user id has to stay
    rw [User.mergeString_of_blank hb] at hmerged
    rw [hmerged] at hpass ⊢
    obtain ⟨p, e, hsub, he, hst⟩ := hold hpass
    refine ⟨p, e, by simpa [hb] using hsub, ?_, hst⟩
    rwa [userId_of_merge_blank hstores (hsalt.kept hb hpass)]
  · -- a password: it was hashed under the submitted user id
    have hpb : isNotBlank u.password = true := by rw [hp]; exact hnb
    have heb : isNotBlank (some e) = true := hblank p u.userId e hnb he
    rw [User.mergeString_of_notBlank heb] at hmerged
    have huser : u.userId = some c.userId :=
      userId_of_merge (u := { u with password := some e }) hstores (hsalt.submitted hpb)
    exact ⟨p, e, by simpa [hpb] using hp, huser ▸ he, hmerged⟩

/-- **The row a creation writes** is hashed. -/
theorem hashedAccount_of_creates {submitted : Int → Option String} {i : Int} {u stamped enc : User}
    {c : Columns} (hst : Stamped u stamped) (henc : Encoded env stamped enc)
    (hstores : Stores enc c) :
    HashedAccount env
      (fun k => if k = i ∧ isNotBlank u.password then u.password else submitted k)
      { c with id := i } := by
  intro hpass
  change isNotBlank c.password = true at hpass
  change ∃ p e, (if i = i ∧ isNotBlank u.password then u.password else submitted i) = some p ∧
    env.passwordEncoder.encodePassword p (some c.userId) = .ok e ∧ c.password = some e
  have hcp : c.password = enc.password := hstores.password
  have huser : enc.userId = some c.userId := hstores.userId
  rcases henc with ⟨hb, rfl⟩ | ⟨p, e, hp, hnb, he, rfl⟩
  · rw [hcp, hb] at hpass
    cases hpass
  · have hup : u.password = some p := hst.password_eq.symm.trans hp
    exact ⟨p, e, by simp [hup, hnb], huser ▸ he, hcp⟩

/-- Another account is hashed as it was. -/
theorem hashedAccount_of_ne {submitted : Int → Option String} {i : Int} {v : Option String}
    {b : Bool} {a : Account} (h : HashedAccount env submitted a) (hne : a.id ≠ i) :
    HashedAccount env (fun k => if k = i ∧ b then v else submitted k) a := by
  intro hpass
  obtain ⟨p, e, hsub, hrest⟩ := h hpass
  exact ⟨p, e, by simpa [hne] using hsub, hrest⟩

/-- **A request that keeps the salt keeps every password hashed.** -/
theorem hashed_of_submit {j j' : Journal} {q : SaveRequest}
    (hblank : NeverBlank env.passwordEncoder) (hj : Hashed env j) (hsalt : SaltKept j q)
    (h : submit env j q = some j') : Hashed env j' := by
  unfold submit at h
  split at h
  · cases h
  · next url s' hrun =>
      rw [Option.some.injEq] at h
      subst h
      obtain ⟨-, -, w, s₁, hsub, hwrite⟩ := UserController.save_cases hrun
      rw [← hsub.password_eq]
      rcases hwrite with ⟨hex, old, enc, c, hid, henc, hstores, hup, -⟩ |
        ⟨hex, stamped, enc, c, hst, henc, hstores, hins, -⟩
      · rw [hsub.users_eq] at hup
        have huid : q.updatedUser.id = some old.id := hsub.id_eq.symm.trans hid
        have hsaved : savedId j.store.users q.updatedUser = old.id := by
          rw [savedId, if_pos ((exist_congr hsub.id_eq).symm.trans hex), huid, Option.getD_some]
        rw [hsaved]
        -- the account that is updated, and the others
        intro a ha
        rcases (hup.mem_iff a).1 ha with rfl | ⟨ha, hne⟩
        · have hkeeps := hsalt old hup.mem_old huid
          have hkeeps : KeepsSalt old w :=
            ⟨by rw [hsub.password_eq, hsub.userId_eq]; exact hkeeps.submitted,
              by rw [hsub.password_eq, hsub.userId_eq]; exact hkeeps.kept⟩
          exact hashedAccount_of_modifies hblank (hj old hup.mem_old) hkeeps henc hstores
        · exact hashedAccount_of_ne (hj a ha) hne
      · rw [hsub.users_eq] at hins
        have hsaved : savedId j.store.users q.updatedUser = j.store.users.sequence := by
          rw [savedId, ← exist_congr hsub.id_eq, hex]
          rfl
        rw [hsaved]
        -- no stored account has the id of the new one
        intro a ha
        rcases (hins.mem_iff a).1 ha with ha | rfl
        · have hlt : a.id < j.store.users.sequence := j.store.users.id_lt a ha
          exact hashedAccount_of_ne (hj a ha) (by omega)
        · exact hashedAccount_of_creates hst henc hstores

/-! ## Sequences of requests -/

/-- **Every stored password stays the hash of the last one submitted**, in
every sequence of successful requests whose updates keep the salt. -/
theorem hashed_of_perform (env : Env) (now : Date) (s : Store) (reqs : List SaveRequest)
    (j : Journal) (hblank : NeverBlank env.passwordEncoder)
    (hstart : DBInit.started env now = .ok s)
    (hsalt : Along (submit env) SaltKept (journalOf s) reqs)
    (hrun : perform (submit env) (journalOf s) reqs = some j) : Hashed env j :=
  perform_invariant (I := Hashed env)
    (fun _ _ _ hj hq hstep => hashed_of_submit hblank hj hq hstep)
    (hashed_of_started hstart) hsalt hrun

/-- Text added behind a password that is not blank leaves it not blank. -/
theorem isNotBlank_append {p t : String} (h : isNotBlank (some p) = true) :
    isNotBlank (some (p ++ t)) = true := by
  simp only [isNotBlank, isBlank, String.toList_append, List.all_append, Bool.not_eq_true',
    Bool.and_eq_false_iff] at h ⊢
  exact Or.inl h

theorem neverBlank_plaintextPasswordEncoder : NeverBlank plaintextPasswordEncoder := by
  intro p salt e hp he
  change mergePasswordAndSalt p salt true = .ok e at he
  unfold mergePasswordAndSalt at he
  split at he
  · cases he
    exact hp
  · split at he
    · cases he
    · split at he
      · cases he
        exact hp
      · cases he
        rw [String.append_assoc, String.append_assoc]
        exact isNotBlank_append hp

/-- The administrator gives an account a new password. -/
def newPasswordForm : SaveRequest where
  now := 1
  principal := ⟨{ id := some 1, userId := some "admin", role := some Role.admin }, none⟩
  updatedUser :=
    { id := some 2, userId := some "user", userName := some "user", email := some "user@nhn.com",
      password := some "secret" }
  followersStr := none

/-- The administrator creates an account. -/
def newAccountForm : SaveRequest where
  now := 2
  principal := newPasswordForm.principal
  updatedUser :=
    { userId := some "bob", userName := some "bob", email := some "bob@nhn.com",
      password := some "hidden", role := some Role.user }
  followersStr := none

/-- The journal after both requests. -/
def journalAfterBoth : Journal :=
  (perform (submit plaintextEnv) (journalOf DBInit.plaintextStarted)
    [newPasswordForm, newAccountForm]).getD (journalOf DBInit.plaintextStarted)

theorem hashed_of_perform_newPasswordForm :
    (journalAfterBoth.submitted 2, journalAfterBoth.submitted 5) = (some "secret", some "hidden") ∧
      Hashed plaintextEnv journalAfterBoth := by
  have hsalt : Along (submit plaintextEnv) SaltKept (journalOf DBInit.plaintextStarted)
      [newPasswordForm, newAccountForm] := by
    refine ⟨fun old hold hid => ⟨fun _ => Or.inl (by decide),
      fun _ _ => Or.inr (DBInit.userId_of_mem_plaintextStarted hold hid)⟩, fun j _ =>
      ⟨fun old _ hid => ?_, fun _ _ => trivial⟩⟩
    -- the second request has no account to update
    cases hid
  exact ⟨by decide +kernel, hashed_of_perform plaintextEnv 0 DBInit.plaintextStarted
    [newPasswordForm, newAccountForm] _ neverBlank_plaintextPasswordEncoder DBInit.started_eq_ok
    hsalt (perform_eq_some_getD (by decide +kernel) _)⟩

/-- The journal after one request, for the runs on fixed inputs. -/
def journalAfter (q : SaveRequest) : Journal :=
  (submit plaintextEnv (journalOf DBInit.plaintextStarted) q).getD
    (journalOf DBInit.plaintextStarted)

/-- The administrator renames an account and leaves the password field
empty. -/
def renameForm : SaveRequest where
  now := 1
  principal := ⟨{ id := some 1, userId := some "admin", role := some Role.admin }, none⟩
  updatedUser :=
    { id := some 2, userId := some "bob", userName := some "user", email := some "user@nhn.com",
      password := some "" }
  followersStr := none

/-- **A rename loses the password.** The stored hash is still the one
under the old user id. -/
theorem not_hashed_of_renameForm :
    DBInit.started plaintextEnv 0 = .ok DBInit.plaintextStarted ∧
      perform (submit plaintextEnv) (journalOf DBInit.plaintextStarted) [renameForm] =
        some (journalAfter renameForm) ∧
      ¬ Hashed plaintextEnv (journalAfter renameForm) := by
  refine ⟨DBInit.started_eq_ok, rfl, fun hall => ?_⟩
  have hstored : ((journalAfter renameForm).store.users.findOne 2).map
      (fun u => (u.userId, u.password)) = some (some "bob", some "user\x7buser\x7d") := by rfl
  obtain ⟨u, hfind, hu⟩ := Option.map_eq_some_iff.1 hstored
  obtain ⟨a, ha, hid, rfl⟩ := findOne_eq_some_iff.1 hfind
  obtain ⟨huser, hpass⟩ := Prod.mk.inj hu
  have huser : some a.userId = some "bob" := huser
  have hpass : a.password = some "user\x7buser\x7d" := hpass
  obtain ⟨p, e, hsub, henc, hst⟩ := hall a ha (by rw [hpass]; decide)
  have hsubmitted : (journalAfter renameForm).submitted 2 = some "user" := by rfl
  rw [hid, hsubmitted] at hsub
  cases hsub
  rw [huser] at henc
  rw [hpass] at hst
  cases hst
  revert henc
  decide

end Zooffice
