import Zooffice.Common.Run
import Zooffice.User.Controller
import Zooffice.User.Model.Init
/-!
# Who modified an account last

A request that writes an account goes through `saveUser`, `saveUser` with
a role, or `modifyUser`. The aspect stamps the record of the first two.
`modifyUser` is not named `save*`: what it stores is the merge of the
submitted record into the stored one, so the last modification is the
submitted one, or where none is submitted that of before. The creation is
never changed, since its columns are not updatable.
-/


namespace Zooffice

open Repository UserController

variable {env : Env} {s s' : Store}

/-! ## What a save writes -/

namespace Repository

variable {r r' : Repository} {u u' : User}

/-- The id of the account that a save writes: that of the record when it
is stored, or the next one. -/
def targetId (r : Repository) (u : User) : Int :=
  (u.id.bind r.table.find?).elim r.sequence Account.id

theorem targetId_congr {v : User} (h : u.id = v.id) : r.targetId u = r.targetId v := by
  rw [targetId, targetId, h]

theorem targetId_of_mem {a : Account} (ha : a ∈ r) (hid : u.id = some a.id) :
    r.targetId u = a.id := by
  rw [targetId, hid, Option.bind_some, Table.find?_eq_some_iff.2 ⟨ha, rfl⟩, Option.elim_some]

theorem targetId_of_new (h : ∀ a ∈ r, u.id ≠ some a.id) : r.targetId u = r.sequence := by
  have hnone : u.id.bind r.table.find? = none := by
    refine Option.bind_eq_none_iff.2 fun i hi => Table.find?_eq_none_iff.2 fun a ha haid => ?_
    exact h a ha (hi.trans (congrArg some haid.symm))
  rw [targetId, hnone, Option.elim_none]

/-- The accounts of `r` have in `r'` the stamps of their creation. -/
def KeepsCreation (r r' : Repository) : Prop :=
  ∀ old ∈ r, ∀ a ∈ r', a.id = old.id →
    a.createdUser = old.createdUser ∧ a.createdDate = old.createdDate

/-- **An update keeps the creation**: its columns are not updatable. -/
theorem Updates.keepsCreation {old : Account} {c : Columns}
    (h : r.Updates old (updatedRow old c) r') : r.KeepsCreation r' := by
  intro b hb a ha hid
  rcases (h.mem_iff a).1 ha with rfl | ⟨ha, -⟩
  · obtain rfl : old = b := eq_of_id_eq h.mem_old hb hid
    exact ⟨rfl, rfl⟩
  · obtain rfl : a = b := eq_of_id_eq ha hb hid
    exact ⟨rfl, rfl⟩

/-- And an insert writes a new id. -/
theorem Inserts.keepsCreation {row : Account} (h : r.Inserts row r') : r.KeepsCreation r' := by
  intro b hb a ha hid
  rcases (h.mem_iff a).1 ha with ha | rfl
  · obtain rfl : a = b := eq_of_id_eq ha hb hid
    exact ⟨rfl, rfl⟩
  · have hlt := r.id_lt b hb
    rw [← hid, h.id_eq] at hlt
    exact absurd hlt (Int.lt_irrefl _)

/-- The column of a reference, and the reference it holds. -/
theorem toColumn_eq_ok {ref : Option UserRef} {i : Option Int} :
    toColumn ref = .ok i ↔ ref = i.map fun k => ⟨some k⟩ := by
  rcases ref with _ | ⟨_ | k⟩ <;> rcases i with _ | i <;> simp [toColumn]

/-- **The account a save writes** has the last modification of the record. -/
theorem exists_written_of_save (h : r.save u = .ok (u', r')) :
    (∃ a ∈ r', a.id = r.targetId u ∧ a.lastModifiedDate = u.lastModifiedDate ∧
      u.lastModifiedUser = a.lastModifiedUser.map fun k => ⟨some k⟩) ∧ r.KeepsCreation r' := by
  rcases save_cases h with ⟨old, c, hid, hstores, hup, -⟩ | ⟨c, hnew, hstores, hins, -⟩
  · exact ⟨⟨updatedRow old c, hup.row_mem,
      (targetId_of_mem hup.mem_old hid).symm, hstores.lastModifiedDate,
      toColumn_eq_ok.1 hstores.lastModifiedUser⟩, hup.keepsCreation⟩
  · exact ⟨⟨_, hins.row_mem, hins.id_eq.trans (targetId_of_new hnew).symm,
      hstores.lastModifiedDate, toColumn_eq_ok.1 hstores.lastModifiedUser⟩, hins.keepsCreation⟩

end Repository

/-! ## Requests that write -/

/-- The service method of a request that writes an account. -/
inductive AccountWrite where
  | saveUser (user : User)
  | saveUserWithRole (user : User) (role : Role)
  | modifyUser (user : User) (shareUserIds : Option String)

/-- The record that is submitted. -/
def AccountWrite.user : AccountWrite → User
  | saveUser user | saveUserWithRole user _ | modifyUser user _ => user

/-- A request: who sends it, when, and the write. -/
structure WriteRequest where
  now : Date
  principal : SecuredUser
  write : AccountWrite

namespace WriteRequest

/-- The write, in the context of the request. -/
def call (env : Env) (q : WriteRequest) : App Unit :=
  match q.write with
  | .saveUser user => do
      let _ ← UserService.saveUser env (requestContext q.now q.principal) user
      return ()
  | .saveUserWithRole user role =>
      UserService.saveUserWithRole env (requestContext q.now q.principal) user role
  | .modifyUser user shareUserIds => do
      let _ ← UserService.modifyUser env user shareUserIds
      return ()

/-- The request runs on the store. -/
def run (env : Env) (q : WriteRequest) (s : Store) : Except Throwable Unit × Store :=
  (q.call env).run s

/-- The store it leaves, whether it returned or threw. -/
def serve (env : Env) (s : Store) (q : WriteRequest) : Option Store := some (q.run env s).2

/-- The request returned. -/
def Returns (env : Env) (s : Store) (q : WriteRequest) : Prop := (q.run env s).1 = .ok ()

/-- The account has the stamps of the request. -/
def Stamps (q : WriteRequest) (a : Account) : Prop :=
  a.lastModifiedUser = q.principal.user.id ∧ a.lastModifiedDate = some q.now

/-- What is asked of a request that returned: the account it wrote has its
stamps, and every account keeps the stamps of its creation. -/
def KeepsStamps (env : Env) (s : Store) (q : WriteRequest) : Prop :=
  q.Returns env s →
    (∃ a ∈ (q.run env s).2.users, a.id = s.users.targetId q.write.user ∧ q.Stamps a) ∧
      s.users.KeepsCreation (q.run env s).2.users

/-- A `modifyUser` stores the stamps all the same: its record carries
them, or carries none and the account has them already. -/
def CarriesStamps (s : Store) (q : WriteRequest) : Prop :=
  match q.write with
  | .modifyUser user _ =>
      ∀ old ∈ s.users, user.id = some old.id →
        User.mergeObject old.lastModifiedDate user.lastModifiedDate = some q.now ∧
          User.mergeObject old.toUser.lastModifiedUser user.lastModifiedUser =
            q.principal.user.id.map fun i => ⟨some i⟩
  | _ => True

/-! ## One request -/

variable {q : WriteRequest}

/-- What an account has that was written from a record with the stamps. -/
theorem stamps_of_column {a : Account} {u : User} (hdate : a.lastModifiedDate = u.lastModifiedDate)
    (huser : u.lastModifiedUser = a.lastModifiedUser.map fun k => ⟨some k⟩)
    (hnow : u.lastModifiedDate = some q.now)
    (hprincipal : u.lastModifiedUser = some ⟨q.principal.user.id⟩) : q.Stamps a := by
  refine ⟨?_, hdate.trans hnow⟩
  rw [hprincipal] at huser
  obtain ⟨k, hk, href⟩ := Option.map_eq_some_iff.1 huser.symm
  rw [hk]
  exact congrArg UserRef.id href

/-- **A save of the stamped record** writes its stamps. -/
theorem stamps_of_save {stamped enc saved written : User} {users : Repository}
    (hstamped : StampedBy q.now q.principal q.write.user stamped) (henc : Encoded env stamped enc)
    (hid : written.id = enc.id) (hdate : written.lastModifiedDate = enc.lastModifiedDate)
    (huser : written.lastModifiedUser = enc.lastModifiedUser)
    (hsave : s.users.save written = .ok (saved, users)) :
    (∃ a ∈ users, a.id = s.users.targetId q.write.user ∧ q.Stamps a) ∧
      s.users.KeepsCreation users := by
  obtain ⟨⟨a, ha, haid, hadate, hauser⟩, hcreation⟩ := exists_written_of_save hsave
  obtain ⟨p, rfl⟩ := henc.exists_password
  have htarget : s.users.targetId written = s.users.targetId q.write.user :=
    targetId_congr (hid.trans hstamped.stamped.id_eq)
  exact ⟨⟨a, ha, haid.trans htarget, stamps_of_column hadate hauser
    (hdate.trans hstamped.lastModifiedDate) (huser.trans hstamped.lastModifiedUser)⟩, hcreation⟩

/-- **What a `modifyUser` stores**: the merged stamps. -/
theorem stamps_iff_of_modifyUser {user : User} {share k : Option String}
    (hrun : (UserService.modifyUser env user share).run s = (.ok k, s')) :
    ∃ old ∈ s.users, user.id = some old.id ∧ s.users.KeepsCreation s'.users ∧
      ∃ a ∈ s'.users, a.id = old.id ∧
        a.lastModifiedDate = User.mergeObject old.lastModifiedDate user.lastModifiedDate ∧
        User.mergeObject old.toUser.lastModifiedUser user.lastModifiedUser =
          a.lastModifiedUser.map fun i => ⟨some i⟩ := by
  obtain ⟨old, enc, c, hid, henc, hstores, hup, -⟩ := run_modifyUser_eq_ok hrun
  obtain ⟨p, rfl⟩ := henc.exists_password
  exact ⟨old, hup.mem_old, hid, hup.keepsCreation, updatedRow old c,
    hup.row_mem, rfl, hstores.lastModifiedDate,
    toColumn_eq_ok.1 hstores.lastModifiedUser⟩

/-- The stamps of an account in the terms of its record. -/
theorem stamps_iff {a : Account} :
    q.Stamps a ↔ a.lastModifiedDate = some q.now ∧
      (a.lastModifiedUser.map fun i => (⟨some i⟩ : UserRef)) =
        q.principal.user.id.map fun i => ⟨some i⟩ := by
  have hinj : Function.Injective (Option.map fun i : Int => (⟨some i⟩ : UserRef)) := by
    refine Option.map_injective fun i j hij => ?_
    exact Option.some.inj (congrArg UserRef.id hij)
  rw [Stamps, hinj.eq_iff, and_comm]

/-- **A request that carries its stamps stores them.** -/
theorem keepsStamps_of_carriesStamps (h : q.CarriesStamps s) : q.KeepsStamps env s := by
  intro hreturns
  obtain ⟨s', hrun⟩ : ∃ s', (q.call env).run s = (.ok (), s') := ⟨_, Prod.ext hreturns rfl⟩
  have hs' : (q.run env s).2 = s' := congrArg Prod.snd hrun
  rw [hs']
  unfold call at hrun
  unfold CarriesStamps at h
  cases hwrite : q.write with
  | saveUser user =>
      rw [hwrite] at hrun
      obtain ⟨created, s₁, hsave, hpure⟩ := Eff.run_bind_eq_ok.1 hrun
      obtain rfl : s₁ = s' := (Prod.mk.inj hpure).2
      obtain ⟨stamped, enc, users, hst, henc, hsaved, rfl⟩ := run_saveUser_eq_ok hsave
      have hst : StampedBy q.now q.principal q.write.user stamped := by
        rw [hwrite]
        exact stampedBy_of_beforeSave hst
      exact hwrite ▸ stamps_of_save hst henc rfl rfl rfl hsaved
  | saveUserWithRole user role =>
      rw [hwrite] at hrun
      obtain ⟨stamped, enc, saved, users, hst, henc, hsaved, rfl⟩ := run_saveUserWithRole_eq_ok hrun
      have hst : StampedBy q.now q.principal q.write.user stamped := by
        rw [hwrite]
        exact stampedBy_of_beforeSave hst
      exact hwrite ▸ stamps_of_save hst henc (by rfl) (by rfl) (by rfl) hsaved
  | modifyUser user share =>
      rw [hwrite] at hrun h
      obtain ⟨k, s₁, hmodify, hpure⟩ := Eff.run_bind_eq_ok.1 hrun
      obtain rfl : s₁ = s' := (Prod.mk.inj hpure).2
      obtain ⟨old, hold, hid, hcreation, a, ha, haid, hdate, huser⟩ :=
        stamps_iff_of_modifyUser hmodify
      obtain ⟨hnow, hprincipal⟩ := h old hold hid
      exact ⟨⟨a, ha, haid.trans (targetId_of_mem hold hid).symm,
        stamps_iff.2 ⟨hdate.trans hnow, huser.symm.trans hprincipal⟩⟩, hcreation⟩

/-- **And one that has stored them carried them.** -/
theorem carriesStamps_of_keepsStamps (hreturns : q.Returns env s) (h : q.KeepsStamps env s) :
    q.CarriesStamps s := by
  obtain ⟨s', hrun⟩ : ∃ s', (q.call env).run s = (.ok (), s') := ⟨_, Prod.ext hreturns rfl⟩
  have hs' : (q.run env s).2 = s' := congrArg Prod.snd hrun
  obtain ⟨⟨a, ha, haid, hstamps⟩, -⟩ := h hreturns
  rw [hs'] at ha
  unfold call at hrun
  unfold CarriesStamps
  cases hwrite : q.write with
  | saveUser user => trivial
  | saveUserWithRole user role => trivial
  | modifyUser user share =>
      rw [hwrite] at hrun haid
      obtain ⟨k, s₁, hmodify, hpure⟩ := Eff.run_bind_eq_ok.1 hrun
      obtain rfl : s₁ = s' := (Prod.mk.inj hpure).2
      obtain ⟨old, hold, hid, -, b, hb, hbid, hdate, huser⟩ := stamps_iff_of_modifyUser hmodify
      -- the account with the stamps is the one that was written
      obtain rfl : a = b :=
        eq_of_id_eq ha hb (haid.trans ((targetId_of_mem hold hid).trans hbid.symm))
      intro old' hold' hid'
      obtain rfl : old' = old :=
        eq_of_id_eq hold' hold (Option.some.inj (hid'.symm.trans hid))
      obtain ⟨hnow, hprincipal⟩ := stamps_iff.1 hstamps
      exact ⟨hdate.symm.trans hnow, huser.trans hprincipal⟩

/-! ## Sequences of requests -/

/-- **The stamps along a sequence of requests** are those of the requests
when each `modifyUser` carries them; and when all requests return, only
then. -/
theorem keepsStamps_along (env : Env) (s : Store) (reqs : List WriteRequest) :
    (Along (serve env) (fun t q => q.CarriesStamps t) s reqs →
        Along (serve env) (fun t q => q.KeepsStamps env t) s reqs) ∧
      (Along (serve env) (fun t q => q.Returns env t) s reqs →
        Along (serve env) (fun t q => q.KeepsStamps env t) s reqs →
          Along (serve env) (fun t q => q.CarriesStamps t) s reqs) := by
  refine ⟨fun h => h.imp fun t q => keepsStamps_of_carriesStamps, fun hreturns h => ?_⟩
  exact (hreturns.and h).imp fun t q hq => carriesStamps_of_keepsStamps hq.1 hq.2

/-- The general user changes its name. -/
def renameRequest : WriteRequest where
  now := 1
  principal := ⟨{ id := some 2, userId := some "user", role := some Role.user }, none⟩
  write := .modifyUser
    { id := some 2, userId := some "user", userName := some "bob", email := some "user@nhn.com" }
    none

/-- **The account it has changed does not tell.** -/
theorem not_keepsStamps_renameRequest :
    ¬Along (serve plaintextEnv) (fun t q => q.KeepsStamps plaintextEnv t) DBInit.plaintextStarted
      [renameRequest] := by
  rintro ⟨hkeeps, -⟩
  obtain ⟨⟨a, ha, hid, -, hdate⟩, -⟩ := hkeeps rfl
  have htarget : DBInit.plaintextStarted.users.targetId renameRequest.write.user = 2 := by rfl
  have hfound := findOne_eq_some_iff.2 ⟨a, ha, hid.trans htarget, rfl⟩
  have hnone : ((renameRequest.run plaintextEnv DBInit.plaintextStarted).2.users.findOne 2).map
      User.lastModifiedDate = some none := by rfl
  rw [hfound, Option.map_some, Option.some.injEq] at hnone
  have hnow : a.toUser.lastModifiedDate = some renameRequest.now := hdate
  rw [hnone] at hnow
  cases hnow

end WriteRequest

end Zooffice
