import Zooffice.User.Model.Init
import Zooffice.User.Service
/-!
# What the first start leaves

Each built-in account is created when its user id is free, with the hash
of its user id as its password, and refers to no other account. On an
empty table the administrator is the first to be created.
-/


namespace Zooffice

open Repository

variable {env : Env} {now : Date}

namespace DBInit

/-- **What `createUser` leaves**: the table as it was, when the user id is
taken, or the account added. -/
theorem createUser_cases {r r' : Repository} {k password userName email : String} {role : Role}
    (h : createUser env now k password role userName email r = .ok r') :
    ((∃ a ∈ r, a.userId = k) ∧ r' = r) ∨
      ∃ e row, env.passwordEncoder.encodePassword password (some k) = .ok e ∧
        r.Inserts row r' ∧ row.userId = k ∧ row.role = role ∧ row.password = some e ∧
        row.createdUser = none ∧ row.lastModifiedUser = none := by
  unfold createUser at h
  split at h
  · next u hfound =>
      cases h
      obtain ⟨a, ha, hk, -⟩ := findOneByUserId_eq_some_iff.1 hfound
      exact Or.inl ⟨⟨a, ha, Option.some.inj hk⟩, rfl⟩
  · obtain ⟨e, henc, h⟩ := except_bind_eq_ok.1 h
    obtain ⟨⟨saved, r₁⟩, hsave, h⟩ := except_bind_eq_ok.1 h
    cases h
    rcases Repository.save_cases hsave with ⟨old, c, hid, -⟩ | ⟨c, -, hstores, hins, -⟩
    · cases hid
    · have hcreated : none = c.createdUser := Except.ok.inj hstores.createdUser
      have hmodified : none = c.lastModifiedUser := Except.ok.inj hstores.lastModifiedUser
      exact Or.inr ⟨e, _, henc, hins, (Option.some.inj hstores.userId).symm,
        (Option.some.inj hstores.role).symm, hstores.password, hcreated.symm, hmodified.symm⟩

/-- What an account has when the first start has created it: the hash of
its user id as its password, and no reference. -/
structure BuiltIn (env : Env) (a : Account) : Prop where
  password : ∃ e, env.passwordEncoder.encodePassword a.userId (some a.userId) = .ok e ∧
    a.password = some e
  createdUser : a.createdUser = none
  lastModifiedUser : a.lastModifiedUser = none

/-- `createUser` adds none but built-in accounts. -/
theorem builtIn_of_createUser {r r' : Repository} {k userName email : String} {role : Role}
    (hall : ∀ a ∈ r, BuiltIn env a) (h : createUser env now k k role userName email r = .ok r') :
    ∀ a ∈ r', BuiltIn env a := by
  rcases createUser_cases h with ⟨-, rfl⟩ |
    ⟨e, row, henc, hins, rfl, -, hpass, hcreated, hmodified⟩
  · exact hall
  · intro a ha
    rcases (hins.mem_iff a).1 ha with ha | rfl
    · exact hall a ha
    · exact ⟨⟨e, henc, hpass⟩, hcreated, hmodified⟩

/-- It keeps every account. -/
theorem mem_of_createUser {r r' : Repository} {k password userName email : String} {role : Role}
    {a : Account} (ha : a ∈ r) (h : createUser env now k password role userName email r = .ok r') :
    a ∈ r' := by
  rcases createUser_cases h with ⟨-, rfl⟩ | ⟨e, row, -, hins, -⟩
  · exact ha
  · exact (hins.mem_iff a).2 (Or.inl ha)

/-- **The first start** creates the four accounts one after the other. -/
theorem creations_of_started {s : Store} (h : started env now = .ok s) :
    ∃ r₁ r₂ r₃,
      createUser env now "admin" "admin" .admin "admin" "admin@nhn.com" Repository.empty = .ok r₁ ∧
      createUser env now "user" "user" .user "user" "user@nhn.com" r₁ = .ok r₂ ∧
      createUser env now "superuser" "superuser" .superUser "superuser" "superuser@nhn.com" r₂ =
        .ok r₃ ∧
      createUser env now "system" "system" .systemUser "system" "system@nhn.com" r₃ =
        .ok s.users := by
  obtain ⟨r, hinit, h⟩ := except_bind_eq_ok.1 h
  cases h
  obtain ⟨r₁, h₁, hinit⟩ := except_bind_eq_ok.1 hinit
  obtain ⟨r₂, h₂, hinit⟩ := except_bind_eq_ok.1 hinit
  obtain ⟨r₃, h₃, h₄⟩ := except_bind_eq_ok.1 hinit
  exact ⟨r₁, r₂, r₃, h₁, h₂, h₃, h₄⟩

/-- **After the first start every account is a built-in one.** -/
theorem builtIn_of_started {s : Store} (h : started env now = .ok s) :
    ∀ a ∈ s.users, BuiltIn env a := by
  obtain ⟨r₁, r₂, r₃, h₁, h₂, h₃, h₄⟩ := creations_of_started h
  have hall₀ : ∀ a ∈ Repository.empty, BuiltIn env a := fun a ha => absurd ha Table.not_mem_empty
  have hall₁ := builtIn_of_createUser hall₀ h₁
  have hall₂ := builtIn_of_createUser hall₁ h₂
  exact builtIn_of_createUser (builtIn_of_createUser hall₂ h₃) h₄

/-- **The administrator is stored** after the first start, under the first
id there is. -/
theorem exists_admin_of_started {s : Store} (h : started env now = .ok s) :
    ∃ a ∈ s.users, a.id = 1 ∧ a.userId = "admin" ∧ a.role = Role.admin := by
  obtain ⟨r₁, r₂, r₃, h₁, h₂, h₃, h₄⟩ := creations_of_started h
  rcases createUser_cases h₁ with ⟨⟨a, ha, -⟩, -⟩ | ⟨e, row, -, hins, huser, hrole, -⟩
  · exact absurd ha Table.not_mem_empty
  · exact ⟨row, mem_of_createUser (mem_of_createUser (mem_of_createUser hins.row_mem h₂) h₃) h₄,
      hins.id_eq, huser, hrole⟩

/-- Nothing is cached then. -/
theorem cache_of_started {s : Store} (h : started env now = .ok s) : s.cache = Cache.empty := by
  obtain ⟨r, -, h⟩ := except_bind_eq_ok.1 h
  cases h
  rfl

/-- The account that the runs on fixed inputs change. -/
theorem userId_of_mem_plaintextStarted {a : Account} (ha : a ∈ plaintextStarted.users)
    (hid : some 2 = some a.id) : some "user" = some a.userId := by
  have hfind : plaintextStarted.users.findOne 2 = some a.toUser :=
    findOne_eq_some_iff.2 ⟨a, ha, (Option.some.inj hid).symm, rfl⟩
  have huser : some (some "user") = some (some a.userId) :=
    congrArg (Option.map User.userId) hfind
  exact Option.some.inj huser

end DBInit

end Zooffice
