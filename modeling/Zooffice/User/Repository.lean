import Zooffice.Common.Effect
import Zooffice.User.Model.Repository
/-!
# What the repository operations do

`save_cases` says once what a save that succeeds has done: it updated a
stored account in place (`Updates`), or it inserted one (`Inserts`).
Everything the services and the logins do to the table is read off it.
-/


namespace Zooffice

namespace Repository

variable {r r' : Repository} {u u' : User}

theorem mem_def {a : Account} : a ∈ r ↔ a ∈ r.table := Iff.rfl

/-- **Ids are unique.** -/
theorem eq_of_id_eq {a b : Account} (ha : a ∈ r) (hb : b ∈ r) (h : a.id = b.id) : a = b :=
  r.table.eq_of_pk_eq ha hb h

/-- Accounts that share the user id are one account. -/
theorem eq_of_userId_eq {a b : Account} (ha : a ∈ r) (hb : b ∈ r) (h : a.userId = b.userId) :
    a = b :=
  r.table.eq_of_key_eq ha hb h

theorem findOne_eq_some_iff {i : Int} :
    r.findOne i = some u ↔ ∃ a ∈ r, a.id = i ∧ a.toUser = u := by
  simp only [findOne, Option.map_eq_some_iff, Table.find?_eq_some_iff, and_assoc, mem_def]

theorem findOneByUserId_eq_some_iff {k : Option String} :
    r.findOneByUserId k = some u ↔ ∃ a ∈ r, some a.userId = k ∧ a.toUser = u := by
  cases k with
  | none => simp [findOneByUserId]
  | some k =>
      simp only [findOneByUserId, Option.bind_some, Option.map_eq_some_iff,
        Table.findKey?_eq_some_iff, and_assoc, mem_def, Option.some.injEq]

/-- A stored account is found by its user id. -/
theorem findOneByUserId_of_mem {a : Account} (ha : a ∈ r) :
    r.findOneByUserId (some a.userId) = some a.toUser :=
  findOneByUserId_eq_some_iff.2 ⟨a, ha, rfl, rfl⟩

/-- The record found under a user id has that user id. -/
theorem userId_of_findOneByUserId {k : Option String} (h : r.findOneByUserId k = some u) :
    u.userId = k := by
  obtain ⟨a, -, hk, rfl⟩ := findOneByUserId_eq_some_iff.1 h
  exact hk

/-! ## The columns of a record -/

/-- The columns hold the properties of the record. -/
structure Stores (u : User) (c : Columns) : Prop where
  userId : u.userId = some c.userId
  role : u.role = some c.role
  createdUser : toColumn u.createdUser = .ok c.createdUser
  lastModifiedUser : toColumn u.lastModifiedUser = .ok c.lastModifiedUser
  createdDate : c.createdDate = u.createdDate
  lastModifiedDate : c.lastModifiedDate = u.lastModifiedDate
  userName : c.userName = u.userName
  password : c.password = u.password
  enabled : c.enabled = u.enabled
  email : c.email = u.email
  description : c.description = u.description
  timeZone : c.timeZone = u.timeZone
  userLanguage : c.userLanguage = u.userLanguage
  mobilePhone : c.mobilePhone = u.mobilePhone
  external : c.external = u.external
  authProviderClass : c.authProviderClass = u.authProviderClass

/-- The record was stored, so its columns hold it. -/
theorem stores_of_toColumns {c : Columns} (h : toColumns u = .ok c) : Stores u c := by
  unfold toColumns at h
  split at h
  · next userId role hu hr =>
      cases hcu : toColumn u.createdUser with
      | error e => rw [hcu] at h; cases h
      | ok cu =>
          cases hlu : toColumn u.lastModifiedUser with
          | error e => rw [hcu, hlu] at h; cases h
          | ok lu =>
              rw [hcu, hlu] at h
              cases h
              exact ⟨hu, hr, hcu, hlu, rfl, rfl, rfl, rfl, rfl, rfl, rfl, rfl, rfl, rfl, rfl, rfl⟩
  · cases h

/-- A row that is stored again, as it was loaded, is the same row. -/
theorem updatedRow_of_stores_toUser {a : Account} {c : Columns} (h : Stores a.toUser c) :
    updatedRow a c = a := by
  have hlast : c.lastModifiedUser = a.lastModifiedUser := by
    have hcol := h.lastModifiedUser
    cases hl : a.lastModifiedUser with
    | none =>
        simp only [Account.toUser, hl, Option.map_none, toColumn, Except.ok.injEq] at hcol
        exact hcol.symm
    | some i =>
        simp only [Account.toUser, hl, Option.map_some, toColumn, Except.ok.injEq] at hcol
        exact hcol.symm
  have huser : c.userId = a.userId := (Option.some.inj h.userId).symm
  have hrole : c.role = a.role := (Option.some.inj h.role).symm
  obtain ⟨⟨_, _, _, _, _, _, _, _, _, _, _, _, _, _, _, _⟩, _⟩ := a
  simp only [updatedRow, h.lastModifiedDate, h.userName, h.password, h.enabled, h.email,
    h.description, h.timeZone, h.userLanguage, h.mobilePhone, h.external, h.authProviderClass,
    hlast, huser, hrole, Account.toUser]

/-! ## What a save leaves -/

/-- `r'` is `r` with the account `old` changed to `row`. -/
structure Updates (r : Repository) (old row : Account) (r' : Repository) : Prop where
  mem_old : old ∈ r
  id_eq : row.id = old.id
  mem_iff : ∀ x, x ∈ r' ↔ x = row ∨ (x ∈ r ∧ x.id ≠ old.id)
  /-- No other account has the user id of the row. -/
  userId_free : ∀ x ∈ r, x.userId = row.userId → x.id = old.id

/-- `r'` is `r` with the account `row` added. -/
structure Inserts (r : Repository) (row : Account) (r' : Repository) : Prop where
  id_eq : row.id = r.sequence
  mem_iff : ∀ x, x ∈ r' ↔ x ∈ r ∨ x = row
  userId_free : ∀ x ∈ r, x.userId ≠ row.userId

theorem Updates.row_mem {old row : Account} (h : r.Updates old row r') : row ∈ r' :=
  (h.mem_iff row).2 (Or.inl rfl)

theorem Inserts.row_mem {row : Account} (h : r.Inserts row r') : row ∈ r' :=
  (h.mem_iff row).2 (Or.inr rfl)

/-- An update that writes back what is stored changes nothing. -/
theorem Updates.mem_iff_of_same {old : Account} (h : r.Updates old old r') (x : Account) :
    x ∈ r' ↔ x ∈ r := by
  rw [h.mem_iff x]
  constructor
  · rintro (rfl | ⟨hx, -⟩)
    · exact h.mem_old
    · exact hx
  · intro hx
    by_cases hid : x.id = old.id
    · exact Or.inl (eq_of_id_eq hx h.mem_old hid)
    · exact Or.inr ⟨hx, hid⟩

theorem updates_of_updateRow {old : Account} {hold : old ∈ r} {c : Columns}
    (h : r.updateRow old hold c = .ok r') : r.Updates old (updatedRow old c) r' := by
  unfold updateRow at h
  split at h
  · cases h
  · next table ht =>
      cases h
      exact ⟨hold, rfl, fun x => Table.mem_of_replace?_eq_some ht hold rfl x,
        fun x hx hk => Table.key_of_replace?_eq_some ht hx hk⟩

theorem inserts_of_insertRow {c : Columns} (h : r.insertRow c = .ok r') :
    r.Inserts { c with id := r.sequence } r' := by
  unfold insertRow at h
  split at h
  · cases h
  · next table ht =>
      cases h
      exact ⟨rfl, (Table.insert?_eq_some ht).2, fun x hx => ((Table.insert?_eq_some ht).1 x hx).2⟩

/-- **What a save does.** It updates the stored account with the id of
the record, or, when there is none, inserts the record as a new account. -/
theorem save_cases (h : r.save u = .ok (u', r')) :
    (∃ old c, u.id = some old.id ∧ Stores u c ∧ r.Updates old (updatedRow old c) r' ∧
        u' = { u with id := some old.id }) ∨
      (∃ c, (∀ a ∈ r, u.id ≠ some a.id) ∧ Stores u c ∧
        r.Inserts { c with id := r.sequence } r' ∧ u' = { u with id := some r.sequence }) := by
  unfold save at h
  obtain ⟨c, hc, h⟩ := except_bind_eq_ok.1 h
  split at h
  · next old hfind =>
      obtain ⟨i, hi, hold⟩ := Option.bind_eq_some_iff.1 hfind
      have hid : old.id = i := (Table.find?_eq_some_iff.1 hold).2
      obtain ⟨r₁, hu, h⟩ := except_bind_eq_ok.1 h
      cases h
      exact Or.inl ⟨old, c, hi.trans (congrArg some hid.symm), stores_of_toColumns hc,
        updates_of_updateRow hu, rfl⟩
  · next hfind =>
      obtain ⟨r₁, hi, h⟩ := except_bind_eq_ok.1 h
      cases h
      refine Or.inr ⟨c, fun a ha hua => ?_, stores_of_toColumns hc, inserts_of_insertRow hi, rfl⟩
      rw [hua, Option.bind_some] at hfind
      exact Table.find?_eq_none_iff.1 hfind a ha rfl

/-- The account that a save writes is stored under the user id of the
record. -/
theorem exists_row_of_save (h : r.save u = .ok (u', r')) :
    ∃ row ∈ r', u.userId = some row.userId := by
  rcases save_cases h with ⟨old, c, -, hstores, hup, -⟩ | ⟨c, -, hstores, hins, -⟩
  · exact ⟨_, hup.row_mem, hstores.userId⟩
  · exact ⟨_, hins.row_mem, hstores.userId⟩

/-- **Saving an account as it is stored** changes no row. -/
theorem mem_iff_of_save_toUser {a : Account} (ha : a ∈ r) (h : r.save a.toUser = .ok (u', r'))
    (x : Account) : x ∈ r' ↔ x ∈ r := by
  rcases save_cases h with ⟨old, c, hid, hstores, hup, -⟩ | ⟨c, hnew, -⟩
  · obtain rfl : old = a := eq_of_id_eq hup.mem_old ha (Option.some.inj hid).symm
    rw [updatedRow_of_stores_toUser hstores] at hup
    exact hup.mem_iff_of_same x
  · exact absurd rfl (hnew a ha)

/-- A row that is loaded has the columns of a row. -/
theorem exists_toColumns_toUser (b : Account) : ∃ c, toColumns b.toUser = .ok c := by
  have hcolumn : ∀ i : Option Int, toColumn (i.map fun j => ⟨some j⟩) = .ok i := by
    intro i
    cases i <;> rfl
  unfold toColumns
  simp only [Account.toUser, hcolumn]
  exact ⟨_, rfl⟩

/-- An update with columns whose user id no other row has goes through. -/
theorem exists_updateRow {a : Account} {c : Columns} (ha : a ∈ r)
    (hfree : ∀ x ∈ r, x.userId = c.userId → x.id = a.id) :
    ∃ r', r.updateRow a ha c = .ok r' := by
  obtain ⟨table, htable⟩ := Table.exists_replace? (t := r.table) (r := updatedRow a c) hfree
  unfold updateRow
  split
  · next hnone =>
      rw [htable] at hnone
      cases hnone
  · exact ⟨_, rfl⟩

/-- A stored account can be saved with such columns. -/
theorem exists_save_update {old : Account} {c : Columns} (hold : old ∈ r)
    (hc : toColumns u = .ok c) (hid : u.id = some old.id)
    (hfree : ∀ a ∈ r, a.userId = c.userId → a.id = old.id) : ∃ u' r', r.save u = .ok (u', r') := by
  rcases hsave : r.save u with e | ⟨u', r'⟩
  · unfold save at hsave
    rw [hc] at hsave
    rcases except_bind_eq_error.1 hsave with h | ⟨c', hc', h⟩
    · cases h
    obtain rfl : c = c' := Except.ok.inj hc'
    split at h
    · next old' hfound =>
        have hmem : u.id.bind r.table.find? = some old := by
          rw [hid]
          exact Table.find?_eq_some_iff.2 ⟨hold, rfl⟩
        obtain rfl : old' = old := Option.some.inj (hfound.symm.trans hmem)
        obtain ⟨r', hr'⟩ := exists_updateRow hold hfree
        rw [hr'] at h
        cases h
    · next hnone =>
        rw [hid] at hnone
        exact absurd (hnone.symm.trans (Table.find?_eq_some_iff.2 ⟨hold, rfl⟩)) nofun
  · exact ⟨u', r', rfl⟩

/-- **An account can be saved again** with other columns, under its user
id. -/
theorem exists_save_toUser {a b : Account} (ha : a ∈ r) (hid : b.id = a.id)
    (huser : b.userId = a.userId) : ∃ r', r.save b.toUser = .ok (b.toUser, r') := by
  obtain ⟨c, hc⟩ := exists_toColumns_toUser b
  have hrow : c.userId = a.userId :=
    (Option.some.inj (stores_of_toColumns hc).userId).symm.trans huser
  obtain ⟨saved, r', hsave⟩ := exists_save_update ha hc (congrArg some hid) fun x hx hkey =>
    congrArg Account.id (eq_of_userId_eq hx ha (hkey.trans hrow))
  rcases save_cases hsave with ⟨old, -, hold, -, -, rfl⟩ | ⟨-, hnew, -⟩
  · refine ⟨r', ?_⟩
    rw [hsave, ← hold]
  · exact absurd (congrArg some hid) (hnew a ha)

/-- A row with a user id of its own can be added. -/
theorem exists_insertRow {c : Columns} (hfree : ∀ a ∈ r, a.userId ≠ c.userId) :
    ∃ r', r.insertRow c = .ok r' := by
  have hrow : ∀ x ∈ r.table, x.id ≠ r.sequence ∧ x.userId ≠ c.userId := fun x hx =>
    ⟨Int.ne_of_lt (r.id_lt x hx), hfree x hx⟩
  obtain ⟨table, htable⟩ :=
    Table.exists_insert? (t := r.table) (r := { c with id := r.sequence }) hrow
  unfold insertRow
  split
  · next hnone =>
      rw [htable] at hnone
      cases hnone
  · exact ⟨_, rfl⟩

/-- **A record with a user id of its own can be saved** as a new account,
when it has the columns of one. -/
theorem exists_save_new {c : Columns} (hc : toColumns u = .ok c) (hnew : ∀ a ∈ r, u.id ≠ some a.id)
    (hfree : ∀ a ∈ r, a.userId ≠ c.userId) : ∃ u' r', r.save u = .ok (u', r') := by
  obtain ⟨r₁, hinsert⟩ := exists_insertRow hfree
  rcases hsave : r.save u with e | ⟨u', r'⟩
  · unfold save at hsave
    rw [hc] at hsave
    rcases except_bind_eq_error.1 hsave with h | ⟨c', hc', h⟩
    · cases h
    obtain rfl : c = c' := Except.ok.inj hc'
    split at h
    · next old hold =>
        obtain ⟨i, hi, hfind⟩ := Option.bind_eq_some_iff.1 hold
        obtain ⟨hmem, rfl⟩ := Table.find?_eq_some_iff.1 hfind
        exact absurd hi (hnew old hmem)
    · rw [hinsert] at h
      cases h
  · exact ⟨u', r', rfl⟩

/-- **When a record can be saved**: it has the columns of an account, and
no other account has its user id. -/
theorem save_returns_iff :
    (∃ u' r', r.save u = .ok (u', r')) ↔
      ∃ c, toColumns u = .ok c ∧ ∀ a ∈ r, a.userId = c.userId → u.id = some a.id := by
  constructor
  · rintro ⟨u', r', hsave⟩
    obtain ⟨c, hc, -⟩ := except_bind_eq_ok.1 hsave
    refine ⟨c, hc, fun a ha hkey => ?_⟩
    have hc' := (stores_of_toColumns hc).userId
    rcases save_cases hsave with ⟨old, c₁, hold, hstores, hup, -⟩ | ⟨c₁, -, hstores, hins, -⟩
    · have hrow : c₁.userId = c.userId := Option.some.inj (hstores.userId.symm.trans hc')
      rw [hold, hup.userId_free a ha (hkey.trans hrow.symm)]
    · have hrow : c₁.userId = c.userId := Option.some.inj (hstores.userId.symm.trans hc')
      exact absurd (hkey.trans hrow.symm) (hins.userId_free a ha)
  · rintro ⟨c, hc, hfree⟩
    by_cases hnew : ∀ a ∈ r, u.id ≠ some a.id
    · exact exists_save_new hc hnew fun a ha hkey => hnew a ha (hfree a ha hkey)
    · push Not at hnew
      obtain ⟨old, hold, hid⟩ := hnew
      exact exists_save_update hold hc hid fun a ha hkey =>
        Option.some.inj ((hfree a ha hkey).symm.trans hid)

/-! ## Lookups after a save -/

/-- What is found under a user id depends on the accounts with that user id
alone. -/
theorem findOneByUserId_congr {k : Option String}
    (h : ∀ x : Account, some x.userId = k → (x ∈ r' ↔ x ∈ r)) :
    r'.findOneByUserId k = r.findOneByUserId k := by
  refine Option.ext fun v => ?_
  rw [findOneByUserId_eq_some_iff, findOneByUserId_eq_some_iff]
  exact exists_congr fun x => and_congr_left fun hx => h x hx.1

/-- An update changes what the old and the new user id find, and nothing
else. -/
theorem Updates.findOneByUserId {old row : Account} (h : r.Updates old row r')
    {k : Option String} (hk : k ≠ some row.userId) (hk' : k ≠ some old.userId) :
    r'.findOneByUserId k = r.findOneByUserId k := by
  refine findOneByUserId_congr fun x hx => ?_
  rw [h.mem_iff x]
  constructor
  · rintro (rfl | ⟨hmem, -⟩)
    · exact absurd hx.symm hk
    · exact hmem
  · intro hmem
    refine Or.inr ⟨hmem, fun hid => hk' ?_⟩
    rw [← hx, eq_of_id_eq hmem h.mem_old hid]

/-- An insert changes what the new user id finds, and nothing else. -/
theorem Inserts.findOneByUserId {row : Account} (h : r.Inserts row r') {k : Option String}
    (hk : k ≠ some row.userId) : r'.findOneByUserId k = r.findOneByUserId k := by
  refine findOneByUserId_congr fun x hx => ?_
  rw [h.mem_iff x]
  constructor
  · rintro (hmem | rfl)
    · exact hmem
    · exact absurd hx.symm hk
  · exact Or.inl

/-! ## Deletion -/

/-- **Deleting what is found under a user id** takes out its account; when
there is none the deletion throws. -/
theorem delete_found_eq_ok {k : String} (h : r.delete (r.findOneByUserId (some k)) = .ok r') :
    (∃ a ∈ r, a.userId = k) ∧ ∀ x, x ∈ r' ↔ x ∈ r ∧ x.userId ≠ k := by
  cases hfind : r.findOneByUserId (some k) with
  | none =>
      rw [hfind] at h
      cases h
  | some u =>
      obtain ⟨a, ha, hk, rfl⟩ := findOneByUserId_eq_some_iff.1 hfind
      have hak : a.userId = k := Option.some.inj hk
      rw [hfind] at h
      cases h
      refine ⟨⟨a, ha, hak⟩, fun x => ?_⟩
      -- the row that is removed is the only one with the user id
      refine Table.mem_remove.trans (and_congr_right fun hx => not_congr ?_)
      exact ⟨fun hid => (eq_of_id_eq hx ha hid) ▸ hak,
        fun hxk => congrArg Account.id (eq_of_userId_eq hx ha (hxk.trans hak.symm))⟩

/-- `r'` is `r` without the accounts of these user ids, each of which was
stored and named once. -/
structure Deletes (r : Repository) (userIds : List String) (r' : Repository) : Prop where
  nodup : userIds.Nodup
  stored : ∀ k ∈ userIds, ∃ a ∈ r, a.userId = k
  mem_iff : ∀ x, x ∈ r' ↔ x ∈ r ∧ x.userId ∉ userIds

end Repository

end Zooffice
