import Zooffice.Common.Table
import Zooffice.User.Model.User
import Zooffice.Java.Throwable
/-!
# The user repository

The table `NUSER` and the operations of `UserRepository` on it, as
Spring Data and Hibernate perform them. `id` is the identity column,
`user_id` is unique, and both constraints are part of the type. The
columns `created_date` and `created_user` are not updatable. No foreign
key is declared on the two user columns. That a text fits the length of its
column is taken for granted.
-/


namespace Zooffice

/-- The stored accounts and the next value of the identity column. -/
structure Repository where
  table : Table Account.id fun a => a.userId
  sequence : Int
  id_pos : ∀ a ∈ table, 0 < a.id
  id_lt : ∀ a ∈ table, a.id < sequence
  sequence_pos : 0 < sequence

namespace Repository

/-- An account is stored. -/
instance : Membership Account Repository := ⟨fun r a => a ∈ r.table⟩

/-- The empty table. -/
def empty : Repository where
  table := Table.empty
  sequence := 1
  id_pos := fun _ h => absurd h Table.not_mem_empty
  id_lt := fun _ h => absurd h Table.not_mem_empty
  sequence_pos := by decide

/-- `CrudRepository.count`. -/
def count (r : Repository) : Nat := r.table.rows.length

/-- `CrudRepository.findOne`. -/
def findOne (r : Repository) (id : Int) : Option User := (r.table.find? id).map Account.toUser

/-- `UserRepository.findOneByUserId`: no account has a null user id. -/
def findOneByUserId (r : Repository) (userId : Option String) : Option User :=
  userId.bind fun k => (r.table.findKey? k).map Account.toUser

/-- The column a reference is stored in: the id of the referenced record,
which has to have one. -/
def toColumn (ref : Option UserRef) : Except Throwable (Option Int) :=
  match ref with
  | none => .ok none
  | some ⟨none⟩ => .error ⟨.transientObject, none⟩
  | some ⟨some i⟩ => .ok (some i)

/-- The columns a record is stored in. -/
def toColumns (u : User) : Except Throwable Columns :=
  match u.userId, u.role with
  | some userId, some role => do
      let createdUser ← toColumn u.createdUser
      let lastModifiedUser ← toColumn u.lastModifiedUser
      return {
        createdUser, lastModifiedUser, userId, role
        createdDate := u.createdDate
        lastModifiedDate := u.lastModifiedDate
        userName := u.userName
        password := u.password
        enabled := u.enabled
        email := u.email
        description := u.description
        timeZone := u.timeZone
        userLanguage := u.userLanguage
        mobilePhone := u.mobilePhone
        external := u.external
        authProviderClass := u.authProviderClass }
  | _, _ => .error ⟨.dataIntegrityViolation, none⟩

/-- The table with the row of the next identity value added. -/
def insertRow (r : Repository) (c : Columns) : Except Throwable Repository :=
  match h : r.table.insert? { c with id := r.sequence } with
  | none => .error ⟨.dataIntegrityViolation, none⟩
  | some table =>
      .ok
        { table
          sequence := r.sequence + 1
          id_pos := fun a ha => by
            rcases ((Table.insert?_eq_some h).2 a).1 ha with ha | rfl
            · exact r.id_pos a ha
            · exact r.sequence_pos
          id_lt := fun a ha => by
            rcases ((Table.insert?_eq_some h).2 a).1 ha with ha | rfl
            · exact Int.lt_trans (r.id_lt a ha) (Int.lt_succ _)
            · exact Int.lt_succ _
          sequence_pos := Int.lt_trans r.sequence_pos (Int.lt_succ _) }

/-- The row an update of `old` writes: the columns that are not updatable
stay. -/
def updatedRow (old : Account) (c : Columns) : Account :=
  { c with
    id := old.id
    createdDate := old.createdDate
    createdUser := old.createdUser }

/-- The table with the row `old` updated. -/
def updateRow (r : Repository) (old : Account) (hold : old ∈ r) (c : Columns) :
    Except Throwable Repository :=
  match h : r.table.replace? (updatedRow old c) with
  | none => .error ⟨.dataIntegrityViolation, none⟩
  | some table =>
      .ok
        { table
          sequence := r.sequence
          id_pos := fun a ha => by
            rcases (Table.mem_of_replace?_eq_some h hold rfl a).1 ha with rfl | ⟨ha, -⟩
            · exact r.id_pos old hold
            · exact r.id_pos a ha
          id_lt := fun a ha => by
            rcases (Table.mem_of_replace?_eq_some h hold rfl a).1 ha with rfl | ⟨ha, -⟩
            · exact r.id_lt old hold
            · exact r.id_lt a ha
          sequence_pos := r.sequence_pos }

/-- A row found by the id of a record is stored. -/
theorem mem_of_find? {r : Repository} {id : Option Int} {old : Account}
    (h : id.bind r.table.find? = some old) : old ∈ r := by
  obtain ⟨i, -, hi⟩ := Option.bind_eq_some_iff.1 h
  exact (Table.find?_eq_some_iff.1 hi).1

/-- `CrudRepository.save`: a record whose id is that of a stored account
updates the account, any other record is inserted under a new id. -/
def save (r : Repository) (u : User) : Except Throwable (User × Repository) := do
  let c ← toColumns u
  match h : u.id.bind r.table.find? with
  | some old =>
      let r' ← r.updateRow old (mem_of_find? h) c
      return ({ u with id := some old.id }, r')
  | none =>
      let r' ← r.insertRow c
      return ({ u with id := some r.sequence }, r')

/-- `CrudRepository.delete`: the stored row with the id of the record. -/
def delete (r : Repository) (u : Option User) : Except Throwable Repository :=
  match u with
  | none => .error ⟨.illegalArgument, some "The entity must not be null!"⟩
  | some u =>
      match u.id with
      | none => .ok r
      | some i =>
          .ok
            { table := r.table.remove i
              sequence := r.sequence
              id_pos := fun a ha => r.id_pos a (Table.mem_remove.1 ha).1
              id_lt := fun a ha => r.id_lt a (Table.mem_remove.1 ha).1
              sequence_pos := r.sequence_pos }

end Repository

end Zooffice
