import Zooffice.User.Model.Controller
/-!
# The list of the accounts

The page `/user/` has a row with a checkbox for each account, and a
checkbox for all of them. `DataTables` has the rows of one page of the list
in the document at a time; which ones these are is left to it. The accounts
whose boxes are checked are deleted by one request, which names them.
-/


namespace Zooffice

/-- A row: its account, whether it is in the document, whether its box
answers to clicks, and whether it is checked. -/
structure CheckRow where
  userId : String
  inDocument : Bool
  handled : Bool
  checked : Bool
  deriving DecidableEq, Repr

/-- The box of the administrator is disabled. -/
def CheckRow.disabled (row : CheckRow) : Bool := row.userId = "admin"

/-- The box for all rows, and the rows. -/
structure UserListPage where
  header : Bool
  rows : List CheckRow
  deriving DecidableEq, Repr

/-- What the user does on the page. -/
inductive ListAction where
  | clickRow (n : Nat)
  | clickHeader
  /-- Another page of the list is turned to, with the rows of these numbers. -/
  | turn (inDocument : List Nat)
  deriving DecidableEq, Repr

namespace UserListPage

/-- The page when it is ready, with the first rows in the document. The
handler of `enableChkboxSelectAll` is added to their boxes only. -/
def ready (rows : List (String × Bool)) : UserListPage where
  header := false
  rows := rows.map fun row => ⟨row.1, row.2, row.2, false⟩

/-- Boxes `td > input[disabled!='disabled']`. -/
def enabledCount (rows : List CheckRow) : Nat :=
  rows.countP fun row => row.inDocument && !row.disabled

/-- Boxes `td > input:checked`. -/
def checkedCount (rows : List CheckRow) : Nat :=
  rows.countP fun row => row.inDocument && row.checked

/-- A click on the box of a row. -/
def clickRow (page : UserListPage) (n : Nat) : Option UserListPage :=
  match page.rows[n]? with
  | none => none
  | some row =>
      if row.inDocument = false ∨ row.disabled = true then none
      else
        let rows := page.rows.set n { row with checked := !row.checked }
        some ⟨if row.handled then enabledCount rows == checkedCount rows else page.header, rows⟩

/-- A click on the box for all rows. -/
def clickHeader (page : UserListPage) : UserListPage :=
  if page.header then
    ⟨false, page.rows.map fun row => if row.inDocument then { row with checked := false } else row⟩
  else
    ⟨true, page.rows.map fun row =>
      if row.inDocument && !row.disabled then { row with checked := true } else row⟩

/-- Another page of the list. -/
def turn (page : UserListPage) (inDocument : List Nat) : UserListPage :=
  ⟨page.header, page.rows.mapIdx fun n row => { row with inDocument := decide (n ∈ inDocument) }⟩

/-- One step. -/
def step (page : UserListPage) (action : ListAction) : Option UserListPage :=
  match action with
  | .clickRow n => page.clickRow n
  | .clickHeader => some page.clickHeader
  | .turn inDocument => some (page.turn inDocument)

/-- `checkedUserId`: the boxes `input[id='user_info_check']:checked`. -/
def checkedUserIds (page : UserListPage) : List String :=
  (page.rows.filter fun row => row.inDocument && row.checked).map CheckRow.userId

/-- `deleteCheckedUsers`, when the user confirms: the parameter `userIds` of
the request, if there is one. -/
def deleteCheckedUsers (page : UserListPage) : Option Text :=
  let checkedUserId := page.checkedUserIds
  if checkedUserId.length = 0 then none
  else some ([','].intercalate (checkedUserId.map String.toList))

end UserListPage

end Zooffice
