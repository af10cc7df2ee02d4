import Zooffice.Common.Like
import Zooffice.User.Model.Service
/-!
# The search for accounts by keyword

`getUserListByKeyWord` asks the database for the accounts of which the
user name or the user id is like a pattern around the keyword. The
database's `lower` is that of the code.
-/


namespace Zooffice

namespace UserSpecification

/-- The pattern of `nameLike`. -/
def pattern (toLowerCase : String → String) (query : String) : String :=
  toLowerCase ("%" ++ query ++ "%")

/-- `cb.like(cb.lower(column), pattern)`: a null column is like nothing. -/
def lowerLike (toLowerCase : String → String) (column : Option String) (pattern : String) :
    Bool :=
  match column with
  | none => false
  | some value => like pattern.toList (toLowerCase value).toList

/-- `nameLike`. -/
def nameLike (toLowerCase : String → String) (query : String) (a : Account) : Bool :=
  lowerLike toLowerCase a.userName (pattern toLowerCase query) ||
    lowerLike toLowerCase (some a.userId) (pattern toLowerCase query)

end UserSpecification

/-- `UserRepository.findAll` of a specification. -/
def Repository.findAll (r : Repository) (spec : Account → Bool) : List User :=
  (r.table.rows.filter spec).map Account.toUser

/-- `getUserListByKeyWord`. -/
def UserService.getUserListByKeyWord (env : Env) (r : Repository) (name : String) : List User :=
  r.findAll (UserSpecification.nameLike env.toLowerCase name)

end Zooffice
