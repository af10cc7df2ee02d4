import Zooffice.User.Init
import Zooffice.User.Model.Search
/-!
# What the search by keyword finds

The keyword goes into the pattern as it is, so a `%` or a `_` of the
keyword does not stand for itself. A keyword without the two signs finds
the accounts that contain it; for any other there is an account that is
found and does not contain it.
-/


namespace Zooffice

open UserSpecification

variable {env : Env} {keyword : String}

/-- The text contains the keyword, whatever the case of either. -/
def ContainsIgnoringCase (toLowerCase : String → String) (keyword text : String) : Prop :=
  (toLowerCase keyword).toList <:+: (toLowerCase text).toList

/-- The user name, if there is one, or the user id contains the keyword. -/
def NamedLike (env : Env) (keyword : String) (a : Account) : Prop :=
  (∃ name, a.userName = some name ∧ ContainsIgnoringCase env.toLowerCase keyword name) ∨
    ContainsIgnoringCase env.toLowerCase keyword a.userId

/-- The search returns exactly the accounts of which the user name or the
user id contains the keyword. -/
def FindsContaining (env : Env) (r : Repository) (keyword : String) : Prop :=
  ∀ u, u ∈ UserService.getUserListByKeyWord env r keyword ↔
    ∃ a ∈ r, NamedLike env keyword a ∧ a.toUser = u

/-! ## The pattern -/

theorem toList_pattern (hlower : LowersCase env.toLowerCase) :
    (pattern env.toLowerCase keyword).toList =
      '%' :: (env.toLowerCase keyword).toList ++ ['%'] := by
  rw [pattern, hlower.percent, String.toList_append, String.toList_append]
  rfl

/-- Lower-casing leaves the two signs where they are. -/
theorem plain_toLowerCase_iff (hlower : LowersCase env.toLowerCase) :
    Plain (env.toLowerCase keyword).toList ↔ Plain keyword.toList :=
  and_congr (not_congr (hlower.mem_iff keyword '%' (Or.inl rfl)))
    (not_congr (hlower.mem_iff keyword '_' (Or.inr rfl)))

/-- **A plain keyword** is looked for as it is. -/
theorem nameLike_iff_of_plain (hlower : LowersCase env.toLowerCase)
    (hplain : Plain keyword.toList) (a : Account) :
    nameLike env.toLowerCase keyword a = true ↔ NamedLike env keyword a := by
  have hcolumn : ∀ value, lowerLike env.toLowerCase (some value) (pattern env.toLowerCase keyword) =
      true ↔ ContainsIgnoringCase env.toLowerCase keyword value := by
    intro value
    rw [lowerLike, toList_pattern hlower]
    exact like_percent_plain_percent ((plain_toLowerCase_iff hlower).2 hplain)
  rw [nameLike, Bool.or_eq_true, hcolumn, NamedLike]
  refine or_congr_left ?_
  cases hname : a.userName with
  | none => exact iff_of_false Bool.false_ne_true fun ⟨_, hsome, _⟩ => nomatch hsome
  | some name =>
      rw [hcolumn]
      exact ⟨fun h => ⟨name, rfl, h⟩, fun ⟨_, hsome, h⟩ => Option.some.inj hsome ▸ h⟩

theorem mem_getUserListByKeyWord {r : Repository} {u : User} :
    u ∈ UserService.getUserListByKeyWord env r keyword ↔
      ∃ a ∈ r, nameLike env.toLowerCase keyword a = true ∧ a.toUser = u := by
  rw [UserService.getUserListByKeyWord, Repository.findAll, List.mem_map]
  simp only [List.mem_filter, and_assoc]
  rfl

/-! ## The account that is found for a sign -/

/-- There is a table with a nameless account of any user id. -/
theorem exists_nameless (userId : String) :
    ∃ r : Repository, ∃ a ∈ r, a.userId = userId ∧ a.userName = none := by
  obtain ⟨u', r, hsave⟩ : ∃ u' r, Repository.empty.save
      { userId := some userId, role := some Role.user } = .ok (u', r) := ⟨_, _, rfl⟩
  rcases Repository.save_cases hsave with ⟨old, c, hid, -⟩ | ⟨c, -, hstores, hins, -⟩
  · cases hid
  · exact ⟨r, _, hins.row_mem, (Option.some.inj hstores.userId).symm, hstores.userName⟩

/-- The user id that the pattern of a keyword fits, with a digit for each
of the two signs. -/
def fitting (env : Env) (keyword : String) : String :=
  String.ofList (fillIn '0' (env.toLowerCase keyword).toList)

theorem toLowerCase_fitting (hlower : LowersCase env.toLowerCase) :
    env.toLowerCase (fitting env keyword) = fitting env keyword := by
  refine hlower.lowered _ keyword fun c hc => ?_
  rw [fitting, String.toList_ofList] at hc
  obtain ⟨p, hp, rfl⟩ := List.mem_map.1 hc
  split
  · exact Or.inl rfl
  · exact Or.inr hp

end Zooffice
