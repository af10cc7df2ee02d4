import Mathlib.Data.List.Range
import Mathlib.Data.Int.Notation
/-!
# The links to the pages of a list

The `paging` macro of `paging.ftl`. A parameter of a macro is a local
variable. `<#assign>` writes a variable of the namespace, and that is not
seen where a local one has its name.
-/


namespace Zooffice

namespace Paging

/-- The variables of the macro. -/
inductive Variable where
  | totalCount
  | pageNo
  | countPerPage
  | displayPageCount
  | totalPage
  | phraseIndex
  | startPage
  | endPage
  deriving DecidableEq, Repr

/-- What the variables hold. -/
abbrev Variables : Type := Variable → Option ℤ

/-- The local variables of a macro, and those of the namespace. -/
structure Scope where
  locals : Variables
  assigned : Variables

namespace Scope

/-- What a variable is read as. -/
def lookup (s : Scope) (v : Variable) : Option ℤ := (s.locals v).or (s.assigned v)

/-- `<#assign v = n>`. -/
def assign (s : Scope) (v : Variable) (n : ℤ) : Scope :=
  { s with assigned := fun w => if w = v then some n else s.assigned w }

/-- `<#assign v = v + 1>`. -/
def increment (s : Scope) (v : Variable) : Option Scope :=
  (s.lookup v).map fun n => s.assign v (n + 1)

end Scope

/-- A link to a page, by its number. -/
structure PageLink where
  number : ℤ
  active : Bool
  deriving DecidableEq, Repr

/-- What the macro writes. A link to the previous or the next page that is
disabled leads nowhere. -/
inductive Paginate where
  | blank
  | nothing
  | bar (previous : Option ℤ) (pages : List PageLink) (next : Option ℤ)
  deriving DecidableEq, Repr

/-- `start..stop`, which counts down when it has to. -/
def range (start stop : ℤ) : List ℤ :=
  if start ≤ stop then (List.range (stop - start + 1).toNat).map fun k : ℕ => start + k
  else (List.range (start - stop + 1).toNat).map fun k : ℕ => start - k

/-- The parameters of the macro. -/
def parameters (totalCount pageNo countPerPage displayPageCount : ℤ) : Variables
  | .totalCount => some totalCount
  | .pageNo => some pageNo
  | .countPerPage => some countPerPage
  | .displayPageCount => some displayPageCount
  | _ => none

/-- The number of pages. -/
def assignTotalPage (s : Scope) : Option Scope := do
  let totalCount ← s.lookup .totalCount
  let countPerPage ← s.lookup .countPerPage
  let s := s.assign .totalPage (totalCount.tdiv countPerPage)
  if totalCount.tmod countPerPage ≠ 0 then s.increment .totalPage else some s

/-- `pageNo` is brought into the range of the pages. -/
def clampPageNo (s : Scope) : Option Scope := do
  let pageNo ← s.lookup .pageNo
  let s := if pageNo < 1 then s.assign .pageNo 1 else s
  let pageNo ← s.lookup .pageNo
  let totalPage ← s.lookup .totalPage
  return if pageNo > totalPage then s.assign .pageNo totalPage else s

/-- The block of pages that `pageNo` is in. -/
def assignPhraseIndex (s : Scope) : Option Scope := do
  let pageNo ← s.lookup .pageNo
  let displayPageCount ← s.lookup .displayPageCount
  let s := s.assign .phraseIndex (pageNo.tdiv displayPageCount)
  if pageNo.tmod displayPageCount ≠ 0 then s.increment .phraseIndex else some s

/-- The first and the last page of the block. -/
def assignBlock (s : Scope) : Option Scope := do
  let phraseIndex ← s.lookup .phraseIndex
  let displayPageCount ← s.lookup .displayPageCount
  let s := s.assign .startPage ((phraseIndex - 1) * displayPageCount + 1)
  let s := s.assign .endPage (phraseIndex * displayPageCount)
  let endPage ← s.lookup .endPage
  let totalPage ← s.lookup .totalPage
  return if endPage > totalPage then s.assign .endPage totalPage else s

/-- The links. -/
def pagination (s : Scope) : Option Paginate := do
  let pageNo ← s.lookup .pageNo
  let totalPage ← s.lookup .totalPage
  let startPage ← s.lookup .startPage
  let endPage ← s.lookup .endPage
  return .bar (if pageNo = 1 then none else some (pageNo - 1))
    ((range startPage endPage).map fun i => ⟨i, i = pageNo⟩)
    (if pageNo = totalPage then none else some (pageNo + 1))

/-- `paging`. There is nothing where a variable that is read is not
defined. -/
def paging (s : Scope) : Option Paginate := do
  let totalCount ← s.lookup .totalCount
  let countPerPage ← s.lookup .countPerPage
  let displayPageCount ← s.lookup .displayPageCount
  if totalCount = 0 ∨ countPerPage = 0 ∨ displayPageCount = 0 then return .blank
  let s ← assignTotalPage s
  let totalPage ← s.lookup .totalPage
  if totalPage = 1 then return .nothing
  let s ← clampPageNo s
  let s ← assignPhraseIndex s
  let s ← assignBlock s
  pagination s

end Paging

end Zooffice
