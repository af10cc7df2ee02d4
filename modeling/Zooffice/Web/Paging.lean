import Mathlib.Algebra.Order.Floor.Ring
import Mathlib.Data.Rat.Floor
import Zooffice.Web.Model.Paging
/-!
# Which pages are linked

The block of pages around a page of the list is as it should be: the two
ceilings are computed from quotients cut off towards zero. The page number
is brought into the range of the pages by an assignment that nothing sees,
since the parameter hides what is assigned. So the block is right exactly
for the numbers of pages.
-/


namespace Zooffice

namespace Paging

variable {s : Scope} {v w : Variable} {n m : ℤ}

/-! ## The variables -/

namespace Scope

@[simp] theorem locals_assign (s : Scope) (v : Variable) (n : ℤ) :
    (s.assign v n).locals = s.locals := rfl

/-- **A local variable hides** what is assigned. -/
theorem lookup_of_local (h : s.locals v = some n) : s.lookup v = some n := by
  rw [lookup, h, Option.some_or]

theorem lookup_of_not_local (h : s.locals v = none) : s.lookup v = s.assigned v := by
  rw [lookup, h, Option.none_or]

theorem assigned_assign_self (s : Scope) (v : Variable) (n : ℤ) :
    (s.assign v n).assigned v = some n := if_pos rfl

theorem assigned_assign_of_ne (h : w ≠ v) : (s.assign v n).assigned w = s.assigned w := if_neg h

/-- An increment of what has just been assigned. -/
theorem increment_assign (h : s.locals v = none) :
    (s.assign v n).increment v = some ((s.assign v n).assign v (n + 1)) := by
  rw [increment, lookup_of_not_local (by rwa [locals_assign]), assigned_assign_self,
    Option.map_some]

end Scope

/-! ## Quotients rounded up -/

/-- What is computed of a quotient: cut off, and one more for a rest. -/
def roundedUp (n d : ℤ) : ℤ := if n.tmod d ≠ 0 then n.tdiv d + 1 else n.tdiv d

/-- **The least number of parts** of the size `d` that hold `n`. -/
theorem roundedUp_bounds {n d : ℤ} (hn : 0 < n) (hd : 0 < d) :
    (roundedUp n d - 1) * d < n ∧ n ≤ roundedUp n d * d := by
  have hsplit := Int.tmod_add_mul_tdiv n d
  have hlow := Int.tmod_nonneg d hn.le
  have hhigh := Int.tmod_lt_of_pos n hd
  rw [Int.mul_comm] at hsplit
  rw [roundedUp]
  split
  · rw [Int.add_sub_cancel, Int.add_mul, Int.one_mul]
    omega
  · rw [Int.sub_mul, Int.one_mul]
    omega

theorem roundedUp_eq_ceil {n d : ℤ} (hn : 0 < n) (hd : 0 < d) :
    roundedUp n d = ⌈(n / d : ℚ)⌉ := by
  obtain ⟨hlow, hhigh⟩ := roundedUp_bounds hn hd
  have hd' : (0 : ℚ) < d := by exact_mod_cast hd
  refine (Int.ceil_eq_iff.2 ⟨?_, ?_⟩).symm
  · rw [lt_div_iff₀ hd']
    exact_mod_cast hlow
  · rw [div_le_iff₀ hd']
    exact_mod_cast hhigh

theorem roundedUp_pos {n d : ℤ} (hn : 0 < n) (hd : 0 < d) : 0 < roundedUp n d := by
  have hhigh := (roundedUp_bounds hn hd).2
  by_contra hneg
  have := Int.mul_nonpos_of_nonpos_of_nonneg (Int.not_lt.1 hneg) hd.le
  omega

/-! ## What the macro writes -/

variable {totalCount pageNo countPerPage displayPageCount : ℤ}

/-- `v` is assigned a quotient rounded up. -/
theorem assign_roundedUp (h : s.locals v = none) (n d : ℤ) :
    ∃ s', (if n.tmod d ≠ 0 then (s.assign v (n.tdiv d)).increment v
        else some (s.assign v (n.tdiv d))) = some s' ∧ s'.locals = s.locals ∧
      s'.assigned v = some (roundedUp n d) ∧ ∀ w ≠ v, s'.assigned w = s.assigned w := by
  rw [roundedUp]
  split
  · exact ⟨_, Scope.increment_assign h, rfl, Scope.assigned_assign_self _ v _, fun w hw => by
      rw [Scope.assigned_assign_of_ne hw, Scope.assigned_assign_of_ne hw]⟩
  · exact ⟨_, rfl, rfl, Scope.assigned_assign_self _ v _,
      fun w hw => Scope.assigned_assign_of_ne hw⟩

section Call

variable (hs : s.locals = parameters totalCount pageNo countPerPage displayPageCount)
include hs

theorem exists_assignTotalPage : ∃ s', assignTotalPage s = some s' ∧ s'.locals = s.locals ∧
    s'.assigned .totalPage = some (roundedUp totalCount countPerPage) := by
  obtain ⟨s', hs', hlocals, hassigned, -⟩ :=
    assign_roundedUp (s := s) (v := .totalPage) (by rw [hs]; rfl) totalCount countPerPage
  refine ⟨s', ?_, hlocals, hassigned⟩
  rw [assignTotalPage, Scope.lookup_of_local (by rw [hs]; rfl),
    Scope.lookup_of_local (by rw [hs]; rfl)]
  exact hs'

/-- **What is assigned to `pageNo` changes nothing** that is read later. -/
theorem exists_clampPageNo {total : ℤ} (htotal : s.assigned .totalPage = some total) :
    ∃ s', clampPageNo s = some s' ∧ s'.locals = s.locals ∧
      s'.assigned .totalPage = some total := by
  have hpage : s.lookup .pageNo = some pageNo := Scope.lookup_of_local (by rw [hs]; rfl)
  have hkeep : ∀ n, ((s.assign .pageNo n).lookup .pageNo = some pageNo) ∧
      (s.assign .pageNo n).assigned .totalPage = some total := fun n =>
    ⟨Scope.lookup_of_local (by rw [Scope.locals_assign, hs]; rfl),
      (Scope.assigned_assign_of_ne (by decide)).trans htotal⟩
  obtain ⟨s₁, hs₁, hlocals, hlook, hassigned⟩ : ∃ s₁, (if pageNo < 1 then s.assign .pageNo 1 else s)
      = s₁ ∧ s₁.locals = s.locals ∧ s₁.lookup .pageNo = some pageNo ∧
        s₁.assigned .totalPage = some total := by
    by_cases hlow : pageNo < 1
    · exact ⟨_, if_pos hlow, rfl, hkeep 1⟩
    · exact ⟨_, if_neg hlow, rfl, hpage, htotal⟩
  have hlookTotal : s₁.lookup .totalPage = some total := by
    rw [Scope.lookup_of_not_local (by rw [hlocals, hs]; rfl), hassigned]
  simp only [clampPageNo, hpage, Option.bind_eq_bind, Option.bind_some, hs₁, hlook, hlookTotal]
  by_cases hhigh : pageNo > total
  · rw [if_pos hhigh]
    exact ⟨_, rfl, hlocals, (Scope.assigned_assign_of_ne (by decide)).trans hassigned⟩
  · rw [if_neg hhigh]
    exact ⟨_, rfl, hlocals, hassigned⟩

theorem exists_assignPhraseIndex {total : ℤ} (htotal : s.assigned .totalPage = some total) :
    ∃ s', assignPhraseIndex s = some s' ∧ s'.locals = s.locals ∧
      s'.assigned .totalPage = some total ∧
      s'.assigned .phraseIndex = some (roundedUp pageNo displayPageCount) := by
  obtain ⟨s', hs', hlocals, hassigned, hrest⟩ :=
    assign_roundedUp (s := s) (v := .phraseIndex) (by rw [hs]; rfl) pageNo displayPageCount
  refine ⟨s', ?_, hlocals, (hrest _ (by decide)).trans htotal, hassigned⟩
  rw [assignPhraseIndex, Scope.lookup_of_local (by rw [hs]; rfl),
    Scope.lookup_of_local (by rw [hs]; rfl)]
  exact hs'

theorem exists_assignBlock {total index : ℤ} (htotal : s.assigned .totalPage = some total)
    (hindex : s.assigned .phraseIndex = some index) :
    ∃ s', assignBlock s = some s' ∧ s'.locals = s.locals ∧ s'.assigned .totalPage = some total ∧
      s'.assigned .startPage = some ((index - 1) * displayPageCount + 1) ∧
      s'.assigned .endPage = some (min (index * displayPageCount) total) := by
  have hlookIndex : s.lookup .phraseIndex = some index := by
    rw [Scope.lookup_of_not_local (by rw [hs]; rfl), hindex]
  have hlookCount : s.lookup .displayPageCount = some displayPageCount :=
    Scope.lookup_of_local (by rw [hs]; rfl)
  let s₁ := (s.assign .startPage ((index - 1) * displayPageCount + 1)).assign .endPage
    (index * displayPageCount)
  have hstart : s₁.assigned .startPage = some ((index - 1) * displayPageCount + 1) :=
    (Scope.assigned_assign_of_ne (by decide)).trans (Scope.assigned_assign_self _ _ _)
  have hend : s₁.assigned .endPage = some (index * displayPageCount) :=
    Scope.assigned_assign_self _ _ _
  have htotal₁ : s₁.assigned .totalPage = some total :=
    (Scope.assigned_assign_of_ne (by decide)).trans
      ((Scope.assigned_assign_of_ne (by decide)).trans htotal)
  have hlookEnd : s₁.lookup .endPage = some (index * displayPageCount) := by
    rw [Scope.lookup_of_not_local (by rw [show s₁.locals = s.locals from rfl, hs]; rfl), hend]
  have hlookTotal : s₁.lookup .totalPage = some total := by
    rw [Scope.lookup_of_not_local (by rw [show s₁.locals = s.locals from rfl, hs]; rfl), htotal₁]
  have hblock : assignBlock s = some (if index * displayPageCount > total
      then s₁.assign .endPage total else s₁) := by
    simp only [assignBlock, hlookIndex, hlookCount, Option.bind_eq_bind, Option.bind_some]
    rw [hlookEnd, Option.bind_some, hlookTotal]
    rfl
  by_cases hlong : index * displayPageCount > total
  · rw [hblock, if_pos hlong, min_eq_right hlong.le]
    exact ⟨_, rfl, rfl, (Scope.assigned_assign_of_ne (by decide)).trans htotal₁,
      (Scope.assigned_assign_of_ne (by decide)).trans hstart, Scope.assigned_assign_self _ _ _⟩
  · rw [hblock, if_neg hlong, min_eq_left (Int.not_lt.1 hlong)]
    exact ⟨_, rfl, rfl, htotal₁, hstart, hend⟩

/-- **The whole macro**, for more than one page: the links of a block. -/
theorem paging_eq_bar (hcount : 0 < totalCount) (hper : 0 < countPerPage)
    (hdisplay : 0 < displayPageCount) (hmore : 1 < roundedUp totalCount countPerPage) :
    ∃ previous next, paging s = some (.bar previous
      ((range ((roundedUp pageNo displayPageCount - 1) * displayPageCount + 1)
        (min (roundedUp pageNo displayPageCount * displayPageCount)
          (roundedUp totalCount countPerPage))).map fun i => ⟨i, i = pageNo⟩) next) := by
  obtain ⟨s₁, hs₁, hlocals₁, htotal₁⟩ := exists_assignTotalPage hs
  rw [hs] at hlocals₁
  obtain ⟨s₂, hs₂, hlocals₂, htotal₂⟩ := exists_clampPageNo hlocals₁ htotal₁
  rw [hlocals₁] at hlocals₂
  obtain ⟨s₃, hs₃, hlocals₃, htotal₃, hindex₃⟩ := exists_assignPhraseIndex hlocals₂ htotal₂
  rw [hlocals₂] at hlocals₃
  obtain ⟨s₄, hs₄, hlocals₄, htotal₄, hstart₄, hend₄⟩ := exists_assignBlock hlocals₃ htotal₃ hindex₃
  rw [hlocals₃] at hlocals₄
  have hpage₄ : s₄.lookup .pageNo = some pageNo := Scope.lookup_of_local (by rw [hlocals₄]; rfl)
  have hlook₁ : s₁.lookup .totalPage = some (roundedUp totalCount countPerPage) := by
    rw [Scope.lookup_of_not_local (by rw [hlocals₁]; rfl), htotal₁]
  have hassigned₄ : ∀ v ∈ [Variable.totalPage, .startPage, .endPage],
      s₄.lookup v = s₄.assigned v := by
    intro v hv
    refine Scope.lookup_of_not_local ?_
    rw [hlocals₄]
    simp only [List.mem_cons, List.not_mem_nil, or_false] at hv
    rcases hv with rfl | rfl | rfl <;> rfl
  refine ⟨if pageNo = 1 then none else some (pageNo - 1),
    if pageNo = roundedUp totalCount countPerPage then none else some (pageNo + 1), ?_⟩
  rw [paging, Scope.lookup_of_local (n := totalCount) (by rw [hs]; rfl),
    Scope.lookup_of_local (n := countPerPage) (by rw [hs]; rfl),
    Scope.lookup_of_local (n := displayPageCount) (by rw [hs]; rfl)]
  have hnonzero : ¬ (totalCount = 0 ∨ countPerPage = 0 ∨ displayPageCount = 0) := by omega
  simp only [Option.bind_eq_bind, Option.bind_some, if_neg hnonzero, hs₁, hlook₁,
    if_neg hmore.ne', hs₂, hs₃, hs₄, pagination, hpage₄, hassigned₄ _ (by decide :
      Variable.totalPage ∈ _), htotal₄]
  rw [hassigned₄ _ (by decide), hstart₄, hassigned₄ _ (by decide), hend₄]
  rfl

end Call

/-! ## The window -/

theorem range_of_le {start stop : ℤ} (h : start ≤ stop) :
    range start stop = (List.range (stop - start + 1).toNat).map fun k : ℕ => start + k :=
  if_pos h

theorem mem_range_iff {start stop i : ℤ} (h : start ≤ stop) :
    i ∈ range start stop ↔ start ≤ i ∧ i ≤ stop := by
  rw [range_of_le h]
  simp only [List.mem_map, List.mem_range]
  constructor
  · rintro ⟨k, hk, rfl⟩
    omega
  · rintro ⟨hlow, hhigh⟩
    exact ⟨(i - start).toNat, by omega, by omega⟩

theorem isChain_range_of_le {start stop : ℤ} (h : start ≤ stop) :
    (range start stop).IsChain fun i j => j = i + 1 := by
  rw [range_of_le h, List.isChain_map, List.isChain_range]
  intro k _
  push_cast
  omega

theorem length_range_of_le {start stop : ℤ} (h : start ≤ stop) :
    ((range start stop).length : ℤ) = stop - start + 1 := by
  rw [range_of_le h, List.length_map, List.length_range]
  omega

/-- **A well-formed window** around the page number, when that is brought
into the range of the pages. -/
structure WellFormed (total pageNo displayPageCount : ℤ) (pages : List PageLink) : Prop where
  consecutive : (pages.map PageLink.number).IsChain fun i j => j = i + 1
  length_le : (pages.length : ℤ) ≤ displayPageCount
  within : ∀ page ∈ pages, 1 ≤ page.number ∧ page.number ≤ total
  shown : ∃ page ∈ pages, page.number = max 1 (min pageNo total)
  active : ∀ page ∈ pages, (page.active = true ↔ page.number = max 1 (min pageNo total))

/-- The macro lists a well-formed window of the pages. -/
def ListsWindow (totalCount pageNo countPerPage displayPageCount : ℤ) (assigned : Variables) :
    Prop :=
  ∃ previous pages next,
    paging ⟨parameters totalCount pageNo countPerPage displayPageCount, assigned⟩ =
      some (.bar previous pages next) ∧
    WellFormed ⌈(totalCount / countPerPage : ℚ)⌉ pageNo displayPageCount pages

/-- The block of a page is well formed. -/
theorem wellFormed_block {total : ℤ} (hdisplay : 0 < displayPageCount) (hlow : 1 ≤ pageNo)
    (hhigh : pageNo ≤ total) :
    WellFormed total pageNo displayPageCount
      ((range ((roundedUp pageNo displayPageCount - 1) * displayPageCount + 1)
        (min (roundedUp pageNo displayPageCount * displayPageCount) total)).map
          fun i => ⟨i, i = pageNo⟩) := by
  obtain ⟨hstart, hend⟩ := roundedUp_bounds (show 0 < pageNo by omega) hdisplay
  have hpos := roundedUp_pos (show 0 < pageNo by omega) hdisplay
  generalize roundedUp pageNo displayPageCount = index at hstart hend hpos
  have hblock : (index - 1) * displayPageCount + displayPageCount = index * displayPageCount := by
    rw [Int.sub_mul, Int.one_mul]
    omega
  have hfirst : 0 ≤ (index - 1) * displayPageCount := Int.mul_nonneg (by omega) hdisplay.le
  have hle : (index - 1) * displayPageCount + 1 ≤ min (index * displayPageCount) total := by omega
  have hclamp : max 1 (min pageNo total) = pageNo := by omega
  have hnumber : (PageLink.number ∘ fun i : ℤ => ⟨i, decide (i = pageNo)⟩) = id := rfl
  constructor
  · rw [List.map_map, hnumber, List.map_id]
    exact isChain_range_of_le hle
  · rw [List.length_map, length_range_of_le hle]
    omega
  · intro page hpage
    obtain ⟨i, hi, rfl⟩ := List.mem_map.1 hpage
    have := (mem_range_iff hle).1 hi
    dsimp only
    omega
  · exact ⟨_, List.mem_map_of_mem ((mem_range_iff hle).2 (by omega)), hclamp.symm⟩
  · intro page hpage
    obtain ⟨i, -, rfl⟩ := List.mem_map.1 hpage
    rw [hclamp]
    exact decide_eq_true_iff

/-- **The links are a window around the page exactly when the page
exists**: a number beyond the pages is brought back into their range by an
assignment to a variable that the parameter hides. -/
theorem listsWindow_iff {totalCount pageNo countPerPage displayPageCount : ℤ}
    (assigned : Variables) (hcount : 0 < totalCount) (hper : 0 < countPerPage)
    (hdisplay : 0 < displayPageCount) (hmore : 1 < ⌈(totalCount / countPerPage : ℚ)⌉) :
    ListsWindow totalCount pageNo countPerPage displayPageCount assigned ↔
      1 ≤ pageNo ∧ pageNo ≤ ⌈(totalCount / countPerPage : ℚ)⌉ := by
  rw [ListsWindow]
  rw [← roundedUp_eq_ceil hcount hper] at hmore ⊢
  obtain ⟨previous, next, hbar⟩ := paging_eq_bar
    (s := ⟨parameters totalCount pageNo countPerPage displayPageCount, assigned⟩) rfl hcount hper
    hdisplay hmore
  constructor
  · rintro ⟨previous', pages, next', hpaging, hwindow⟩
    rw [hbar, Option.some_inj, Paginate.bar.injEq] at hpaging
    obtain ⟨-, rfl, -⟩ := hpaging
    -- the link of the page that should be active is active for another number
    obtain ⟨page, hpage, hnumber⟩ := hwindow.shown
    have hactive := (hwindow.active page hpage).2 hnumber
    obtain ⟨i, -, rfl⟩ := List.mem_map.1 hpage
    have hi : i = pageNo := of_decide_eq_true hactive
    dsimp only at hnumber
    omega
  · rintro ⟨hlow, hhigh⟩
    exact ⟨previous, _, next, hbar, wellFormed_block hdisplay hlow hhigh⟩

/-- The third of ten pages. -/
theorem listsWindow_third : (1 < ⌈((95 : ℤ) / (10 : ℤ) : ℚ)⌉) ∧
    ListsWindow 95 3 10 5 fun _ => none := by
  have hceil : ⌈((95 : ℤ) / (10 : ℤ) : ℚ)⌉ = 10 := by
    rw [← roundedUp_eq_ceil (by decide) (by decide)]
    decide
  have hmore : 1 < ⌈((95 : ℤ) / (10 : ℤ) : ℚ)⌉ := by
    rw [hceil]
    decide
  exact ⟨hmore, (listsWindow_iff _ (by decide) (by decide) (by decide) hmore).2
    ⟨by decide, by rw [hceil]; decide⟩⟩

/-- **Behind the last page**: of ten pages the tenth and an eleventh are
listed, from the eleventh down. -/
theorem not_listsWindow_eleventh : 1 < ⌈((95 : ℤ) / (10 : ℤ) : ℚ)⌉ ∧
    ¬ ListsWindow 95 11 10 5 fun _ => none := by
  have hceil : ⌈((95 : ℤ) / (10 : ℤ) : ℚ)⌉ = 10 := by
    rw [← roundedUp_eq_ceil (by decide) (by decide)]
    decide
  refine ⟨by rw [hceil]; decide, ?_⟩
  rintro ⟨previous, pages, next, hpaging, hwindow⟩
  have hbar : paging ⟨parameters 95 11 10 5, fun _ => none⟩ =
      some (.bar (some 10) [⟨11, true⟩, ⟨10, false⟩] (some 12)) := by decide
  rw [hbar, Option.some_inj, Paginate.bar.injEq] at hpaging
  obtain ⟨-, rfl, -⟩ := hpaging
  have hwithin := (hwindow.within ⟨11, true⟩ (by decide)).2
  rw [hceil] at hwithin
  exact absurd hwithin (by decide)

end Paging

end Zooffice
