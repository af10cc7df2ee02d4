import Zooffice.Sandbox.Normalize
/-!
# The normalization as a stack of components

What `doNormalize` is for: the components of a name are taken from left to
right, each is put on a stack, and `..` takes one away again. For a name
that begins with one separator the three loops compute exactly that
(`doNormalize_eq_stack`). The definitions here say what is wanted and are
compared with the code; they are not a translation of it.
-/


namespace Zooffice

open Zooffice.Path

/-- What stands between the separators of a name, either of which counts. -/
def pieces (filename : Text) : List Text := filename.splitOnP isSeparator

/-- The components of a name: its pieces without the empty ones and `.`. -/
def components (filename : Text) : List Text :=
  (pieces filename).filter fun n => n ≠ [] ∧ n ≠ ['.']

/-- The stack after the components, from left to right: `..` takes the last
one away, any other is put on top. With nothing left to take away there is
no stack. -/
def stackOf : List Text → List Text → Option (List Text)
  | st, [] => some st
  | st, n :: ns =>
      if n = ['.', '.'] then if st = [] then none else stackOf st.dropLast ns
      else stackOf (st ++ [n]) ns

/-- The name ends in a separator. -/
def EndsInSeparator (filename : Text) : Prop := ∃ c, filename.getLast? = some c ∧ isSeparator c

/-- The last piece of the name that is not empty is `.` or `..`. -/
def LastIsDots (filename : Text) : Prop :=
  ((pieces filename).filter fun n => n ≠ []).getLast? = some ['.'] ∨
    ((pieces filename).filter fun n => n ≠ []).getLast? = some ['.', '.']

instance (filename : Text) : Decidable (EndsInSeparator filename) :=
  decidable_of_iff (filename.getLast?.any isSeparator = true) (Option.any_eq_true ..)

instance (filename : Text) : Decidable (LastIsDots filename) := inferInstanceAs (Decidable (_ ∨ _))

/-- The text of a stack: the root, the components with a slash between
them, and one at the end when the name asks for it and there is any. -/
def stackText (filename : Text) (st : List Text) : Text :=
  '/' :: ((['/'] : Text).intercalate st ++
    if st ≠ [] ∧ (EndsInSeparator filename ∨ LastIsDots filename) then ['/'] else [])

/-! ## The names of the class are the pieces -/

theorem unixText_splitOn (filename : Text) : (unixText filename).splitOn '/' = pieces filename := by
  induction filename with
  | nil => rfl
  | cons c rest ih =>
      rw [unixText_cons, List.splitOn_cons_eq_if_modifyHead, ih, pieces, pieces,
        List.splitOnP_cons_eq_if_modifyHead]
      by_cases hc : isSeparator c = true
      · rw [if_pos hc, if_pos]
        rcases isSeparator_eq_true.1 hc with rfl | rfl <;> rfl
      · have hne : c ≠ '/' ∧ c ≠ '\\' := by
          rw [isSeparator_eq_true, not_or] at hc
          exact hc
        rw [if_neg hc, if_neg hne.2, if_neg (by simpa using hne.1)]

theorem names_unixText (filename : Text) :
    names '/' (unixText filename) = (pieces filename).filter fun n => n ≠ [] := by
  rw [names, unixText_splitOn]

/-- Over components the walk of the class is the stack. -/
theorem walk_eq_stackOf {ns : List Text} (h : ∀ n ∈ ns, n ≠ [] ∧ n ≠ ['.']) (st : List Text) :
    walk '.' st ns = stackOf st ns := by
  induction ns generalizing st with
  | nil => rfl
  | cons n ns ih =>
      have hn := h n List.mem_cons_self
      have hrest : ∀ m ∈ ns, m ≠ [] ∧ m ≠ ['.'] := fun m hm => h m (List.mem_cons_of_mem _ hm)
      rw [walk, stackOf, enter, if_neg (not_or.2 hn)]
      by_cases hdots : n = ['.', '.']
      · by_cases hst : st = []
        · simp [hdots, hst]
        · rw [if_neg (fun h => hst h.2), if_pos hdots, if_pos hdots, if_neg hst, ih hrest]
      · rw [if_neg (fun h => hdots h.1), if_neg hdots, if_neg hdots, ih hrest]

/-- **The walk over the names of a name is its stack of components.** -/
theorem walk_names (filename : Text) :
    walk '.' [] (names '/' (unixText filename)) = stackOf [] (components filename) := by
  have hcomponents : components filename =
      (names '/' (unixText filename)).filter fun n => n ≠ ['.'] := by
    rw [names_unixText, List.filter_filter, components]
    refine List.filter_congr fun n _ => ?_
    simp [Bool.and_comm]
  have hmem : ∀ n ∈ components filename, n ≠ [] ∧ n ≠ ['.'] := fun n hn => by
    simpa using (List.mem_filter.1 hn).2
  rw [← walk_eq_stackOf hmem, hcomponents]
  refine (walk_filter '.' _ (fun n hn => ?_) _ _).symm
  exact .inr (by simpa using hn)

/-! ## The text of the stack -/

/-- What the class notes about the end of a name. -/
theorem directory_eq (filename : Text) :
    (endsInSeparator filename || endsInDots (names '/' (unixText filename))) =
      decide (EndsInSeparator filename ∨ LastIsDots filename) := by
  have hends : endsInSeparator filename = decide (EndsInSeparator filename) := by
    rw [endsInSeparator, unixText, List.getLast?_map]
    refine decide_eq_decide.2 ?_
    unfold EndsInSeparator
    cases filename.getLast? with
    | none => simp
    | some c =>
        simp only [Option.map_some, Option.some.injEq, exists_eq_left', isSeparator_eq_true]
        by_cases hc : c = '\\'
        · simp [hc]
        · simp [hc]
  have hdots : endsInDots (names '/' (unixText filename)) = decide (LastIsDots filename) := by
    rw [names_unixText, endsInDots, ← Bool.decide_or]
    exact decide_eq_decide.2 Iff.rfl
  rw [hends, hdots, Bool.decide_or]

theorem text_eq_stackText (filename : Text) (st : List Text) :
    text '/' st (endsInSeparator filename || endsInDots (names '/' (unixText filename))) =
      stackText filename st := by
  rw [directory_eq, text, stackText]
  by_cases hst : st = []
  · simp [hst]
  · by_cases hdir : EndsInSeparator filename ∨ LastIsDots filename
    · rw [if_pos (.inr (decide_eq_true hdir)), if_pos ⟨hst, hdir⟩, cons_terminated,
        ← cons_intercalate hst, List.cons_append]
    · have hopen : ¬(st = [] ∨ decide (EndsInSeparator filename ∨ LastIsDots filename) = true) := by
        simp [hst, hdir]
      rw [if_neg hopen, if_neg (fun h => hdir h.2), List.append_nil, cons_intercalate hst]

/-! ## The result -/

/-- **The normalization always ends, within its array, and for a name that
begins with one separator it is the text of the stack of its components**,
or null when a `..` finds nothing to take away. -/
theorem doNormalize_eq_stack (filename : Text) :
    (∃ result, doNormalize (some filename) systemSeparator true = .ok result) ∧
      (getPrefixLength (some filename) = 1 →
        doNormalize (some filename) systemSeparator true =
          .ok ((stackOf [] (components filename)).map (stackText filename))) := by
  refine ⟨exists_doNormalize_eq_ok filename true, fun hp => ?_⟩
  rw [doNormalize_of_prefix_one hp, walk_names]
  simp only [Bool.and_true, text_eq_stackText]

theorem doNormalize_eq_stack_upAndDown :
    doNormalize (some "/a//./b\\../c/.".toList) systemSeparator true =
      .ok (some "/a/c/".toList) :=
  ((doNormalize_eq_stack "/a//./b\\../c/.".toList).2 (by decide)).trans (by decide)

end Zooffice
