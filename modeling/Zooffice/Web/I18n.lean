import Mathlib.Data.List.Count
import Zooffice.Web.Model.I18n
/-!
# Arguments put in one after the other

A step of the loop in `getI18nMsg` replaces the first occurrence of a
number in the text that the steps before it have left. It does what
replacing all numbers at once does if it is `StepSafe`, and a loop of such
steps is right (`replaceFrom_eq_substitute`). Arguments that bring in
nothing that the loop looks at are put in right exactly when no number
occurs twice (`replaceFrom_eq_substitute_iff`).
-/


namespace Zooffice

namespace I18n

variable {n i j : ℕ} {text rest : Text} {args done : List Text} {arg : Text} {ps : List Piece}

/-! ## Numbers in a text -/

theorem open_not_mem (i : ℕ) : '{' ∉ decimal i ++ ['}'] := by
  rw [List.mem_append, not_or]
  exact ⟨not_mem_decimal (by decide), by decide⟩

theorem literal_placeholder (i : ℕ) : Js.Literal (placeholder i) := by
  refine Js.literal_of_not_mem ?_
  rw [placeholder, List.mem_cons, List.mem_append, not_or, not_or]
  exact ⟨by decide, not_mem_decimal (by decide), by decide⟩

/-- **No number is the beginning of another.** -/
theorem placeholder_inj (hi : placeholder i <+: text) (hj : placeholder j <+: text) :
    i = j := by
  have hdigits : ∀ k, placeholder k <+: text →
      decimal k = text.tail.takeWhile fun c => c.isDigit := by
    rintro k ⟨rest, rfl⟩
    rw [placeholder, List.cons_append, List.tail_cons, List.append_assoc,
      List.takeWhile_append_of_pos fun c hc => isDigit_of_mem_decimal hc, List.singleton_append,
      List.takeWhile_cons_of_neg (by decide), List.append_nil]
  rw [← decimal_inj, hdigits i hi, hdigits j hj]

/-- **An occurrence of a number** is not part of another one. -/
theorem infix_placeholder_append_iff :
    placeholder i <:+: placeholder j ++ rest ↔ i = j ∨ placeholder i <:+: rest := by
  have hcons : placeholder j ++ rest = '{' :: (decimal j ++ ['}'] ++ rest) := rfl
  have hpass : placeholder i <:+: decimal j ++ ['}'] ++ rest ↔ placeholder i <:+: rest :=
    infix_append_iff_of_not_mem (open_not_mem j)
  rw [hcons, List.infix_cons_iff, hpass, ← hcons]
  refine or_congr_left ⟨fun h => placeholder_inj h (List.prefix_append _ _), ?_⟩
  rintro rfl
  exact List.prefix_append _ _

theorem argumentAt_eq_some_iff : argumentAt n text = some i ↔ i < n ∧ placeholder i <+: text := by
  constructor
  · intro h
    have hbegins := List.find?_some h
    exact ⟨List.mem_range.1 (List.mem_of_find?_eq_some h), List.isPrefixOf_iff_prefix.1 hbegins⟩
  · rintro ⟨hi, hbegins⟩
    rcases hfound : argumentAt n text with _ | j
    · rw [argumentAt, List.find?_eq_none] at hfound
      exact absurd (List.isPrefixOf_iff_prefix.2 hbegins) (hfound i (List.mem_range.2 hi))
    · have hbegins' := List.find?_some hfound
      rw [placeholder_inj hbegins (List.isPrefixOf_iff_prefix.1 hbegins')]

/-! ## The pieces of a message -/

theorem piecesFrom_append (read rest : Text) :
    piecesFrom n read.length (read ++ rest) = piecesFrom n 0 rest := by
  induction read with
  | nil => rfl
  | cons c read ih => rw [List.length_cons, List.cons_append, piecesFrom, ih]

theorem pieces_placeholder (hi : i < n) (rest : Text) :
    pieces n (placeholder i ++ rest) = .argument i :: pieces n rest := by
  have hat : argumentAt n (placeholder i ++ rest) = some i :=
    argumentAt_eq_some_iff.2 ⟨hi, List.prefix_append _ _⟩
  rw [placeholder, List.cons_append] at hat ⊢
  rw [pieces, piecesFrom, hat]
  simp only [placeholder, List.length_cons, Nat.add_sub_cancel, piecesFrom_append]
  rfl

theorem pieces_letter {c : Char} {cs : Text} (h : ∀ i < n, ¬ placeholder i <+: c :: cs) :
    pieces n (c :: cs) = .letter c :: pieces n cs := by
  have hat : argumentAt n (c :: cs) = none := by
    rw [Option.eq_none_iff_forall_ne_some]
    intro i hi
    rw [argumentAt_eq_some_iff] at hi
    exact h i hi.1 hi.2
  rw [pieces, piecesFrom, hat]
  rfl

/-- **Induction over the pieces**: the text is read from the front, a number or a
letter at a time. -/
theorem pieces_induction {motive : Text → Prop} (n : ℕ) (nil : motive [])
    (argument : ∀ i rest, i < n → motive rest → motive (placeholder i ++ rest))
    (letter : ∀ c cs, (∀ i < n, ¬ placeholder i <+: c :: cs) → motive cs → motive (c :: cs))
    (text : Text) : motive text := by
  induction hlength : text.length using Nat.strongRecOn generalizing text with
  | _ k ih =>
    cases text with
    | nil => exact nil
    | cons c cs =>
        by_cases hany : ∃ i < n, placeholder i <+: c :: cs
        · obtain ⟨i, hi, rest, hrest⟩ := hany
          rw [← hrest] at hlength ⊢
          rw [placeholder, List.length_append, List.length_cons] at hlength
          exact argument i rest hi (ih _ (by omega) rest rfl)
        · refine letter c cs (fun i hi hbegins => hany ⟨i, hi, hbegins⟩) (ih _ ?_ cs rfl)
          rw [List.length_cons] at hlength
          omega

/-- **The pieces are those of the text.** -/
theorem substitute_nil_pieces (n : ℕ) (text : Text) : substitute [] (pieces n text) = text := by
  induction text using pieces_induction n with
  | nil => rfl
  | argument i rest hi ih =>
      rw [pieces_placeholder hi, substitute, List.flatMap_cons, ← substitute, ih]
      rfl
  | letter c cs h ih =>
      rw [pieces_letter h, substitute, List.flatMap_cons, ← substitute, ih]
      rfl

/-! ## A step of the loop -/

/-- The pieces in front of a number. -/
def piecesBefore (i : ℕ) (ps : List Piece) : List Piece := ps.takeWhile (· ≠ .argument i)

/-- The pieces behind it. -/
def piecesBehind (i : ℕ) (ps : List Piece) : List Piece :=
  (ps.dropWhile (· ≠ .argument i)).drop 1

/-- **The step for an argument meets what it is written for.** Either the argument
is its own number; or that number occurs once at most, the text in front of
it has no such number from the arguments before, and no dollar of the
argument stands for something else there. -/
def StepSafe (done : List Text) (arg : Text) (ps : List Piece) : Prop :=
  arg = placeholder done.length ∨
    ps.count (.argument done.length) ≤ 1 ∧
    ¬ placeholder done.length <:+: substitute done (piecesBefore done.length ps) ∧
    (.argument done.length ∈ ps →
      Js.expand (placeholder done.length) (substitute done (piecesBefore done.length ps))
        (substitute done (piecesBehind done.length ps)) arg = arg)

instance : Decidable (StepSafe done arg ps) := inferInstanceAs (Decidable (_ ∨ _))

theorem substitute_append (args : List Text) (ps ps' : List Piece) :
    substitute args (ps ++ ps') = substitute args ps ++ substitute args ps' :=
  List.flatMap_append

theorem substitute_argument (args : List Text) (i : ℕ) (ps : List Piece) :
    substitute args (.argument i :: ps) = args[i]?.getD (placeholder i) ++ substitute args ps :=
  List.flatMap_cons

theorem getElem?_concat_of_ne {i : ℕ} (h : i ≠ done.length) : (done ++ [arg])[i]? = done[i]? := by
  rcases Nat.lt_or_ge i done.length with hlt | hge
  · rw [List.getElem?_append_left hlt]
  · rw [List.getElem?_eq_none hge, List.getElem?_eq_none]
    rw [List.length_append, List.length_singleton]
    omega

/-- One more argument changes nothing where its number is not. -/
theorem substitute_concat_of_not_mem (h : .argument done.length ∉ ps) :
    substitute (done ++ [arg]) ps = substitute done ps := by
  refine List.flatMap_congr fun p hp => ?_
  cases p with
  | letter c => rfl
  | argument i =>
      have hi : i ≠ done.length := by
        rintro rfl
        exact h hp
      rw [Piece.value, Piece.value, getElem?_concat_of_ne hi]

/-- The pieces around the first occurrence of a number. -/
theorem pieces_around (h : .argument i ∈ ps) :
    ps = piecesBefore i ps ++ .argument i :: piecesBehind i ps := by
  have hsplit := List.takeWhile_append_dropWhile (p := fun p => decide (p ≠ .argument i)) (l := ps)
  rcases hdrop : ps.dropWhile (· ≠ .argument i) with _ | ⟨p, rest⟩
  · rw [List.dropWhile_eq_nil_iff] at hdrop
    exact absurd (hdrop _ h) (by simp)
  · have hp := List.head?_dropWhile_not (fun p => decide (p ≠ Piece.argument i)) ps
    rw [hdrop] at hp hsplit
    obtain rfl : p = .argument i := by simpa using hp
    rw [piecesBefore, piecesBehind, hdrop, List.drop_one, List.tail_cons, hsplit]

theorem not_mem_piecesBefore (i : ℕ) (ps : List Piece) : .argument i ∉ piecesBefore i ps := by
  intro h
  have hne := List.mem_takeWhile_imp h
  simp at hne

theorem replace_placeholder (arg behind : Text) {before : Text}
    (hbefore : ¬ placeholder i <:+: before) :
    Js.replace (before ++ (placeholder i ++ behind)) (placeholder i) arg =
      before ++ Js.expand (placeholder i) before behind arg ++ behind :=
  Js.replace_append (open_not_mem i) hbefore

/-- **A safe step puts its argument in.** -/
theorem replace_of_stepSafe (h : StepSafe done arg ps) :
    Js.replace (substitute done ps) (placeholder done.length) arg =
      substitute (done ++ [arg]) ps := by
  rcases h with rfl | ⟨hcount, hbefore, hexpand⟩
  · rw [Js.replace_self (literal_placeholder _)]
    refine List.flatMap_congr fun p _ => ?_
    cases p with
    | letter c => rfl
    | argument i =>
        rw [Piece.value, Piece.value]
        by_cases hi : i = done.length
        · rw [hi, List.getElem?_concat_length, List.getElem?_eq_none le_rfl]
          rfl
        · rw [getElem?_concat_of_ne hi]
  · by_cases hmem : .argument done.length ∈ ps
    · have hps := pieces_around hmem
      have hbehind : .argument done.length ∉ piecesBehind done.length ps := by
        rw [hps, List.count_append, List.count_cons_self] at hcount
        exact List.count_eq_zero.1 (by omega)
      have hexpand' := hexpand hmem
      have hnot := not_mem_piecesBefore done.length ps
      rw [hps, substitute_append, substitute_append, substitute_argument, substitute_argument,
        substitute_concat_of_not_mem hnot, substitute_concat_of_not_mem hbehind,
        List.getElem?_concat_length, List.getElem?_eq_none le_rfl, Option.getD_none,
        Option.getD_some]
      rw [replace_placeholder _ _ hbefore, hexpand', List.append_assoc]
    · have hall : piecesBefore done.length ps = ps :=
        List.takeWhile_eq_self_iff.2 fun p hp => decide_eq_true fun heq => hmem (heq ▸ hp)
      rw [hall] at hbefore
      rw [Js.replace_of_not_infix hbefore, substitute_concat_of_not_mem hmem]

/-! ## The loop -/

/-- **A loop of safe steps** has, at every index, all numbers below it replaced
at once. -/
theorem replaceFrom_of_stepSafe (hi : i ≤ args.length)
    (hsafe : ∀ k (hk : k < args.length), k < i → StepSafe (args.take k) args[k] ps) :
    replaceFrom 0 args (substitute [] ps) =
      replaceFrom i (args.drop i) (substitute (args.take i) ps) := by
  induction i with
  | zero => rfl
  | succ i ih =>
      have hlt : i < args.length := hi
      have hstep := replace_of_stepSafe (hsafe i hlt (Nat.lt_succ_self i))
      rw [List.length_take_of_le hlt.le, List.take_append_getElem] at hstep
      rw [ih hlt.le fun k hk hki => hsafe k hk (hki.trans (Nat.lt_succ_self i)),
        List.drop_eq_getElem_cons hlt, replaceFrom, hstep]

/-- **Safe steps put all arguments in.** -/
theorem replaceFrom_eq_substitute
    (hsafe : ∀ k (hk : k < args.length),
      StepSafe (args.take k) args[k] (pieces args.length text)) :
    replaceFrom 0 args text = substitute args (pieces args.length text) := by
  have hrun := replaceFrom_of_stepSafe le_rfl fun k hk _ => hsafe k hk
  rw [substitute_nil_pieces, List.drop_length, List.take_length, replaceFrom] at hrun
  exact hrun

/-! ## Arguments that bring in nothing

What the steps see between the first and the last can be in the way only
if it stays: the number that an argument completes in front of its own
place is one of the result as well. -/

theorem substitute_cons (args : List Text) (p : Piece) (ps : List Piece) :
    substitute args (p :: ps) = p.value args ++ substitute args ps := List.flatMap_cons

/-- A number of which the argument is not among the first ones. -/
theorem value_take (args : List Text) (i : ℕ) (p : Piece) :
    p.value (args.take i) = p.value args ∨
      ∃ j, p = .argument j ∧ i ≤ j ∧ p.value (args.take i) = placeholder j := by
  cases p with
  | letter c => exact Or.inl rfl
  | argument j =>
      rcases Nat.lt_or_ge j i with hlt | hge
      · left
        rw [Piece.value, Piece.value, List.getElem?_take_of_lt hlt]
      · right
        refine ⟨j, rfl, hge, ?_⟩
        rw [Piece.value, List.getElem?_take_eq_none hge, Option.getD_none]

theorem prefix_substitute_of_take {l : Text} (hl : '{' ∉ l)
    (h : l <+: substitute (args.take i) ps) : l <+: substitute args ps := by
  induction ps generalizing l with
  | nil => exact h
  | cons p ps ih =>
      rw [substitute_cons] at h ⊢
      rcases value_take args i p with hsame | ⟨j, -, -, hvalue⟩
      · rw [hsame] at h
        rcases List.prefix_or_prefix_of_prefix h (List.prefix_append _ _) with hle | ⟨l', rfl⟩
        · exact hle.trans (List.prefix_append _ _)
        · rw [List.prefix_append_right_inj] at h ⊢
          exact ih (fun hmem => hl (List.mem_append_right _ hmem)) h
      · cases l with
        | nil => exact List.nil_prefix
        | cons c l =>
            rw [hvalue, placeholder, List.cons_append, List.cons_prefix_cons] at h
            exact absurd (h.1 ▸ List.mem_cons_self) hl

/-- **A number that the first arguments have completed stays**, when it is none
of the message. -/
theorem infix_substitute_of_take (hmem : .argument i ∉ ps)
    (h : placeholder i <:+: substitute (args.take i) ps) :
    placeholder i <:+: substitute args ps := by
  induction ps with
  | nil => exact h
  | cons p ps ih =>
      rw [List.mem_cons, not_or] at hmem
      rw [substitute_cons] at h ⊢
      rcases value_take args i p with hsame | ⟨j, rfl, -, hvalue⟩
      · rw [hsame] at h
        exact infix_append_of_imp (open_not_mem i) (ih hmem.2)
          (fun l hl hle => prefix_substitute_of_take hl hle) h
      · rw [hvalue, infix_placeholder_append_iff] at h
        rcases h with hij | hrest
        · exact absurd (by rw [hij]) hmem.1
        · exact (ih hmem.2 hrest).trans (List.suffix_append _ _).isInfix

/-- In front of a number none is completed that is not one of the result. -/
theorem not_infix_before (h : ¬ placeholder i <:+: substitute args ps) :
    ¬ placeholder i <:+: substitute (args.take i) (piecesBefore i ps) := by
  intro hoccurs
  obtain ⟨behind, hbehind⟩ : piecesBefore i ps <+: ps := List.takeWhile_prefix _
  rw [← hbehind, substitute_append] at h
  have hstays := infix_substitute_of_take (not_mem_piecesBefore i ps) hoccurs
  exact h (hstays.trans (List.prefix_append _ _).isInfix)

/-- A step is safe with a literal argument and a number that does not occur twice
and is not one of the result. -/
theorem stepSafe_of_literal (hi : i < args.length) (hliteral : Js.Literal args[i])
    (hresult : ¬ placeholder i <:+: substitute args ps) (hcount : ps.count (.argument i) ≤ 1) :
    StepSafe (args.take i) args[i] ps := by
  rw [StepSafe, List.length_take_of_le hi.le]
  exact Or.inr ⟨hcount, not_infix_before hresult, fun _ => Js.expand_of_literal hliteral⟩

/-- **A number that is left stays**: the steps behind it look for others. -/
theorem infix_replaceFrom (hliteral : ∀ arg ∈ args, Js.Literal arg) (hij : i < j)
    (h : placeholder i <:+: text) : placeholder i <:+: replaceFrom j args text := by
  induction args generalizing j text with
  | nil => exact h
  | cons arg args ih =>
      rw [replaceFrom]
      refine ih (fun a ha => hliteral a (List.mem_cons_of_mem _ ha))
        (hij.trans (Nat.lt_succ_self j)) ?_
      by_cases hj : placeholder j <:+: text
      · obtain ⟨before, behind, htext, hreplace⟩ := Js.replace_of_infix hj
        rw [hreplace, Js.expand_of_literal (hliteral arg List.mem_cons_self)]
        have hcons : placeholder j ++ behind = '{' :: (decimal j ++ ['}'] ++ behind) := rfl
        rw [htext, hcons, placeholder, infix_append_cons_iff (open_not_mem i), ← placeholder,
          ← hcons, infix_placeholder_append_iff] at h
        rcases h with hbefore | hij' | hbehind
        · rw [List.append_assoc]
          exact hbefore.trans (List.prefix_append _ _).isInfix
        · exact absurd hij' hij.ne
        · exact hbehind.trans (List.suffix_append _ _).isInfix
      · rwa [Js.replace_of_not_infix hj]

/-- A number without an argument stays in the text. -/
theorem infix_substitute_of_mem (hmem : .argument i ∈ ps) (hi : args.length ≤ i) :
    placeholder i <:+: substitute args ps := by
  obtain ⟨front, behind, rfl⟩ := List.append_of_mem hmem
  rw [substitute_append, substitute_argument, List.getElem?_eq_none hi, Option.getD_none]
  exact ⟨_, _, (List.append_assoc _ _ _)⟩

/-- **A second occurrence is left.** -/
theorem infix_replaceFrom_of_count (hliteral : ∀ arg ∈ args, Js.Literal arg)
    (hresult : ∀ k < args.length, ¬ placeholder k <:+: substitute args ps)
    (hi : i < args.length) (hbelow : ∀ k < i, ps.count (.argument k) ≤ 1)
    (hcount : 1 < ps.count (.argument i)) :
    placeholder i <:+: replaceFrom 0 args (substitute [] ps) := by
  have hlength : (args.take i).length = i := List.length_take_of_le hi.le
  have hrun := replaceFrom_of_stepSafe hi.le fun k hk hki =>
    stepSafe_of_literal hk (hliteral _ (List.getElem_mem hk)) (hresult k hk) (hbelow k hki)
  have hps := pieces_around (List.count_pos_iff.1 (Nat.zero_lt_one.trans hcount))
  have hbehind : .argument i ∈ piecesBehind i ps := by
    rw [hps, List.count_append, List.count_cons_self,
      List.count_eq_zero.2 (not_mem_piecesBefore i _)] at hcount
    exact List.count_pos_iff.1 (by omega)
  have hstep : Js.replace (substitute (args.take i) ps) (placeholder i) args[i] =
      substitute (args.take i) (piecesBefore i ps) ++ args[i] ++
        substitute (args.take i) (piecesBehind i ps) := by
    rw [hps, substitute_append, substitute_argument, List.getElem?_eq_none hlength.le,
      Option.getD_none, ← hps, replace_placeholder _ _ (not_infix_before (hresult i hi)),
      Js.expand_of_literal (hliteral _ (List.getElem_mem hi))]
  rw [hrun, List.drop_eq_getElem_cons hi, replaceFrom, hstep]
  refine infix_replaceFrom (fun arg harg => hliteral arg (List.mem_of_mem_drop harg))
    (Nat.lt_succ_self i) ?_
  exact (infix_substitute_of_mem hbehind hlength.le).trans (List.suffix_append _ _).isInfix

/-- **Literal arguments are put in exactly when no number occurs twice**, as long as
the result has no number that it could be mistaken for. -/
theorem replaceFrom_eq_substitute_iff (hliteral : ∀ arg ∈ args, Js.Literal arg)
    (hresult : ∀ i < args.length,
      ¬ placeholder i <:+: substitute args (pieces args.length text)) :
    replaceFrom 0 args text = substitute args (pieces args.length text) ↔
      ∀ i < args.length, (pieces args.length text).count (.argument i) ≤ 1 := by
  constructor
  · intro h i
    induction i using Nat.strongRecOn with
    | _ i ih =>
      intro hi
      by_contra hcount
      -- of the first number that occurs twice one is left
      have hleft := infix_replaceFrom_of_count hliteral hresult hi
        (fun k hk => ih k hk (hk.trans hi)) (not_le.1 hcount)
      rw [substitute_nil_pieces, h] at hleft
      exact hresult i hi hleft
  · exact fun hcount => replaceFrom_eq_substitute fun k hk =>
      stepSafe_of_literal hk (hliteral _ (List.getElem_mem hk)) (hresult k hk) (hcount k hk)

/-! ## The message of a call -/

/-- The call gives the message with all numbers replaced at once. -/
def Substitutes (resource : Text → Option Text) (key text : Text) (args : List Text) : Prop :=
  getI18nMsg resource key (some args) = .text (substitute args (pieces args.length text))

instance (resource : Text → Option Text) (key text : Text) (args : List Text) :
    Decidable (Substitutes resource key text args) := inferInstanceAs (Decidable (_ = _))

/-- **Safe steps are enough.** For literal arguments, where the right result
has none of the numbers, the call is right exactly when no number occurs
twice. -/
theorem substitutes_of_stepSafe {resource : Text → Option Text} {key : Text}
    (htext : resource key = some text) (args : List Text) :
    ((∀ k (hk : k < args.length), StepSafe (args.take k) args[k] (pieces args.length text)) →
      Substitutes resource key text args) ∧
    ((∀ arg ∈ args, Js.Literal arg) →
      (∀ i < args.length, ¬ placeholder i <:+: substitute args (pieces args.length text)) →
      (Substitutes resource key text args ↔
        ∀ i < args.length, (pieces args.length text).count (.argument i) ≤ 1)) := by
  have hcall : Substitutes resource key text args ↔
      replaceFrom 0 args text = substitute args (pieces args.length text) := by
    simp only [Substitutes, getI18nMsg, htext, Message.text.injEq]
  rw [hcall]
  exact ⟨replaceFrom_eq_substitute, replaceFrom_eq_substitute_iff⟩

/-- A name and a price, in the order of the message; and two names. -/
theorem substitutes_price :
    Substitutes (fun _ => some "{1} for {0}".toList) [] "{1} for {0}".toList
        ["{0} $1".toList, "tea".toList] ∧
      (Substitutes (fun _ => some "{1} for {0}".toList) [] "{1} for {0}".toList
        ["me".toList, "tea".toList] ↔
          ∀ i < 2, (pieces 2 "{1} for {0}".toList).count (.argument i) ≤ 1) :=
  ⟨(substitutes_of_stepSafe rfl ["{0} $1".toList, "tea".toList]).1 (by decide),
    (substitutes_of_stepSafe rfl ["me".toList, "tea".toList]).2 (by decide) (by decide)⟩

/-- **The second occurrence of a number is left.** -/
theorem not_substitutes_twice :
    ¬ Substitutes (fun _ => some "{0}{0}".toList) [] "{0}{0}".toList ["x".toList] := by
  decide

/-- Two steps that are not safe can make up for each other. -/
example : Substitutes (fun _ => some "{0}{0}{1}$$$'".toList) [] "{0}{0}{1}$$$'".toList
    ["{0}$".toList, "$$$'".toList] := by
  decide

end I18n

end Zooffice
