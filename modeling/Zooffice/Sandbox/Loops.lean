import Zooffice.Sandbox.Buffer
/-!
# The loops of the normalization walk over the names

The first loop drops the empty names, the second the names `.`, and the
third takes a name `..` out together with the name before it, or returns
null when there is none. Together they do what `Path.walk` does over the
names behind the prefix (`removeDots_endsAs`). A separator right behind
the prefix is never looked at: the loops take it for an empty name that a
`..` can still remove (`lead`).

For each loop there is one lemma for what it does at a name (`passes_…`),
and from these, by induction on the names that are left, one for what it
does with all of them (`finishes_…`).
-/


namespace Zooffice

open Zooffice.Path

variable {sep : Char} {b : Buffer} {i : Int}

/-! ## Adjoining slashes -/

/-- The separator that stands behind another goes. -/
theorem passes_removeAdjoining (u ys : Text) (hb : b.Holds (u ++ sep :: sep :: ys))
    (hi : i = u.length + 1) :
    ∃ b', Passes (isAdjoining sep) removeAdjoining i b i b' ∧ b'.Holds (u ++ sep :: ys) ∧
      b'.lastIsDirectory = b.lastIsDirectory := by
  have hsize := hb.size
  simp only [List.length_append, List.length_cons] at hsize
  have hhit : isAdjoining sep i b = .ok true := by
    have h1 : b.Holds ((u ++ [sep]) ++ sep :: ys) := by simpa using hb
    rw [isAdjoining, andAlso, h1.isAt (by simp [hi]), hb.isAt (by omega)]
    simp [Except.bind]
  obtain ⟨array, hcopy, hholds⟩ := Buffer.Holds.arraycopy u [sep] (sep :: ys) hb i (i - 1)
    (b.size - i) (by simp [hi]) (by omega) (by rw [List.length_cons]; omega)
    (by rw [List.length_cons]; omega)
  have hrewrite : removeAdjoining i b =
      .ok (some (i - 1, ⟨array, b.size - 1, b.lastIsDirectory⟩)) := by
    rw [removeAdjoining, hcopy]
    rfl
  have hpass : Passes (isAdjoining sep) removeAdjoining i b (i - 1 + 1) _ :=
    passes_rewrite (by omega) hhit hrewrite (by dsimp only; omega)
  rw [Int.sub_add_cancel] at hpass
  exact ⟨_, hpass, hholds _ _ (by rw [List.length_cons]; omega), rfl⟩

/-- Behind a name that is not empty there is no separator to drop. -/
theorem isAdjoining_of_ne_nil {xs t ys : Text} (hb : b.Holds (xs ++ (t ++ sep :: ys)))
    (ht : sep ∉ t) (hnil : t ≠ []) : isAdjoining sep (xs.length + t.length) b = .ok false := by
  obtain ⟨t, c, rfl⟩ := (List.eq_nil_or_concat' t).resolve_left hnil
  have h1 : b.Holds ((xs ++ (t ++ [c])) ++ sep :: ys) := by simpa using hb
  have h2 : b.Holds ((xs ++ t) ++ c :: (sep :: ys)) := by simpa using hb
  have hc : c ≠ sep := fun h => ht (by simp [h])
  rw [isAdjoining, andAlso, h1.isAt (by grind), h2.isAt (by grind)]
  simp [Except.bind, hc]

/-- **The first loop drops the empty names behind a separator.** -/
theorem finishes_isAdjoining {ts : List Text} {u : Text} (hts : ∀ t ∈ ts, sep ∉ t)
    (hb : b.Holds (u ++ sep :: terminated sep ts)) (hi : i = u.length + 1) :
    ∃ b', Finishes (isAdjoining sep) removeAdjoining i b (some b') ∧
      b'.Holds (u ++ sep :: terminated sep (ts.filter fun t => t ≠ [])) ∧
      b'.lastIsDirectory = b.lastIsDirectory := by
  induction ts generalizing u b i with
  | nil =>
      refine ⟨b, finishes_end hb ?_, hb, rfl⟩
      rw [List.length_append, terminated_nil, List.length_singleton]
      omega
  | cons t ts ih =>
      have hts' : ∀ t ∈ ts, sep ∉ t := fun t ht => hts t (List.mem_cons_of_mem _ ht)
      by_cases hnil : t = []
      · -- an empty name: two separators
        subst hnil
        obtain ⟨b', hpass, hb', hlast⟩ := passes_removeAdjoining u (terminated sep ts) hb hi
        obtain ⟨b'', hfinish, hb'', hlast'⟩ := ih hts' hb' hi
        exact ⟨b'', hpass.finishes hfinish, by simpa using hb'', hlast'.trans hlast⟩
      · have hb1 : b.Holds ((u ++ [sep]) ++ (t ++ sep :: terminated sep ts)) := by
          simpa using hb
        have ht := hts t List.mem_cons_self
        have hpass := passes_name removeAdjoining (separatorFirst_isAdjoining sep) hb1 ht
          (isAdjoining_of_ne_nil hb1 ht hnil) (i := i) (by simp [hi]) (by grind)
        obtain ⟨b', hfinish, hb', hlast⟩ := ih (u := u ++ sep :: t) hts' (by simpa using hb)
          (i := (u ++ [sep]).length + t.length + 1) (by grind)
        exact ⟨b', hpass.finishes hfinish, by simpa [hnil] using hb', hlast⟩

/-! ## Dot slash -/

/-- Where a name begins: at the end of the prefix, or behind a separator. -/
def AtName (sep : Char) (p : Nat) (xs : Text) : Prop :=
  xs.length = p ∨ ∃ u, xs = u ++ [sep] ∧ p ≤ u.length

theorem AtName.le_length {p : Nat} {xs : Text} (h : AtName sep p xs) : p ≤ xs.length := by
  rcases h with h | ⟨u, rfl, h⟩
  · omega
  · rw [List.length_append]
    omega

/-- The next name begins behind the separator. -/
theorem AtName.next {p : Nat} {xs : Text} (h : AtName sep p xs) (t : Text) :
    AtName sep p (xs ++ (t ++ [sep])) := by
  have hle := h.le_length
  refine .inr ⟨xs ++ t, by simp, ?_⟩
  rw [List.length_append]
  omega

/-- The test holds behind the name `.`. -/
theorem isDotSlash_of_dot {p : Nat} {xs ys : Text} (hp : AtName sep p xs)
    (hb : b.Holds (xs ++ '.' :: sep :: ys)) : isDotSlash sep p (xs.length + 1) b = .ok true := by
  have h1 : b.Holds ((xs ++ ['.']) ++ sep :: ys) := by simpa using hb
  rw [isDotSlash, andAlso, h1.isAt (by simp), andAlso, hb.isAt (by omega)]
  rcases hp with hp | ⟨u, rfl, -⟩
  · rw [if_pos (by omega)]
    simp [Except.bind]
  · -- the name is not the first: the separator before it is looked at
    have h2 : b.Holds (u ++ sep :: ('.' :: sep :: ys)) := by simpa using hb
    rw [h2.isAt (by grind)]
    simp [Except.bind]

/-- The test fails behind any other name. -/
theorem isDotSlash_of_ne {p : Nat} {xs t ys : Text} (hp : AtName sep p xs)
    (hb : b.Holds (xs ++ (t ++ sep :: ys))) (ht : sep ∉ t) (hnil : t ≠ []) (hdot : t ≠ ['.']) :
    isDotSlash sep p (xs.length + t.length) b = .ok false := by
  have hle := hp.le_length
  obtain ⟨t, c, rfl⟩ := (List.eq_nil_or_concat' t).resolve_left hnil
  have h1 : b.Holds ((xs ++ (t ++ [c])) ++ sep :: ys) := by simpa using hb
  have h2 : b.Holds ((xs ++ t) ++ c :: (sep :: ys)) := by simpa using hb
  rw [isDotSlash, andAlso, h1.isAt (by grind), andAlso, h2.isAt (by grind)]
  by_cases hc : c = '.'
  · -- the name is longer than the dot
    subst hc
    obtain ⟨t, c, rfl⟩ := (List.eq_nil_or_concat' t).resolve_left fun h => hdot (by rw [h]; rfl)
    have h3 : b.Holds ((xs ++ t) ++ c :: ('.' :: sep :: ys)) := by simpa using hb
    have hcsep : c ≠ sep := fun h => ht (by simp [h])
    rw [if_neg (by grind), h3.isAt (by grind)]
    simp [Except.bind, hcsep]
  · simp [Except.bind, hc]

/-- How a rewrite notes that nothing stands behind the name it removes. -/
theorem lastIsDirectory_eq {x n : Int} (ys : Text) (last : Bool) (h : x = n ↔ ys.length = 0) :
    (if x = n then true else last) = (last || decide (ys = [])) := by
  have hiff : x = n ↔ ys = [] := by rw [h, List.length_eq_zero_iff]
  by_cases hys : ys = []
  · rw [if_pos (hiff.2 hys)]
    simp [hys]
  · rw [if_neg fun hx => hys (hiff.1 hx)]
    simp [hys]

/-- The name `.` goes with the separator behind it. -/
theorem passes_removeDot {p : Nat} {xs ys : Text} (hp : AtName sep p xs)
    (hb : b.Holds (xs ++ '.' :: sep :: ys)) (hi : i = xs.length + 1) :
    ∃ b', Passes (isDotSlash sep p) removeDot i b i b' ∧ b'.Holds (xs ++ ys) ∧
      b'.lastIsDirectory = (b.lastIsDirectory || decide (ys = [])) := by
  have hsize := hb.size
  simp only [List.length_append, List.length_cons] at hsize
  have hhit : isDotSlash sep p i b = .ok true := hi ▸ isDotSlash_of_dot hp hb
  obtain ⟨array, hcopy, hholds⟩ := Buffer.Holds.arraycopy xs ['.', sep] ys
    (by simpa using hb) (i + 1) (i - 1) (b.size - i)
    (by simp only [List.length_cons, List.length_nil]; omega) (by omega) (by omega) (by omega)
  have hrewrite : removeDot i b = .ok (some (i - 1,
      ⟨array, b.size - 2, b.lastIsDirectory || decide (ys = [])⟩)) := by
    rw [removeDot, hcopy, lastIsDirectory_eq ys _ (by omega)]
    rfl
  have hpass : Passes (isDotSlash sep p) removeDot i b (i - 1 + 1) _ :=
    passes_rewrite (by omega) hhit hrewrite (by dsimp only; omega)
  rw [Int.sub_add_cancel] at hpass
  exact ⟨_, hpass, hholds _ _ (by omega), rfl⟩

/-- Whether the last name is a certain one, with that one in front. -/
theorem getLast?_cons_self (d : Text) (ts : List Text) :
    decide ((d :: ts).getLast? = some d) =
      (decide (terminated sep ts = []) || decide (ts.getLast? = some d)) := by
  rcases ts with _ | ⟨t, ts⟩
  · simp
  · simp [List.getLast?_cons_cons]

/-- And with another one in front. -/
theorem getLast?_cons_of_ne {t d : Text} (h : t ≠ d) (ts : List Text) :
    decide ((t :: ts).getLast? = some d) = decide (ts.getLast? = some d) := by
  rcases ts with _ | ⟨t', ts⟩
  · simp [h]
  · rw [List.getLast?_cons_cons]

/-- **The second loop drops the names `.`**, and notes whether the last
name was one. -/
theorem finishes_isDotSlash {p : Nat} {ts : List Text} {xs : Text} (hp : AtName sep p xs)
    (hts : ∀ t ∈ ts, sep ∉ t) (hnil : ∀ t ∈ ts, t ≠ [])
    (hb : b.Holds (xs ++ terminated sep ts)) (hi : (xs.length : Int) ≤ i)
    (hi' : i ≤ xs.length + 1) :
    ∃ b', Finishes (isDotSlash sep p) removeDot i b (some b') ∧
      b'.Holds (xs ++ terminated sep (ts.filter fun t => t ≠ ['.'])) ∧
      b'.lastIsDirectory = (b.lastIsDirectory || decide (ts.getLast? = some ['.'])) := by
  induction ts generalizing xs b i with
  | nil =>
      rw [terminated_nil, List.append_nil] at hb
      refine ⟨b, finishes_end hb hi, ?_, by simp⟩
      simpa using hb
  | cons t ts ih =>
      have hts' : ∀ t ∈ ts, sep ∉ t := fun t ht => hts t (List.mem_cons_of_mem _ ht)
      have hnil' : ∀ t ∈ ts, t ≠ [] := fun t ht => hnil t (List.mem_cons_of_mem _ ht)
      have ht := hts t List.mem_cons_self
      have htnil := hnil t List.mem_cons_self
      have htpos : 0 < t.length := List.length_pos_iff.2 htnil
      rw [terminated_cons] at hb
      by_cases hdot : t = ['.']
      · subst hdot
        have hletters := passes_letters removeDot (separatorFirst_isDotSlash sep p) hb ht hi hi'
        rw [List.length_singleton, Int.natCast_one] at hletters
        obtain ⟨b', hpass, hb', hlast⟩ := passes_removeDot hp hb rfl
        obtain ⟨b'', hfinish, hb'', hlast'⟩ := ih hp hts' hnil' hb' (i := xs.length + 1)
          (by omega) (by omega)
        refine ⟨b'', hletters.finishes (hpass.finishes hfinish), by simpa using hb'', ?_⟩
        rw [hlast', hlast, Bool.or_assoc, getLast?_cons_self]
      · have hpass := passes_name removeDot (separatorFirst_isDotSlash sep p) hb ht
          (isDotSlash_of_ne hp hb ht htnil hdot) hi (by omega)
        obtain ⟨b', hfinish, hb', hlast⟩ := ih (hp.next t) hts' hnil' (by simpa using hb)
          (i := xs.length + t.length + 1) (by grind) (by grind)
        refine ⟨b', hpass.finishes hfinish, by simpa [hdot] using hb', ?_⟩
        rw [hlast, getLast?_cons_of_ne hdot]

/-! ## Double dot slash -/

theorem atName_terminated (sep : Char) (pre : Text) (st : List Text) :
    AtName sep pre.length (pre ++ terminated sep st) := by
  rcases List.eq_nil_or_concat' st with rfl | ⟨st, s, rfl⟩
  · exact .inl (by simp)
  · refine .inr ⟨pre ++ (terminated sep st ++ s), by simp, ?_⟩
    rw [List.length_append]
    omega

/-- The test holds behind the name `..`. -/
theorem isDoubleDotSlash_of_dots {p : Nat} {xs ys : Text} (hp : AtName sep p xs)
    (hb : b.Holds (xs ++ '.' :: '.' :: sep :: ys)) :
    isDoubleDotSlash sep p (xs.length + 2) b = .ok true := by
  have h1 : b.Holds ((xs ++ ['.', '.']) ++ sep :: ys) := by simpa using hb
  have h2 : b.Holds ((xs ++ ['.']) ++ '.' :: (sep :: ys)) := by simpa using hb
  rw [isDoubleDotSlash, andAlso, h1.isAt (by simp), andAlso, h2.isAt (by grind), andAlso,
    hb.isAt (by omega)]
  rcases hp with hp | ⟨u, rfl, -⟩
  · rw [if_pos (by omega)]
    simp [Except.bind]
  · -- the name is not the first: the separator before it is looked at
    have h3 : b.Holds (u ++ sep :: ('.' :: '.' :: sep :: ys)) := by simpa using hb
    rw [h3.isAt (by grind)]
    simp [Except.bind]

/-- The test fails behind any other name but `.`. -/
theorem isDoubleDotSlash_of_ne {p : Nat} {xs t ys : Text} (hp : AtName sep p xs)
    (hb : b.Holds (xs ++ (t ++ sep :: ys))) (ht : Proper sep '.' t) :
    isDoubleDotSlash sep p (xs.length + t.length) b = .ok false := by
  have hle := hp.le_length
  obtain ⟨t, c, rfl⟩ := (List.eq_nil_or_concat' t).resolve_left ht.ne_nil
  have h1 : b.Holds ((xs ++ (t ++ [c])) ++ sep :: ys) := by simpa using hb
  have h2 : b.Holds ((xs ++ t) ++ c :: (sep :: ys)) := by simpa using hb
  rw [isDoubleDotSlash, andAlso, h1.isAt (by grind), andAlso, h2.isAt (by grind)]
  by_cases hc : c = '.'
  · -- the name is longer than one dot
    subst hc
    obtain ⟨t, c, rfl⟩ :=
      (List.eq_nil_or_concat' t).resolve_left fun h => ht.ne_dot (by rw [h]; rfl)
    have h3 : b.Holds ((xs ++ t) ++ c :: ('.' :: sep :: ys)) := by simpa using hb
    rw [andAlso, h3.isAt (by grind)]
    by_cases hc : c = '.'
    · -- the name is longer than the two dots
      subst hc
      obtain ⟨t, c, rfl⟩ :=
        (List.eq_nil_or_concat' t).resolve_left fun h => ht.ne_dots (by rw [h]; rfl)
      have h4 : b.Holds ((xs ++ t) ++ c :: ('.' :: '.' :: sep :: ys)) := by simpa using hb
      have hcsep : c ≠ sep := fun h => ht.not_mem (by simp [h])
      rw [if_neg (by grind), h4.isAt (by grind)]
      simp [Except.bind, hcsep]
    · simp [Except.bind, hc]
  · simp [Except.bind, hc]

/-- Among the letters of a name there is no separator. -/
theorem lastSeparator_of_letters {pre t ys : Text} (hb : b.Holds (pre ++ (t ++ ys)))
    (ht : sep ∉ t) {n : Nat} (hn : n ≤ t.length) :
    lastSeparator b.array sep pre.length n = .ok none := by
  induction n with
  | zero => rfl
  | succ n ih =>
      rw [lastSeparator, hb.isAt_letter ht (k := n) (by omega) rfl]
      exact ih (by omega)

/-- The separator before a name is found. -/
theorem lastSeparator_of_separator {pre u t ys : Text}
    (hb : b.Holds (pre ++ (u ++ sep :: (t ++ ys)))) (ht : sep ∉ t) {n : Nat}
    (hn : n ≤ t.length) :
    lastSeparator b.array sep pre.length (u.length + 1 + n) =
      .ok (some (pre.length + u.length)) := by
  induction n with
  | zero =>
      have h1 : b.Holds ((pre ++ u) ++ sep :: (t ++ ys)) := by simpa using hb
      rw [Nat.add_zero, lastSeparator, h1.isAt (by simp)]
      simp [Except.bind]
  | succ n ih =>
      have h1 : b.Holds ((pre ++ (u ++ [sep])) ++ (t ++ ys)) := by simpa using hb
      rw [← Nat.add_assoc, lastSeparator, h1.isAt_letter ht (k := n) (by omega) (by grind)]
      exact ih (by omega)

/-- The separator in front of a name is looked for among what is behind
the prefix: there is none when the name is the first. -/
theorem lastSeparator_before {pre s ys : Text} {st : List Text} (hs : sep ∉ s)
    (hb : b.Holds (pre ++ (terminated sep st ++ (s ++ ys)))) :
    lastSeparator b.array sep pre.length ((terminated sep st).length + s.length) =
      .ok (if st = [] then none else some ((pre ++ terminated sep st).length - 1)) := by
  rcases List.eq_nil_or_concat' st with rfl | ⟨st, r, rfl⟩
  · have hletters : b.Holds (pre ++ (s ++ ys)) := by simpa using hb
    rw [terminated_nil, List.length_nil, Nat.zero_add, if_pos rfl]
    exact lastSeparator_of_letters hletters hs (Nat.le_refl _)
  · have hu : b.Holds (pre ++ ((terminated sep st ++ r) ++ sep :: (s ++ ys))) := by
      simpa using hb
    have hlength : (terminated sep (st ++ [r])).length = (terminated sep st ++ r).length + 1 := by
      simp [Nat.add_assoc]
    have hbefore : ((pre ++ terminated sep (st ++ [r])).length : Int) - 1 =
        pre.length + (terminated sep st ++ r).length := by
      rw [List.length_append, hlength]
      omega
    rw [if_neg (by simp), hlength, hbefore]
    exact lastSeparator_of_separator hu hs (Nat.le_refl _)

/-- Where the third loop is when it comes to the next name: at the first
letter, or one behind; two behind only when nothing is in front. -/
def Standing (sep : Char) (pre : Text) (st : List Text) (i : Int) : Prop :=
  ((pre ++ terminated sep st).length : Int) ≤ i ∧
    (i ≤ (pre ++ terminated sep st).length + 1 ∨ st = [] ∧ i = pre.length + 2)

/-- The rest is moved over the name, and the loop goes on in front of the
name that stood behind. -/
theorem exists_removeDoubleDot {pre s ys array : Text} {st : List Text} {d : Int}
    (hd : d = pre.length + (terminated sep st).length) (hi : i = d + s.length + 3)
    (hsize : b.size = d + s.length + 4 + ys.length)
    (hbefore : lastSeparator b.array sep pre.length (i - 4 - pre.length + 1).toNat =
      .ok (if st = [] then none else some (d - 1)))
    (hcopy : arraycopy b.array (i + 1) d (b.size - i) = .ok array) :
    ∃ i', removeDoubleDot sep pre.length i b = .ok (some (i',
        ⟨array, b.size - (i + 1 - d), b.lastIsDirectory || decide (ys = [])⟩)) ∧
      d ≤ i' ∧ Standing sep pre st (i' + 1) := by
  have hlength : ((pre ++ terminated sep st).length : Int) = d := by
    rw [hd, List.length_append]
    omega
  rw [removeDoubleDot, if_neg (by omega), lastIsDirectory_eq ys _ (by omega), hbefore]
  by_cases hst : st = []
  · -- the name is the first one
    have hpre : d = pre.length := by
      rw [hd, hst, terminated_nil, List.length_nil]
      omega
    rw [if_pos hst]
    refine ⟨pre.length + 1, ?_, by omega, by omega, .inr ⟨hst, by omega⟩⟩
    rw [hpre] at hcopy ⊢
    simp only [Except.bind, removeName, hcopy]
  · have hdest : d - 1 + 1 = d := by omega
    have hshift : i - (d - 1) = i + 1 - d := by omega
    rw [if_neg hst]
    refine ⟨d, ?_, Int.le_refl d, by omega, .inl (by omega)⟩
    simp only [Except.bind, removeName, hdest, hshift, hcopy]

/-- The name `..` goes with the name before it. -/
theorem passes_removeDoubleDot {pre s : Text} (ys : Text) {st : List Text} (hs : sep ∉ s)
    (hb : b.Holds (pre ++ (terminated sep (st ++ [s]) ++ '.' :: '.' :: sep :: ys)))
    (hi : i = (pre ++ terminated sep (st ++ [s])).length + 2) :
    ∃ i' b', Passes (isDoubleDotSlash sep pre.length) (removeDoubleDot sep pre.length) i b i' b' ∧
      b'.Holds (pre ++ (terminated sep st ++ ys)) ∧
      b'.lastIsDirectory = (b.lastIsDirectory || decide (ys = [])) ∧ Standing sep pre st i' := by
  have hhit : isDoubleDotSlash sep pre.length i b = .ok true :=
    hi ▸ isDoubleDotSlash_of_dots (atName_terminated sep pre (st ++ [s])) (by simpa using hb)
  -- the name begins at `d`, where the rest is moved to
  obtain ⟨d, hd⟩ : ∃ d : Int, d = pre.length + (terminated sep st).length := ⟨_, rfl⟩
  have hlength : ((pre ++ terminated sep st).length : Int) = d := by
    rw [hd, List.length_append]
    omega
  have hi' : i = d + s.length + 3 := by
    rw [hi, hd]
    simp only [terminated_append, terminated_cons, terminated_nil, List.length_append,
      List.length_cons, List.length_nil]
    omega
  have hsize : b.size = d + s.length + 4 + ys.length := by
    rw [hb.size, hd]
    simp only [terminated_append, terminated_cons, terminated_nil, List.length_append,
      List.length_cons, List.length_nil]
    omega
  obtain ⟨array, hcopy, hholds⟩ := Buffer.Holds.arraycopy (pre ++ terminated sep st)
    (s ++ sep :: '.' :: '.' :: [sep]) ys (by simpa using hb) (i + 1) d (b.size - i)
    (by simp only [List.length_append, List.length_cons, List.length_nil]; omega) hlength.symm
    (by omega) (by omega)
  have hholds' := hholds (b.size - (i + 1 - d)) (b.lastIsDirectory || decide (ys = []))
    (by rw [hlength]; omega)
  rw [List.append_assoc] at hholds'
  have hn : (i - 4 - pre.length + 1).toNat = (terminated sep st).length + s.length := by omega
  have hbefore : lastSeparator b.array sep pre.length (i - 4 - pre.length + 1).toNat =
      .ok (if st = [] then none else some (d - 1)) := by
    have hb' : b.Holds (pre ++ (terminated sep st ++ (s ++ sep :: '.' :: '.' :: sep :: ys))) := by
      simpa using hb
    rw [hn, lastSeparator_before hs hb', hlength]
  obtain ⟨i', hrewrite, hle, hstanding⟩ := exists_removeDoubleDot hd hi' hsize hbefore hcopy
  refine ⟨i' + 1, _, passes_rewrite (by omega) hhit hrewrite ?_, hholds', rfl, hstanding⟩
  dsimp only
  omega

/-- How a loop that may return null ends: it does when there is no
directory, and else the names of the directory stand behind the prefix. -/
def EndsAs (sep : Char) (pre : Text) (last : Bool) : Option (List Text) → Option Buffer → Prop
  | none, o => o = none
  | some st, o =>
      ∃ b, o = some b ∧ b.Holds (pre ++ terminated sep st) ∧ b.lastIsDirectory = last

/-- A name of its own is passed over, and stands in front of the next. -/
theorem passes_proper {pre t : Text} (ys : Text) {st : List Text} (ht : Proper sep '.' t)
    (hb : b.Holds (pre ++ (terminated sep st ++ (t ++ sep :: ys)))) (hi : Standing sep pre st i) :
    ∃ i', Passes (isDoubleDotSlash sep pre.length) (removeDoubleDot sep pre.length) i b i' b ∧
      Standing sep pre (st ++ [t]) i' := by
  have hat := atName_terminated sep pre st
  have hprefix := hat.le_length
  have htpos : 0 < t.length := List.length_pos_iff.2 ht.ne_nil
  have hlength : (pre ++ terminated sep (st ++ [t])).length =
      (pre ++ terminated sep st).length + t.length + 1 := by
    simp [Nat.add_assoc]
  obtain ⟨hle, hnear⟩ := hi
  rw [← List.append_assoc] at hb
  refine ⟨(pre ++ terminated sep st).length + t.length + 1, ?_, by omega, .inl (by omega)⟩
  by_cases hpast : i ≤ (pre ++ terminated sep st).length + t.length
  · exact passes_name _ (separatorFirst_isDoubleDotSlash sep pre.length) hb ht.not_mem
      (isDoubleDotSlash_of_ne hat hb ht) hle hpast
  · -- the index is behind the separator already
    obtain rfl : i = (pre ++ terminated sep st).length + t.length + 1 := by omega
    exact Passes.refl

/-- The letters of a `..` are passed over, up to the separator behind. -/
theorem passes_dots {pre ys : Text} {st : List Text} (hsep : sep ∉ ['.', '.'])
    (hb : b.Holds (pre ++ terminated sep st ++ (['.', '.'] ++ sep :: ys)))
    (hi : Standing sep pre st i) :
    Passes (isDoubleDotSlash sep pre.length) (removeDoubleDot sep pre.length) i b
      ((pre ++ terminated sep st).length + 2) b := by
  have hlength := (atName_terminated sep pre st).le_length
  have hnear := hi.2
  have hletters := passes_letters (removeDoubleDot sep pre.length)
    (separatorFirst_isDoubleDotSlash sep pre.length) hb hsep hi.1 (by grind)
  simpa using hletters

/-- A `..` with no name before it ends the loop with null. -/
theorem finishes_leave_root {pre ys : Text}
    (hb : b.Holds (pre ++ terminated sep [] ++ (['.', '.'] ++ sep :: ys))) :
    Finishes (isDoubleDotSlash sep pre.length) (removeDoubleDot sep pre.length)
      ((pre ++ terminated sep []).length + 2) b none := by
  have hsize := hb.size
  simp only [List.length_append, List.length_cons] at hsize
  have hreturn : removeDoubleDot sep pre.length ((pre ++ terminated sep []).length + 2) b =
      .ok none := by
    rw [removeDoubleDot, if_pos (by simp)]
  exact finishes_return (by grind) (isDoubleDotSlash_of_dots (atName_terminated sep pre []) hb)
    hreturn

/-- **The third loop walks over the names**, keeping in front of it the
names of the directory that it has come to. -/
theorem finishes_isDoubleDotSlash {pre : Text} {ts st : List Text} (hst : ∀ s ∈ st, sep ∉ s)
    (hts : ∀ t ∈ ts, sep ∉ t) (hnil : ∀ t ∈ ts, t ≠ []) (hdot : ∀ t ∈ ts, t ≠ ['.'])
    (hb : b.Holds (pre ++ (terminated sep st ++ terminated sep ts)))
    (hi : Standing sep pre st i) :
    ∃ o, Finishes (isDoubleDotSlash sep pre.length) (removeDoubleDot sep pre.length) i b o ∧
      EndsAs sep pre (b.lastIsDirectory || decide (ts.getLast? = some ['.', '.']))
        (walk '.' st ts) o := by
  induction ts generalizing st b i with
  | nil =>
      rw [terminated_nil, List.append_nil] at hb
      exact ⟨some b, finishes_end hb hi.1, b, rfl, hb, by simp⟩
  | cons t ts ih =>
      have hts' : ∀ t ∈ ts, sep ∉ t := fun t ht => hts t (List.mem_cons_of_mem _ ht)
      have hnil' : ∀ t ∈ ts, t ≠ [] := fun t ht => hnil t (List.mem_cons_of_mem _ ht)
      have hdot' : ∀ t ∈ ts, t ≠ ['.'] := fun t ht => hdot t (List.mem_cons_of_mem _ ht)
      have ht := hts t List.mem_cons_self
      rw [terminated_cons, ← List.append_assoc] at hb
      by_cases hdots : t = ['.', '.']
      · subst hdots
        have hdotsPass := passes_dots ht hb hi
        rcases List.eq_nil_or_concat' st with rfl | ⟨st, s, rfl⟩
        · -- nothing to leave: null
          exact ⟨none, hdotsPass.finishes (finishes_leave_root hb), by simp [walk, EndsAs]⟩
        · have hs : sep ∉ s := hst s (by simp)
          have hst' : ∀ s ∈ st, sep ∉ s := fun s hs => hst s (List.mem_append_left _ hs)
          obtain ⟨i', b', hpass, hb', hlast, hi'⟩ := passes_removeDoubleDot
            (terminated sep ts) hs (by simpa using hb) rfl
          obtain ⟨o, hfinish, ho⟩ := ih hst' hts' hnil' hdot' hb' hi'
          have hwalk : walk '.' (st ++ [s]) (['.', '.'] :: ts) = walk '.' st ts := by
            simp [walk, enter]
          rw [hlast, Bool.or_assoc, ← getLast?_cons_self] at ho
          rw [hwalk]
          exact ⟨o, hdotsPass.finishes (hpass.finishes hfinish), ho⟩
      · -- a name of its own is put on top
        have hproper : Proper sep '.' t :=
          ⟨hnil t List.mem_cons_self, hdot t List.mem_cons_self, hdots, ht⟩
        have hwalk : walk '.' st (t :: ts) = walk '.' (st ++ [t]) ts := by
          rw [walk, if_neg (fun h => hdots h.1), enter_of_proper hproper]
        have hst' : ∀ s ∈ st ++ [t], sep ∉ s := by
          intro s hs
          rcases List.mem_append.1 hs with hs | hs
          · exact hst s hs
          · rw [List.mem_singleton] at hs
            rwa [hs]
        obtain ⟨i', hpass, hi'⟩ := passes_proper (terminated sep ts) hproper
          (by simpa using hb) hi
        obtain ⟨o, hfinish, ho⟩ := ih hst' hts' hnil' hdot' (by simpa using hb) hi'
        rw [hwalk, getLast?_cons_of_ne hdots]
        exact ⟨o, hpass.finishes hfinish, ho⟩

/-! ## The three loops together -/

/-- The empty name that a text begins with: where the prefix is followed
by a separator, the loops keep that one as if it were a name. -/
def lead (sep : Char) (rest : Text) : List Text := if rest.head? = some sep then [[]] else []

theorem lead_terminated_cons (t : Text) (ts : List Text) (ht : sep ∉ t) :
    lead sep (terminated sep (t :: ts)) = if t = [] then [[]] else [] := by
  rcases t with _ | ⟨c, t⟩
  · simp [lead]
  · have hc : c ≠ sep := fun h => ht (by simp [h])
    simp [lead, hc]

/-- The first loop, from where it starts. -/
theorem finishes_isAdjoining_start {pre : Text} {ts : List Text} (hts : ∀ t ∈ ts, sep ∉ t)
    (hb : b.Holds (pre ++ terminated sep ts)) :
    ∃ b', Finishes (isAdjoining sep) removeAdjoining (pre.length + 1) b (some b') ∧
      b'.Holds (pre ++ (terminated sep (lead sep (terminated sep ts)) ++
        terminated sep (ts.filter fun t => t ≠ []))) ∧
      b'.lastIsDirectory = b.lastIsDirectory := by
  rcases ts with _ | ⟨t, ts⟩
  · refine ⟨b, finishes_end hb ?_, by simpa [lead] using hb, rfl⟩
    rw [terminated_nil, List.append_nil]
    omega
  · have hts' : ∀ t ∈ ts, sep ∉ t := fun t ht => hts t (List.mem_cons_of_mem _ ht)
    have ht := hts t List.mem_cons_self
    rw [lead_terminated_cons t ts ht]
    rw [terminated_cons] at hb
    by_cases hnil : t = []
    · -- a separator right behind the prefix is not looked at
      subst hnil
      obtain ⟨b', hfinish, hb', hlast⟩ := finishes_isAdjoining (u := pre) hts' hb
        (i := pre.length + 1) rfl
      exact ⟨b', hfinish, by simpa using hb', hlast⟩
    · have htpos : 0 < t.length := List.length_pos_iff.2 hnil
      have hpass := passes_name removeAdjoining (separatorFirst_isAdjoining sep) hb ht
        (isAdjoining_of_ne_nil hb ht hnil) (i := pre.length + 1) (by omega) (by omega)
      obtain ⟨b', hfinish, hb', hlast⟩ := finishes_isAdjoining (u := pre ++ t) hts'
        (by simpa using hb) (i := pre.length + t.length + 1) (by grind)
      exact ⟨b', hpass.finishes hfinish, by simpa [hnil] using hb', hlast⟩

/-- The last name sends back to a directory. -/
def endsInDots (ns : List Text) : Bool :=
  ns.getLast? = some ['.'] || ns.getLast? = some ['.', '.']

/-- What the second and the third loop note about the last name. -/
theorem endsInDots_eq (ns : List Text) :
    (decide (ns.getLast? = some ['.']) ||
      decide ((ns.filter fun t => t ≠ ['.']).getLast? = some ['.', '.'])) = endsInDots ns := by
  rcases List.eq_nil_or_concat' ns with rfl | ⟨ns, n, rfl⟩
  · rfl
  · by_cases hn : n = ['.']
    · simp [endsInDots, hn]
    · simp [endsInDots, List.filter_append, hn]

/-- **The three loops walk over the names behind the prefix.** -/
theorem removeDots_endsAs {pre : Text} {ts : List Text} (hts : ∀ t ∈ ts, sep ∉ t)
    (hb : b.Holds (pre ++ terminated sep ts)) :
    ∃ o, removeDots sep pre.length b = .ok o ∧
      EndsAs sep pre (b.lastIsDirectory || endsInDots (names sep (terminated sep ts)))
        (walk '.' (lead sep (terminated sep ts)) (names sep (terminated sep ts))) o := by
  rw [names_terminated hts]
  obtain ⟨b1, hfinish1, hb1, hlast1⟩ := finishes_isAdjoining_start hts hb
  -- the names in front of the second loop: none, or the empty one
  have hlead : lead sep (terminated sep ts) = [] ∨ lead sep (terminated sep ts) = [[]] := by
    unfold lead
    split
    · exact .inr rfl
    · exact .inl rfl
  generalize lead sep (terminated sep ts) = st at hb1 hlead ⊢
  have hst : ∀ s ∈ st, sep ∉ s := by
    rcases hlead with rfl | rfl <;> simp
  have hstart : (pre ++ terminated sep st).length = pre.length ∧ st = [] ∨
      (pre ++ terminated sep st).length = pre.length + 1 := by
    rcases hlead with rfl | rfl
    · exact .inl ⟨by simp, rfl⟩
    · exact .inr (by simp)
  have hmem : ∀ t ∈ ts.filter fun t => t ≠ [], sep ∉ t := fun t ht => hts t (List.mem_filter.1 ht).1
  have hnil : ∀ t ∈ ts.filter fun t => t ≠ [], t ≠ [] := fun t ht => by
    simpa using (List.mem_filter.1 ht).2
  generalize ts.filter (fun t => t ≠ []) = ns at hb1 hmem hnil ⊢
  obtain ⟨b2, hfinish2, hb2, hlast2⟩ := finishes_isDotSlash (atName_terminated sep pre st) hmem
    hnil (by simpa using hb1) (i := pre.length + 1) (by omega) (by omega)
  have hdot : ∀ t ∈ ns.filter fun t => t ≠ ['.'], t ≠ ['.'] := fun t ht => by
    simpa using (List.mem_filter.1 ht).2
  rw [List.append_assoc] at hb2
  obtain ⟨o, hfinish3, ho⟩ := finishes_isDoubleDotSlash (i := pre.length + 2) hst
    (fun t ht => hmem t (List.mem_filter.1 ht).1) (fun t ht => hnil t (List.mem_filter.1 ht).1)
    hdot hb2 ⟨by omega, hstart.symm.imp (fun h => by omega) fun h => ⟨h.2, rfl⟩⟩
  refine ⟨o, ?_, ?_⟩
  · rw [removeDots, hfinish1.scanFrom]
    simp only [Except.bind, hfinish2.scanFrom, hfinish3.scanFrom]
  · have hwalk := walk_filter '.' (fun t => t ≠ ['.'])
      (fun n hn => .inr (by simpa using hn)) st ns
    rw [hwalk, hlast2, hlast1, Bool.or_assoc, endsInDots_eq] at ho
    exact ho

end Zooffice
