import Mathlib.Data.List.DropRight
import Mathlib.Data.List.TakeWhile
import Zooffice.Js.Number
/-!
# Texts of JavaScript

Trimming a text, and the two ways between texts and whole numbers.
`parseInt` reads what it can of a text: blanks and a sign in front, a
hexadecimal numeral after `0x`, and the digits up to the first other
character (`parseInt_eq_some_iff`). The text of a number from 2^53 on is in
fewer digits than the number has, and is a parameter.
-/


namespace Zooffice

namespace Js

/-- White space and line ends. -/
def isWhiteSpace (c : Char) : Bool :=
  let n := c.toNat
  (9 ≤ n && n ≤ 13) || n == 32 || n == 0xA0 || n == 0x1680 || (0x2000 ≤ n && n ≤ 0x200A) ||
    n == 0x2028 || n == 0x2029 || n == 0x202F || n == 0x205F || n == 0x3000 || n == 0xFEFF

/-- `$.trim`, which is `String.prototype.trim`. -/
def trim (s : Text) : Text := (s.dropWhile isWhiteSpace).rdropWhile isWhiteSpace

/-- The value of a digit, which is beyond every radix for other
characters. -/
def digitValue (c : Char) : ℕ :=
  let n := c.toNat
  if 48 ≤ n ∧ n ≤ 57 then n - 48
  else if 97 ≤ n ∧ n ≤ 122 then n - 87
  else if 65 ≤ n ∧ n ≤ 90 then n - 55
  else 36

/-- The digits of a radix. -/
def isDigitOf (radix : ℕ) (c : Char) : Bool := decide (digitValue c < radix)

/-- The number that digits of a radix mean. -/
def digitsValue (radix : ℕ) (digits : Text) : ℕ :=
  digits.foldl (fun n c => radix * n + digitValue c) 0

/-- The sign in front, which tells whether the number is negative. -/
def readSign : Text → Bool × Text
  | '-' :: t => (true, t)
  | '+' :: t => (false, t)
  | t => (false, t)

/-- The radix, by what is in front of the digits. -/
def readRadix : Text → ℕ × Text
  | '0' :: 'x' :: t => (16, t)
  | '0' :: 'X' :: t => (16, t)
  | t => (10, t)

/-- `parseInt(s)`; it is not a number where this is `none`. -/
def parseInt (s : Text) : Option ℚ :=
  let signed := readSign (s.dropWhile isWhiteSpace)
  let numeral := readRadix signed.2
  let digits := numeral.2.takeWhile (isDigitOf numeral.1)
  if digits.isEmpty then none
  else
    let n := toDouble (digitsValue numeral.1 digits)
    some (if signed.1 then -n else n)

/-- The text of what `parseInt` gives. -/
def numberText (largeText : ℚ → Text) (num : Option ℚ) : Text :=
  match num with
  | none => ['N', 'a', 'N']
  | some num =>
      if |num| ≤ 9007199254740992 then integerText (truncate num) else largeText num

/-! ## What is read of a text -/

/-- The text begins with digits of a radix, and these mean the number. -/
def BeginsWithDigits (radix : ℕ) (t : Text) (n : ℕ) : Prop :=
  ∃ digits rest, t = digits ++ rest ∧ digits ≠ [] ∧ (∀ c ∈ digits, isDigitOf radix c = true) ∧
    (∀ c ∈ rest.head?, isDigitOf radix c = false) ∧ digitsValue radix digits = n

/-- The text begins with a numeral: with or without a plus sign, hexadecimal
after `0x` and decimal else. -/
def BeginsWithNumeral (t : Text) (n : ℕ) : Prop :=
  ∃ body, (t = body ∨ t = '+' :: body) ∧
    ((∃ hex, (body = '0' :: 'x' :: hex ∨ body = '0' :: 'X' :: hex) ∧ BeginsWithDigits 16 hex n) ∨
      (∀ hex, body ≠ '0' :: 'x' :: hex ∧ body ≠ '0' :: 'X' :: hex) ∧ BeginsWithDigits 10 body n)

theorem beginsWithDigits_iff {radix : ℕ} {t : Text} {n : ℕ} : BeginsWithDigits radix t n ↔
    t.takeWhile (isDigitOf radix) ≠ [] ∧
      digitsValue radix (t.takeWhile (isDigitOf radix)) = n := by
  constructor
  · rintro ⟨digits, rest, rfl, hne, hdigits, hrest, hvalue⟩
    have htake : (digits ++ rest).takeWhile (isDigitOf radix) = digits := by
      rw [List.takeWhile_append_of_pos hdigits]
      rcases rest with _ | ⟨c, rest⟩
      · rw [List.takeWhile_nil, List.append_nil]
      · rw [List.takeWhile_cons_of_neg (by simpa using hrest c rfl), List.append_nil]
    rw [htake]
    exact ⟨hne, hvalue⟩
  · rintro ⟨hne, hvalue⟩
    refine ⟨_, t.dropWhile (isDigitOf radix), List.takeWhile_append_dropWhile.symm, hne,
      fun c hc => List.mem_takeWhile_imp hc, fun c hc => ?_, hvalue⟩
    have hhead := List.head?_dropWhile_not (isDigitOf radix) t
    rw [Option.mem_def.1 hc] at hhead
    simpa using hhead

theorem readSign_cases (t : Text) :
    (readSign t).1 = true ∨
      (readSign t).1 = false ∧ (t = (readSign t).2 ∨ t = '+' :: (readSign t).2) := by
  unfold readSign
  split
  · exact Or.inl rfl
  · exact Or.inr ⟨rfl, Or.inr rfl⟩
  · exact Or.inr ⟨rfl, Or.inl rfl⟩

/-- A text that does not begin with a sign has none. -/
theorem readSign_of_head {c : Char} {t : Text} (hminus : c ≠ '-') (hplus : c ≠ '+') :
    readSign (c :: t) = (false, c :: t) := by
  unfold readSign
  split
  · next h => exact absurd (List.cons.inj h).1 hminus
  · next h => exact absurd (List.cons.inj h).1 hplus
  · rfl

theorem readRadix_cases (t : Text) :
    (readRadix t).1 = 16 ∧
        (t = '0' :: 'x' :: (readRadix t).2 ∨ t = '0' :: 'X' :: (readRadix t).2) ∨
      readRadix t = (10, t) ∧ ∀ hex, t ≠ '0' :: 'x' :: hex ∧ t ≠ '0' :: 'X' :: hex := by
  unfold readRadix
  split
  · exact Or.inl ⟨rfl, Or.inl rfl⟩
  · exact Or.inl ⟨rfl, Or.inr rfl⟩
  · next hx hX => exact Or.inr ⟨rfl, fun hex => ⟨hx hex, hX hex⟩⟩

/-- Without `0x` in front it is a decimal. -/
theorem readRadix_of_ne {t : Text}
    (h : ∀ hex, t ≠ '0' :: 'x' :: hex ∧ t ≠ '0' :: 'X' :: hex) : readRadix t = (10, t) := by
  rcases readRadix_cases t with ⟨-, ht | ht⟩ | ⟨ht, -⟩
  · exact absurd ht (h _).1
  · exact absurd ht (h _).2
  · exact ht

/-- **What is behind the sign is read by its radix.** -/
theorem parseInt_eq {t body numeral digits : Text} {radix : ℕ} {negative : Bool}
    (hblank : t.dropWhile isWhiteSpace = t) (hsign : readSign t = (negative, body))
    (hradix : readRadix body = (radix, numeral))
    (hdigits : numeral.takeWhile (isDigitOf radix) = digits) :
    parseInt t = if digits.isEmpty then none else
      some (if negative then -toDouble (digitsValue radix digits)
        else toDouble (digitsValue radix digits)) := by
  rw [parseInt, hblank, hsign]
  dsimp only
  rw [hradix, ← hdigits]

theorem parseInt_of_digits {t body : Text} {radix n : ℕ} {numeral : Text}
    (hblank : t.dropWhile isWhiteSpace = t) (hsign : readSign t = (false, body))
    (hradix : readRadix body = (radix, numeral)) (h : BeginsWithDigits radix numeral n) :
    parseInt t = some (toDouble n) := by
  obtain ⟨hne, hvalue⟩ := beginsWithDigits_iff.1 h
  rw [parseInt_eq hblank hsign hradix rfl, if_neg (by simpa using hne), if_neg (by decide),
    hvalue]

/-- **A text that begins with a numeral** is read as its number. -/
theorem parseInt_of_beginsWithNumeral {t : Text} {n : ℕ}
    (hblank : t.dropWhile isWhiteSpace = t) (h : BeginsWithNumeral t n) :
    parseInt t = some (toDouble n) := by
  obtain ⟨body, ht, ⟨hex, hbody, hdigits⟩ | ⟨hbody, hdigits⟩⟩ := h
  · have hsign : readSign t = (false, body) := by
      rcases hbody with rfl | rfl <;> rcases ht with rfl | rfl <;> rfl
    have hradix : readRadix body = (16, hex) := by
      rcases hbody with rfl | rfl <;> rfl
    exact parseInt_of_digits hblank hsign hradix hdigits
  · have hsign : readSign t = (false, body) := by
      rcases ht with rfl | rfl
      · -- it begins with a digit
        obtain ⟨digits, rest, rfl, hne, hall, -⟩ := hdigits
        rcases digits with _ | ⟨c, digits⟩
        · exact absurd rfl hne
        · have hc := hall c List.mem_cons_self
          refine readSign_of_head (fun heq => ?_) fun heq => ?_
          · rw [heq] at hc
            exact absurd hc (by decide)
          · rw [heq] at hc
            exact absurd hc (by decide)
      · rfl
    exact parseInt_of_digits hblank hsign (readRadix_of_ne hbody) hdigits

/-- **A positive number is read only of such a text.** -/
theorem beginsWithNumeral_of_parseInt {t : Text} {x : ℚ} (hblank : t.dropWhile isWhiteSpace = t)
    (h : parseInt t = some x) (hx : 0 < x) : ∃ n : ℕ, BeginsWithNumeral t n ∧ x = toDouble n := by
  rcases hsign : readSign t with ⟨negative, body⟩
  rcases hradix : readRadix body with ⟨radix, numeral⟩
  have hsigns := readSign_cases t
  have hradixes := readRadix_cases body
  rw [hsign] at hsigns
  rw [hradix] at hradixes
  rw [parseInt_eq hblank hsign hradix rfl] at h
  split at h
  · exact absurd h (Option.some_ne_none x).symm
  · next hne =>
      rw [Option.some_inj] at h
      rcases hsigns with hneg | ⟨hpos, ht⟩
      · -- a minus sign makes it negative
        have hnonneg : 0 ≤ toDouble (digitsValue radix (numeral.takeWhile (isDigitOf radix))) :=
          keeps_toDouble.nonneg (Nat.cast_nonneg _)
        rw [show negative = true from hneg, if_pos rfl] at h
        linarith
      · rw [show negative = false from hpos, if_neg (by decide)] at h
        have hdigits : BeginsWithDigits radix numeral
            (digitsValue radix (numeral.takeWhile (isDigitOf radix))) :=
          beginsWithDigits_iff.2 ⟨by simpa using hne, rfl⟩
        refine ⟨_, ⟨body, ht, ?_⟩, h.symm⟩
        rcases hradixes with ⟨hradix, hbody⟩ | ⟨hradix, hbody⟩
        · rw [show radix = 16 from hradix] at hdigits ⊢
          exact Or.inl ⟨numeral, hbody, hdigits⟩
        · rw [Prod.mk.injEq] at hradix
          rw [hradix.1, hradix.2] at hdigits ⊢
          exact Or.inr ⟨hbody, hdigits⟩

/-- It is a whole number that is rounded, or the negative of one. -/
theorem parseInt_cases (t : Text) : parseInt t = none ∨
    ∃ n : ℕ, parseInt t = some (toDouble n) ∨ parseInt t = some (-toDouble n) := by
  unfold parseInt
  dsimp only
  split
  · exact Or.inl rfl
  · rcases (readSign (t.dropWhile isWhiteSpace)).1 with _ | _
    · exact Or.inr ⟨_, Or.inl rfl⟩
    · exact Or.inr ⟨_, Or.inr rfl⟩

/-- What is trimmed does not begin with a blank. -/
theorem dropWhile_trim (s : Text) : (trim s).dropWhile isWhiteSpace = trim s := by
  rw [trim]
  rcases htrim : (s.dropWhile isWhiteSpace).rdropWhile isWhiteSpace with _ | ⟨c, t⟩
  · rfl
  · -- it begins like what is left when the blanks in front are gone
    obtain ⟨rest, hrest⟩ := List.rdropWhile_prefix isWhiteSpace (s.dropWhile isWhiteSpace)
    have hhead := List.head?_dropWhile_not isWhiteSpace s
    rw [← hrest, htrim, List.cons_append, List.head?_cons] at hhead
    rw [List.dropWhile_cons_of_neg (by simpa using hhead)]

theorem numberText_natCast (largeText : ℚ → Text) {n : ℕ} (h : n ≤ 9007199254740992) :
    numberText largeText (some n) = decimal n := by
  have habs : |(n : ℚ)| ≤ 9007199254740992 := by
    rw [abs_of_nonneg (Nat.cast_nonneg n)]
    exact_mod_cast h
  rw [numberText, if_pos habs, truncate_natCast, integerText_natCast]

/-! ## Splitting -/

/-- The pieces between the separators, where so many letters of a separator
are still to be passed, and what has been read of the piece. -/
def splitFrom (sep : Text) : ℕ → Text → Text → List Text
  | _, piece, [] => [piece]
  | passing + 1, piece, _ :: cs => splitFrom sep passing piece cs
  | 0, piece, c :: cs =>
      if sep.isPrefixOf (c :: cs) then piece :: splitFrom sep (sep.length - 1) [] cs
      else splitFrom sep 0 (piece ++ [c]) cs

/-- `split(sep)`, with a separator that is not empty. -/
def split (sep text : Text) : List Text := splitFrom sep 0 [] text

variable {c : Char} {sep : Text}

theorem splitFrom_of_not_mem {t : Text} (h : c ∉ t) (piece rest : Text) :
    splitFrom (c :: sep) 0 piece (t ++ rest) = splitFrom (c :: sep) 0 (piece ++ t) rest := by
  induction t generalizing piece with
  | nil => rw [List.nil_append, List.append_nil]
  | cons c' t ih =>
      rw [List.mem_cons, not_or] at h
      have hbegins : ¬ (c :: sep).isPrefixOf (c' :: (t ++ rest)) = true := by
        rw [List.isPrefixOf_iff_prefix]
        exact fun hpre => h.1 (List.cons_prefix_cons.1 hpre).1
      rw [List.cons_append, splitFrom, if_neg hbegins, ih h.2, List.append_assoc,
        List.singleton_append]

theorem splitFrom_passing (sep piece : Text) (passed rest : Text) :
    splitFrom sep passed.length piece (passed ++ rest) = splitFrom sep 0 piece rest := by
  induction passed with
  | nil => rfl
  | cons c passed ih => rw [List.length_cons, List.cons_append, splitFrom, ih]

/-- **Splitting undoes joining**, when no piece has the letter that the
separator begins with. -/
theorem split_intercalate {pieces : List Text} (hne : pieces ≠ [])
    (h : ∀ piece ∈ pieces, c ∉ piece) :
    split (c :: sep) ((c :: sep).intercalate pieces) = pieces := by
  rw [split]
  induction pieces with
  | nil => exact absurd rfl hne
  | cons piece pieces ih =>
      have hpiece := h piece List.mem_cons_self
      by_cases hpieces : pieces = []
      · have hread : splitFrom (c :: sep) 0 [] (piece ++ []) = _ :=
          splitFrom_of_not_mem hpiece [] []
        rw [List.append_nil] at hread
        rw [hpieces, List.intercalate_singleton, hread, List.nil_append, splitFrom]
      · have hbegins : (c :: sep).isPrefixOf (c :: (sep ++ (c :: sep).intercalate pieces)) = true :=
          List.isPrefixOf_iff_prefix.2 ⟨_, rfl⟩
        rw [List.intercalate_cons_of_ne_nil hpieces, List.append_assoc, splitFrom_of_not_mem hpiece,
          List.nil_append, List.cons_append, splitFrom, if_pos hbegins, List.length_cons,
          Nat.add_sub_cancel, splitFrom_passing,
          ih hpieces fun p hp => h p (List.mem_cons_of_mem _ hp)]

end Js

end Zooffice
