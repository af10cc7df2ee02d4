import Mathlib.Tactic.IntervalCases
import Zooffice.Js.Text
/-!
# `escape` and `unescape`

A string of JavaScript is a list of 16-bit units. `escape` leaves letters,
digits and some marks as they are and writes every other unit with its
hexadecimal digits, so what it gives is plain text; `unescape` reads the
digits back and takes any other text as it is. It is the inverse
(`unescape_escape`).
-/


namespace Zooffice

namespace Js

/-! ## Definitions -/

/-- A string of JavaScript, as its 16-bit units. -/
abbrev Units : Type := List UInt16

/-- The units of a character, which are two beyond the first 2^16. -/
def unitsOf (c : Char) : Units :=
  let n := c.toNat
  if n < 0x10000 then [UInt16.ofNat n]
  else
    [UInt16.ofNat (0xD800 + (n - 0x10000) / 0x400), UInt16.ofNat (0xDC00 + (n - 0x10000) % 0x400)]

/-- The units of a text. -/
def units (text : Text) : Units := text.flatMap unitsOf

/-- Letters, digits and the marks `@*_+-./`. -/
def isPlain (n : ℕ) : Bool :=
  (48 ≤ n && n ≤ 57) || (65 ≤ n && n ≤ 90) || (97 ≤ n && n ≤ 122) ||
    [64, 42, 95, 43, 45, 46, 47].contains n

/-- The digit of a value below 16. -/
def hexDigit (n : ℕ) : Char := if n < 10 then Char.ofNat (48 + n) else Char.ofNat (55 + n)

def escapeUnit (u : UInt16) : Text :=
  let n := u.toNat
  if isPlain n then [Char.ofNat n]
  else if n < 256 then ['%', hexDigit (n / 16), hexDigit (n % 16)]
  else
    ['%', 'u', hexDigit (n / 4096), hexDigit (n / 256 % 16), hexDigit (n / 16 % 16),
      hexDigit (n % 16)]

def escape (s : Units) : Text := s.flatMap escapeUnit

/-- The unit of so many hexadecimal digits. -/
def readHex (count : ℕ) (text : Text) : Option UInt16 :=
  let digits := text.take count
  if digits.length = count ∧ digits.all (isDigitOf 16) then
    some (UInt16.ofNat (digitsValue 16 digits))
  else none

/-- What is behind a `%`: a unit and the number of letters it is written
with. -/
def readEscape : Text → Option (UInt16 × ℕ)
  | 'u' :: cs => (readHex 4 cs).map fun u => (u, 5)
  | cs => (readHex 2 cs).map fun u => (u, 2)

/-- `unescape`, where so many letters in front have been read already. -/
def unescapeFrom : ℕ → Text → Units
  | _, [] => []
  | read + 1, _ :: cs => unescapeFrom read cs
  | 0, c :: cs =>
      if c = '%' then
        match readEscape cs with
        | some (u, letters) => u :: unescapeFrom letters cs
        | none => unitsOf c ++ unescapeFrom 0 cs
      else unitsOf c ++ unescapeFrom 0 cs

def unescape (text : Text) : Units := unescapeFrom 0 text

/-! ## What is written -/

/-- A character that `escape` can write. -/
def Written (c : Char) : Prop := isPlain c.toNat = true ∨ c = '%'

theorem written_hexDigit {n : ℕ} (h : n < 16) : Written (hexDigit n) := by
  left
  interval_cases n <;> decide

theorem toNat_char_ofNat {n : ℕ} (h : isPlain n = true) : (Char.ofNat n).toNat = n := by
  have hlt : n < 128 := by
    simp only [isPlain, Bool.or_eq_true, Bool.and_eq_true, decide_eq_true_eq,
      List.contains_eq_mem, List.mem_cons, List.not_mem_nil, or_false] at h
    omega
  have hvalid : n.isValidChar := Or.inl (by omega)
  rw [Char.ofNat, dif_pos hvalid]
  rfl

/-- **What is written** are plain characters and the `%`. -/
theorem written_of_mem_escape {s : Units} {c : Char} (h : c ∈ escape s) : Written c := by
  obtain ⟨u, -, hc⟩ := List.mem_flatMap.1 h
  have hu := u.toNat_lt
  have hw₀ : Written '%' := Or.inr rfl
  rw [escapeUnit] at hc
  split at hc
  · next hplain =>
      obtain rfl := List.mem_singleton.1 hc
      left
      rwa [toNat_char_ofNat hplain]
  · split at hc
    · next hlt =>
        simp only [List.mem_cons, List.not_mem_nil, or_false] at hc
        rcases hc with rfl | rfl | rfl
        · exact hw₀
        · exact written_hexDigit (by omega)
        · exact written_hexDigit (by omega)
    · simp only [List.mem_cons, List.not_mem_nil, or_false] at hc
      rcases hc with rfl | rfl | rfl | rfl | rfl | rfl
      · exact hw₀
      · exact Or.inl rfl
      · exact written_hexDigit (by omega)
      · exact written_hexDigit (by omega)
      · exact written_hexDigit (by omega)
      · exact written_hexDigit (by omega)

/-- **A character that is not plain is not written.** -/
theorem not_mem_escape {s : Units} {c : Char} (h : isPlain c.toNat = false) (hc : c ≠ '%') :
    c ∉ escape s := by
  intro hmem
  rcases written_of_mem_escape hmem with hplain | hpercent
  · rw [hplain] at h
    cases h
  · exact hc hpercent

/-! ## The round trip -/

theorem digitValue_hexDigit {n : ℕ} (h : n < 16) : digitValue (hexDigit n) = n := by
  interval_cases n <;> decide

theorem isDigitOf_hexDigit {n : ℕ} (h : n < 16) : isDigitOf 16 (hexDigit n) = true := by
  rw [isDigitOf, digitValue_hexDigit h]
  exact decide_eq_true h

/-- **Digits are read as their value.** -/
theorem readHex_append (values : List ℕ) (h : ∀ n ∈ values, n < 16) (rest : Text) :
    readHex values.length (values.map hexDigit ++ rest) =
      some (UInt16.ofNat (values.foldl (fun n d => 16 * n + d) 0)) := by
  have htake : (values.map hexDigit ++ rest).take values.length = values.map hexDigit :=
    List.take_left' (List.length_map _)
  have hall : (values.map hexDigit).all (isDigitOf 16) = true := by
    rw [List.all_map, List.all_eq_true]
    exact fun n hn => isDigitOf_hexDigit (h n hn)
  have hvalue : ∀ start, (values.map hexDigit).foldl (fun n c => 16 * n + digitValue c) start =
      values.foldl (fun n d => 16 * n + d) start := by
    clear htake hall
    induction values with
    | nil => exact fun _ => rfl
    | cons n values ih =>
        intro start
        rw [List.map_cons, List.foldl_cons, List.foldl_cons,
          ih fun m hm => h m (List.mem_cons_of_mem _ hm),
          digitValue_hexDigit (h n List.mem_cons_self)]
  rw [readHex, htake, if_pos ⟨List.length_map _, hall⟩, digitsValue, hvalue]

theorem unescapeFrom_append (read rest : Text) :
    unescapeFrom read.length (read ++ rest) = unescapeFrom 0 rest := by
  induction read with
  | nil => rfl
  | cons c read ih => rw [List.length_cons, List.cons_append, unescapeFrom, ih]

theorem readEscape_of_head {c : Char} {cs : Text} (h : c ≠ 'u') :
    readEscape (c :: cs) = (readHex 2 (c :: cs)).map fun u => (u, 2) := by
  rw [readEscape]
  rintro cs' hcs
  exact h (List.cons_eq_cons.1 hcs).1

theorem hexDigit_ne {n : ℕ} (h : n < 16) : hexDigit n ≠ 'u' := by
  interval_cases n <;> decide

theorem unescapeFrom_percent (digits : Text) {rest : Text} {u : UInt16}
    (h : readEscape (digits ++ rest) = some (u, digits.length)) :
    unescapeFrom 0 ('%' :: (digits ++ rest)) = u :: unescapeFrom 0 rest := by
  rw [unescapeFrom, if_pos rfl, h]
  simp only [unescapeFrom_append]

/-- **A unit that is written is read back.** -/
theorem unescapeFrom_escapeUnit (u : UInt16) (rest : Text) :
    unescapeFrom 0 (escapeUnit u ++ rest) = u :: unescapeFrom 0 rest := by
  have hu := u.toNat_lt
  have hofNat := UInt16.ofNat_toNat (x := u)
  rw [escapeUnit]
  split
  · next hplain =>
      have hnat := toNat_char_ofNat hplain
      have hne : Char.ofNat u.toNat ≠ '%' := by
        intro h
        rw [← hnat, h] at hplain
        exact absurd hplain (by decide)
      rw [List.singleton_append, unescapeFrom, if_neg hne, unitsOf, hnat, if_pos hu, hofNat,
        List.singleton_append]
  · generalize u.toNat = n at hu hofNat ⊢
    split
    · next hlt =>
        have hread : readHex 2 ([hexDigit (n / 16), hexDigit (n % 16)] ++ rest) =
            some (UInt16.ofNat (16 * (16 * 0 + n / 16) + n % 16)) :=
          readHex_append [n / 16, n % 16] (by simp; omega) rest
        rw [show 16 * (16 * 0 + n / 16) + n % 16 = n by omega, hofNat] at hread
        refine unescapeFrom_percent [hexDigit (n / 16), hexDigit (n % 16)] ?_
        rw [List.cons_append, readEscape_of_head (hexDigit_ne (by omega)), ← List.cons_append,
          hread]
        rfl
    · have hread : readHex 4 ([hexDigit (n / 4096), hexDigit (n / 256 % 16),
          hexDigit (n / 16 % 16), hexDigit (n % 16)] ++ rest) = some (UInt16.ofNat
            (16 * (16 * (16 * (16 * 0 + n / 4096) + n / 256 % 16) + n / 16 % 16) + n % 16)) :=
        readHex_append [n / 4096, n / 256 % 16, n / 16 % 16, n % 16] (by simp; omega) rest
      rw [show 16 * (16 * (16 * (16 * 0 + n / 4096) + n / 256 % 16) + n / 16 % 16) + n % 16 = n by
        omega, hofNat] at hread
      refine unescapeFrom_percent ['u', hexDigit (n / 4096), hexDigit (n / 256 % 16),
        hexDigit (n / 16 % 16), hexDigit (n % 16)] ?_
      rw [List.cons_append, readEscape, hread]
      rfl

/-- **`unescape` is the inverse of `escape`.** -/
theorem unescape_escape (s : Units) : unescape (escape s) = s := by
  rw [unescape, escape]
  induction s with
  | nil => rfl
  | cons u s ih => rw [List.flatMap_cons, unescapeFrom_escapeUnit, ih]

end Js

end Zooffice
