import Mathlib.Algebra.Ring.Nat
import Mathlib.Data.List.Basic
/-!
# Decimal numerals

The decimal text of a number and the text of at least two digits. Both are
read back as the number (`ofDigitChars_decimal`, `ofDigitChars_padded`),
and the first is the only text without a needless zero in front that is
(`Canonical.eq_decimal`).
-/


namespace Zooffice

/-- The decimal text of a number. -/
def decimal (n : Nat) : List Char := Nat.toDigits 10 n

/-- The decimal text with a zero in front of a single digit. -/
def padded (n : Nat) : List Char := if n < 10 then '0' :: decimal n else decimal n

/-- A text of digits that does not begin with a needless zero. -/
structure Canonical (t : List Char) : Prop where
  ne_nil : t ≠ []
  digits : ∀ c ∈ t, c.isDigit = true
  lead : t.head? = some '0' → t = ['0']

variable {n m : Nat} {t : List Char}

theorem decimal_of_lt (h : n < 10) : decimal n = [n.digitChar] := Nat.toDigits_of_lt_base h

theorem decimal_of_le (h : 10 ≤ n) : decimal n = decimal (n / 10) ++ [(n % 10).digitChar] :=
  Nat.toDigits_of_base_le (by omega) h

@[simp] theorem decimal_ne_nil : decimal n ≠ [] := Nat.toDigits_ne_nil

theorem isDigit_of_mem_decimal {c : Char} (h : c ∈ decimal n) : c.isDigit = true :=
  Nat.isDigit_of_mem_toDigits (by omega) (by omega) h

@[simp] theorem ofDigitChars_decimal : Nat.ofDigitChars 10 (decimal n) 0 = n :=
  Nat.ofDigitChars_ten_toDigits

theorem decimal_inj : decimal n = decimal m ↔ n = m := by
  refine ⟨fun h => ?_, fun h => by rw [h]⟩
  rw [← ofDigitChars_decimal (n := n), h, ofDigitChars_decimal]

theorem length_decimal_le_iff {k : Nat} (hk : 0 < k) : (decimal n).length ≤ k ↔ n < 10 ^ k :=
  Nat.length_toDigits_le_iff (by omega) hk

/-- Only the text of zero begins with a zero. -/
theorem head?_decimal_eq_zero : (decimal n).head? = some '0' ↔ n = 0 := by
  induction n using Nat.strongRecOn with
  | _ n ih =>
    by_cases hn : n < 10
    · rw [decimal_of_lt hn, List.head?_cons, Option.some_inj, Nat.digitChar_eq_zero]
    · -- the digits in front are those of a tenth, which is not zero
      have hhead : (decimal n).head? = (decimal (n / 10)).head? := by
        rw [decimal_of_le (by omega), List.head?_append_of_ne_nil _ decimal_ne_nil]
      rw [hhead, ih (n / 10) (by omega)]
      omega

theorem canonical_decimal : Canonical (decimal n) where
  ne_nil := decimal_ne_nil
  digits _ h := isDigit_of_mem_decimal h
  lead h := by
    rw [head?_decimal_eq_zero.1 h]
    rfl

/-! ## Back from the text -/

theorem toNat_of_isDigit {c : Char} (h : c.isDigit = true) : 48 ≤ c.toNat ∧ c.toNat ≤ 57 := by
  simpa [Char.isDigit, Char.le_def, UInt32.le_iff_toNat_le] using h

theorem exists_digitChar {c : Char} (h : c.isDigit = true) : ∃ d < 10, c = Nat.digitChar d := by
  have hc := toNat_of_isDigit h
  have hlt : c.toNat - 48 < 10 := by omega
  refine ⟨c.toNat - 48, hlt, Char.toNat_inj.1 ?_⟩
  rw [Nat.toNat_digitChar_of_lt_ten hlt]
  omega

/-- Digits behind the text of a number that is not zero give the text of
the number they are read to. -/
theorem decimal_append (hn : 0 < n) (ht : ∀ c ∈ t, c.isDigit = true) :
    decimal n ++ t = decimal (Nat.ofDigitChars 10 t n) := by
  induction t generalizing n with
  | nil => rw [List.append_nil, Nat.ofDigitChars_nil]
  | cons c t ih =>
      obtain ⟨d, hd, rfl⟩ := exists_digitChar (ht c List.mem_cons_self)
      have hstep : decimal n ++ [d.digitChar] = decimal (10 * n + d) := by
        rw [decimal_of_le (n := 10 * n + d) (by omega), show (10 * n + d) / 10 = n by omega,
          show (10 * n + d) % 10 = d by omega]
      rw [Nat.ofDigitChars_cons_digitChar_of_lt_ten hd, List.append_cons, hstep]
      exact ih (by omega) fun c hc => ht c (List.mem_cons_of_mem _ hc)

/-- **A canonical text is the text of its number.** -/
theorem Canonical.eq_decimal (h : Canonical t) : t = decimal (Nat.ofDigitChars 10 t 0) := by
  rcases t with _ | ⟨c, t⟩
  · exact absurd rfl h.ne_nil
  · by_cases hc : c = '0'
    · rw [h.lead (by rw [List.head?_cons, hc])]
      rfl
    · obtain ⟨d, hd, rfl⟩ := exists_digitChar (h.digits c List.mem_cons_self)
      have hpos : 0 < d := by
        rcases Nat.eq_zero_or_pos d with rfl | hpos
        · exact absurd rfl hc
        · exact hpos
      rw [Nat.ofDigitChars_cons_digitChar_of_lt_ten hd, Nat.mul_zero, Nat.zero_add,
        ← decimal_append hpos fun c hc => h.digits c (List.mem_cons_of_mem _ hc),
        decimal_of_lt hd, List.singleton_append]

/-! ## Two digits at least -/

theorem isDigit_of_mem_padded {c : Char} (h : c ∈ padded n) : c.isDigit = true := by
  rw [padded] at h
  split at h
  · rcases List.mem_cons.1 h with rfl | h
    · decide
    · exact isDigit_of_mem_decimal h
  · exact isDigit_of_mem_decimal h

@[simp] theorem ofDigitChars_padded : Nat.ofDigitChars 10 (padded n) 0 = n := by
  rw [padded]
  split
  · rw [Nat.ofDigitChars_cons]
    exact ofDigitChars_decimal
  · exact ofDigitChars_decimal

theorem padded_inj : padded n = padded m ↔ n = m := by
  refine ⟨fun h => ?_, fun h => by rw [h]⟩
  rw [← ofDigitChars_padded (n := n), h, ofDigitChars_padded]

theorem length_padded_of_lt (h : n < 100) : (padded n).length = 2 := by
  rw [padded]
  split
  · next hn => rw [decimal_of_lt hn, List.length_cons, List.length_singleton]
  · next hn =>
      rw [decimal_of_le (by omega), decimal_of_lt (by omega), List.length_append,
        List.length_singleton, List.length_singleton]

theorem two_le_length_padded : 2 ≤ (padded n).length := by
  by_cases hn : n < 100
  · exact Nat.le_of_eq (length_padded_of_lt hn).symm
  · have hlen : ¬ (decimal n).length ≤ 1 := by
      rw [length_decimal_le_iff Nat.one_pos]
      omega
    rw [padded, if_neg (by omega)]
    omega

/-- **A sign that is no digit** is in neither text. -/
theorem not_mem_padded {c : Char} (h : c.isDigit = false) : c ∉ padded n := by
  intro hc
  rw [isDigit_of_mem_padded hc] at h
  exact Bool.noConfusion h

theorem not_mem_decimal {c : Char} (h : c.isDigit = false) : c ∉ decimal n := by
  intro hc
  rw [isDigit_of_mem_decimal hc] at h
  exact Bool.noConfusion h

end Zooffice
