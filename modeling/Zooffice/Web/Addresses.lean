import Zooffice.Web.Model.Utils
/-!
# Addresses and ports of a form

Both checks read a number of a text, and `isIP` compares the text of the
number with what was there, so it accepts the canonical numerals and no
others (`checkField_iff`). `isPort` does not, and accepts whatever begins
with a numeral of a port.
-/


namespace Zooffice

namespace Utils

/-- A canonical numeral of a byte. -/
def Octet (t : Text) : Prop := Canonical t ∧ Nat.ofDigitChars 10 t 0 ≤ 255

/-- Four canonical numerals of bytes between dots. -/
def IsAddress (t : Text) : Prop :=
  (t.splitOn '.').length = 4 ∧ ∀ field ∈ t.splitOn '.', Octet field

/-- A canonical numeral of a port. -/
def IsPortNumeral (t : Text) : Prop :=
  Canonical t ∧ 1 ≤ Nat.ofDigitChars 10 t 0 ∧ Nat.ofDigitChars 10 t 0 ≤ 65535

/-! ## Decimals are read -/

theorem digitValue_of_isDigit {c : Char} (h : c.isDigit = true) :
    Js.digitValue c = c.toNat - '0'.toNat ∧ Js.digitValue c < 10 := by
  have hc := toNat_of_isDigit h
  rw [Js.digitValue, if_pos hc, show '0'.toNat = 48 from rfl]
  exact ⟨rfl, by omega⟩

theorem digitsValue_ten {t : Text} (h : ∀ c ∈ t, c.isDigit = true) (n : ℕ) :
    t.foldl (fun n c => 10 * n + Js.digitValue c) n = Nat.ofDigitChars 10 t n := by
  induction t generalizing n with
  | nil => rw [List.foldl_nil, Nat.ofDigitChars_nil]
  | cons c t ih =>
      rw [List.foldl_cons, Nat.ofDigitChars_cons,
        (digitValue_of_isDigit (h c List.mem_cons_self)).1]
      exact ih (fun c hc => h c (List.mem_cons_of_mem _ hc)) _

/-- **A decimal text begins with its numeral**, and nothing comes behind. -/
theorem beginsWithNumeral_decimal (n : ℕ) : Js.BeginsWithNumeral (decimal n) n := by
  refine ⟨decimal n, Or.inl rfl, Or.inr ⟨fun hex => ?_, decimal n, [], ?_, decimal_ne_nil, ?_, ?_,
    ?_⟩⟩
  · -- there is no letter in it
    refine ⟨fun h => ?_, fun h => ?_⟩
    · exact not_mem_decimal (n := n) (c := 'x') rfl (by rw [h]; simp)
    · exact not_mem_decimal (n := n) (c := 'X') rfl (by rw [h]; simp)
  · rw [List.append_nil]
  · intro c hc
    exact decide_eq_true (digitValue_of_isDigit (isDigit_of_mem_decimal hc)).2
  · intro c hc
    exact absurd hc (by simp)
  · rw [Js.digitsValue, digitsValue_ten fun c hc => isDigit_of_mem_decimal hc]
    exact ofDigitChars_decimal

theorem isWhiteSpace_of_isDigit {c : Char} (h : c.isDigit = true) :
    Js.isWhiteSpace c = false := by
  have hc := toNat_of_isDigit h
  simp [Js.isWhiteSpace]
  omega

theorem dropWhile_decimal (n : ℕ) : (decimal n).dropWhile Js.isWhiteSpace = decimal n := by
  rcases hdecimal : decimal n with _ | ⟨c, t⟩
  · exact absurd hdecimal decimal_ne_nil
  · have hc : c.isDigit = true := isDigit_of_mem_decimal (n := n) (by rw [hdecimal]; simp)
    rw [List.dropWhile_cons_of_neg (by rw [isWhiteSpace_of_isDigit hc]; decide)]

theorem parseInt_decimal (n : ℕ) : Js.parseInt (decimal n) = some (Js.toDouble n) :=
  Js.parseInt_of_beginsWithNumeral (dropWhile_decimal n) (beginsWithNumeral_decimal n)

/-! ## The checks -/

variable (largeText : ℚ → Text)

theorem checkField_decimal {n : ℕ} (h : n ≤ 255) : checkField largeText (decimal n) = true := by
  have hnum : Js.parseInt (decimal n) = some (n : ℚ) := by
    rw [parseInt_decimal, Js.keeps_toDouble.nat n (by omega)]
  have hle : (n : ℚ) ≤ 255 := by exact_mod_cast h
  rw [checkField, hnum, Js.numberText_natCast largeText (by omega), if_pos rfl]
  simp [hle]

/-- What is read and is a byte is a whole number. -/
theorem exists_natCast_of_parseInt {v : Text} {num : ℚ} (h : Js.parseInt v = some num)
    (hlow : 0 ≤ num) (hhigh : num ≤ 255) : ∃ n : ℕ, n ≤ 255 ∧ num = n := by
  rcases Js.parseInt_cases v with hnone | ⟨n, hn | hn⟩
  · exact absurd (hnone.symm.trans h) (Option.some_ne_none num).symm
  · have heq : num = Js.toDouble n := Option.some_inj.1 (h.symm.trans hn)
    have hle : n ≤ 255 := by
      rw [← Js.keeps_toDouble.natCast_le_iff (by omega), ← heq]
      exact_mod_cast hhigh
    exact ⟨n, hle, by rw [heq, Js.keeps_toDouble.nat n (by omega)]⟩
  · -- only zero is negative and not below zero
    have heq : num = -Js.toDouble n := Option.some_inj.1 (h.symm.trans hn)
    have hnonneg : 0 ≤ Js.toDouble n := Js.keeps_toDouble.nonneg (Nat.cast_nonneg n)
    exact ⟨0, by omega, by rw [Nat.cast_zero]; linarith⟩

/-- **A field is a canonical numeral of a byte.** -/
theorem checkField_iff {v : Text} : checkField largeText v = true ↔ Octet v := by
  constructor
  · intro h
    rw [checkField] at h
    split at h
    · next htext =>
        rcases hnum : Js.parseInt v with _ | num
        · rw [hnum] at h
          exact Bool.noConfusion h
        · rw [hnum] at h htext
          simp only [Bool.and_eq_true, decide_eq_true_eq] at h
          obtain ⟨n, hn, rfl⟩ := exists_natCast_of_parseInt hnum h.2 h.1
          rw [Js.numberText_natCast largeText (by omega)] at htext
          rw [htext]
          exact ⟨canonical_decimal, by rw [ofDigitChars_decimal]; exact hn⟩
    · exact Bool.noConfusion h
  · rintro ⟨hcanonical, hle⟩
    rw [hcanonical.eq_decimal]
    exact checkField_decimal largeText hle

/-- **`isIP` accepts the addresses**, after blanks are gone. -/
theorem isIP_iff {s : Text} : isIP largeText s = true ↔ IsAddress (Js.trim s) := by
  rw [isIP, IsAddress]
  split
  · next re0 re1 re2 re3 hsplit =>
      simp [hsplit, checkField_iff, and_assoc]
  · next hsplit =>
      refine iff_of_false (by decide) fun h => ?_
      obtain ⟨re0, re1, re2, re3, hfour⟩ := List.length_eq_four.1 h.1
      exact hsplit re0 re1 re2 re3 hfour

/-- **`isPort` accepts what begins with the numeral of a port.** -/
theorem isPort_iff {s : Text} : isPort s = true ↔
    ∃ n, 1 ≤ n ∧ n ≤ 65535 ∧ Js.BeginsWithNumeral (Js.trim s) n := by
  have hblank := Js.dropWhile_trim s
  constructor
  · intro h
    rw [isPort] at h
    rcases hport : Js.parseInt (Js.trim s) with _ | port
    · rw [hport] at h
      exact Bool.noConfusion h
    · rw [hport] at h
      simp only [Bool.and_eq_true, decide_eq_true_eq] at h
      obtain ⟨n, hn, rfl⟩ := Js.beginsWithNumeral_of_parseInt hblank hport h.2
      have hpos : 1 ≤ n := by
        by_contra hzero
        rw [show n = 0 by omega, Js.keeps_toDouble.nat 0 (by omega), Nat.cast_zero] at h
        exact lt_irrefl 0 h.2
      have hmax : n ≤ 65535 := by
        by_contra hlarge
        have hge : ((65536 : ℕ) : ℚ) ≤ Js.toDouble n :=
          Js.keeps_toDouble.natCast_le (by omega) (Nat.cast_le.2 (by omega))
        exact absurd h.1 (not_lt.2 (by exact_mod_cast hge))
      exact ⟨n, hpos, hmax, hn⟩
  · rintro ⟨n, hlow, hhigh, hn⟩
    rw [isPort, Js.parseInt_of_beginsWithNumeral hblank hn, Js.keeps_toDouble.nat n (by omega)]
    have h₁ : (n : ℚ) < 65536 := by exact_mod_cast (show n < 65536 by omega)
    have h₂ : (0 : ℚ) < n := by exact_mod_cast hlow
    simp [h₁, h₂]

/-- Of a decimal text only its own number is read. -/
theorem eq_of_beginsWithNumeral_decimal {n m : ℕ} (hm : m ≤ 65535)
    (h : Js.BeginsWithNumeral (decimal n) m) : n = m := by
  have hread := Js.parseInt_of_beginsWithNumeral (dropWhile_decimal n) h
  rw [parseInt_decimal, Option.some_inj, Js.keeps_toDouble.nat m (by omega)] at hread
  have hle : n ≤ m := (Js.keeps_toDouble.natCast_le_iff (by omega)).1 hread.le
  rw [Js.keeps_toDouble.nat n (by omega)] at hread
  exact_mod_cast hread

/-- **Both checks accept what they should**, addresses and ports after blanks
are gone, if and only if the text does not begin with the numeral of a port
without being one. -/
theorem checks_iff (largeText : ℚ → Text) (s : Text) :
    (isIP largeText s = true ↔ IsAddress (Js.trim s)) ∧
        (isPort s = true ↔ IsPortNumeral (Js.trim s)) ↔
      ∀ n, 1 ≤ n → n ≤ 65535 → Js.BeginsWithNumeral (Js.trim s) n → Canonical (Js.trim s) := by
  rw [isPort_iff]
  constructor
  · rintro ⟨-, hport⟩ n hlow hhigh hn
    exact (hport.1 ⟨n, hlow, hhigh, hn⟩).1
  · intro h
    refine ⟨isIP_iff largeText, fun ⟨n, hlow, hhigh, hn⟩ => ?_, fun ⟨hcanonical, hlow, hhigh⟩ => ?_⟩
    · have hcanonical := h n hlow hhigh hn
      have heq := hcanonical.eq_decimal
      rw [heq] at hn
      rw [← eq_of_beginsWithNumeral_decimal hhigh hn] at hlow hhigh
      exact ⟨hcanonical, hlow, hhigh⟩
    · refine ⟨_, hlow, hhigh, ?_⟩
      have hn := beginsWithNumeral_decimal (Nat.ofDigitChars 10 (Js.trim s) 0)
      rwa [← hcanonical.eq_decimal] at hn

/-- **`80abc` is accepted for a port.** -/
theorem isPort_80abc :
    isPort ['8', '0', 'a', 'b', 'c'] = true ∧
      ¬ IsPortNumeral (Js.trim ['8', '0', 'a', 'b', 'c']) := by
  have htrim : Js.trim ['8', '0', 'a', 'b', 'c'] = ['8', '0', 'a', 'b', 'c'] := by decide
  rw [isPort_iff, htrim]
  constructor
  · refine ⟨80, by omega, by omega, _, Or.inl rfl, Or.inr ⟨fun hex => ?_, ['8', '0'],
      ['a', 'b', 'c'], rfl, List.cons_ne_nil _ _, ?_, fun c hc => ?_, rfl⟩⟩
    · exact ⟨fun h => absurd (List.cons.inj h).1 (by decide),
        fun h => absurd (List.cons.inj h).1 (by decide)⟩
    · exact List.forall_mem_cons.2 ⟨rfl, List.forall_mem_singleton.2 rfl⟩
    · rw [← Option.some_inj.1 (Option.mem_def.1 hc)]
      rfl
  · rintro ⟨hcanonical, -⟩
    exact absurd (hcanonical.digits 'a' (by decide)) (by decide)

end Utils

end Zooffice
