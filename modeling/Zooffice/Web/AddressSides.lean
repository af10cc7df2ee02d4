import Zooffice.Infra.Model.NetworkUtil
import Zooffice.Web.Addresses
/-!
# Addresses in the browser and on the server

The browser accepts canonical numerals and the server one to three digits,
both up to 255. What the browser accepts the server accepts too
(`isValidIP_of_isIP`); the other way round a leading zero is in the way.
-/


namespace Zooffice

namespace NetworkUtil

open Pattern

/-- One to three digits of a byte. -/
structure ShortOctet (t : Text) : Prop where
  ne_nil : t ≠ []
  short : t.length ≤ 3
  digits : ∀ c ∈ t, c.isDigit = true
  byte : Nat.ofDigitChars 10 t 0 ≤ 255

/-- A zero in front of other digits. -/
def HasLeadingZero (t : Text) : Prop := 1 < t.length ∧ t.head? = some '0'

/-! ## What the pattern matches -/

theorem mem_upTo {last : Nat} {c : Char} : c ∈ upTo last ↔ ∃ d ≤ last, c = Nat.digitChar d := by
  rw [upTo, List.mem_map]
  constructor
  · rintro ⟨d, hd, rfl⟩
    exact ⟨d, by rw [List.mem_range] at hd; omega, rfl⟩
  · rintro ⟨d, hd, rfl⟩
    exact ⟨d, List.mem_range.2 (by omega), rfl⟩

/-- The texts of an octet, by their lengths. -/
theorem octetPattern_rmatch_iff {t : Text} : octetPattern.rmatch t = true ↔
    (∃ a ≤ 9, t = [Nat.digitChar a]) ∨ (∃ a ≤ 9, ∃ b ≤ 9, t = [Nat.digitChar a, Nat.digitChar b]) ∨
      ∃ a ≤ 9, ∃ b ≤ 9, ∃ c ≤ 9, 100 * a + 10 * b + c ≤ 255 ∧
        t = [Nat.digitChar a, Nat.digitChar b, Nat.digitChar c] := by
  simp only [octetPattern, RegularExpression.add_rmatch_iff, optional_mul_rmatch_iff,
    anyOf_mul_rmatch_iff, optional_rmatch_iff, anyOf_rmatch_iff, mem_upTo, List.mem_singleton]
  constructor
  · rintro ((⟨_, ⟨a, ha, rfl⟩, u, rfl, rfl | ⟨_, ⟨b, hb, rfl⟩, rfl⟩⟩ |
      ⟨_, ⟨a, ha, rfl⟩, u, rfl, _, ⟨b, hb, rfl⟩, v, rfl, rfl | ⟨_, ⟨c, hc, rfl⟩, rfl⟩⟩) |
      ⟨_, rfl, u, rfl, _, ⟨b, hb, rfl⟩, v, rfl, _, ⟨c, hc, rfl⟩, rfl⟩ |
      ⟨_, rfl, u, rfl, _, rfl, v, rfl, _, ⟨c, hc, rfl⟩, rfl⟩)
    · exact Or.inl ⟨a, ha, rfl⟩
    · exact Or.inr (Or.inl ⟨a, ha, b, hb, rfl⟩)
    · exact Or.inr (Or.inl ⟨a, by omega, b, hb, rfl⟩)
    · exact Or.inr (Or.inr ⟨a, by omega, b, hb, c, hc, by omega, rfl⟩)
    · exact Or.inr (Or.inr ⟨2, by omega, b, by omega, c, hc, by omega, rfl⟩)
    · exact Or.inr (Or.inr ⟨2, by omega, 5, by omega, c, by omega, by omega, rfl⟩)
  · rintro (⟨a, ha, rfl⟩ | ⟨a, ha, b, hb, rfl⟩ | ⟨a, ha, b, hb, c, hc, hbyte, rfl⟩)
    · exact Or.inl (Or.inl ⟨_, ⟨a, ha, rfl⟩, _, rfl, Or.inl rfl⟩)
    · exact Or.inl (Or.inl ⟨_, ⟨a, ha, rfl⟩, _, rfl, Or.inr ⟨_, ⟨b, hb, rfl⟩, rfl⟩⟩)
    · -- by the first of the three digits
      obtain hone | ⟨rfl, hfour⟩ | ⟨rfl, rfl, hfive⟩ :
          a ≤ 1 ∨ (a = 2 ∧ b ≤ 4) ∨ (a = 2 ∧ b = 5 ∧ c ≤ 5) := by omega
      · exact Or.inl (Or.inr ⟨_, ⟨a, hone, rfl⟩, _, rfl, _, ⟨b, hb, rfl⟩, _, rfl,
          Or.inr ⟨_, ⟨c, hc, rfl⟩, rfl⟩⟩)
      · exact Or.inr (Or.inl ⟨_, rfl, _, rfl, _, ⟨b, hfour, rfl⟩, _, rfl, _, ⟨c, hc, rfl⟩, rfl⟩)
      · exact Or.inr (Or.inr ⟨_, rfl, _, rfl, _, rfl, _, rfl, _, ⟨c, hfive, rfl⟩, rfl⟩)

theorem isDigit_digitChar_of_le {d : ℕ} (h : d ≤ 9) : (Nat.digitChar d).isDigit = true := by
  rw [Nat.isDigit_digitChar]
  exact decide_eq_true (by omega)

theorem ofDigitChars_digitChar {d : ℕ} (h : d ≤ 9) (t : Text) (n : ℕ) :
    Nat.ofDigitChars 10 (Nat.digitChar d :: t) n = Nat.ofDigitChars 10 t (10 * n + d) :=
  Nat.ofDigitChars_cons_digitChar_of_lt_ten (by omega)

/-- **The pattern of an octet** is one to three digits of a byte. -/
theorem octetPattern_rmatch_iff_shortOctet {t : Text} :
    octetPattern.rmatch t = true ↔ ShortOctet t := by
  rw [octetPattern_rmatch_iff]
  constructor
  · rintro (⟨a, ha, rfl⟩ | ⟨a, ha, b, hb, rfl⟩ | ⟨a, ha, b, hb, c, hc, hbyte, rfl⟩)
    · refine ⟨List.cons_ne_nil _ _, by simp, by simp [isDigit_digitChar_of_le ha], ?_⟩
      rw [ofDigitChars_digitChar ha, Nat.ofDigitChars_nil]
      omega
    · refine ⟨List.cons_ne_nil _ _, by simp,
        by simp [isDigit_digitChar_of_le ha, isDigit_digitChar_of_le hb], ?_⟩
      rw [ofDigitChars_digitChar ha, ofDigitChars_digitChar hb, Nat.ofDigitChars_nil]
      omega
    · refine ⟨List.cons_ne_nil _ _, by simp, by simp [isDigit_digitChar_of_le ha,
        isDigit_digitChar_of_le hb, isDigit_digitChar_of_le hc], ?_⟩
      rw [ofDigitChars_digitChar ha, ofDigitChars_digitChar hb, ofDigitChars_digitChar hc,
        Nat.ofDigitChars_nil]
      omega
  · rintro ⟨hne, hshort, hdigits, hbyte⟩
    have hchar : ∀ c ∈ t, ∃ d ≤ 9, c = Nat.digitChar d := by
      intro c hc
      obtain ⟨d, hd, heq⟩ := exists_digitChar (hdigits c hc)
      exact ⟨d, by omega, heq⟩
    rcases t with _ | ⟨c₁, _ | ⟨c₂, _ | ⟨c₃, _ | ⟨c₄, t⟩⟩⟩⟩
    · exact absurd rfl hne
    · obtain ⟨a, ha, rfl⟩ := hchar c₁ (by simp)
      exact Or.inl ⟨a, ha, rfl⟩
    · obtain ⟨a, ha, rfl⟩ := hchar c₁ (by simp)
      obtain ⟨b, hb, rfl⟩ := hchar c₂ (by simp)
      exact Or.inr (Or.inl ⟨a, ha, b, hb, rfl⟩)
    · obtain ⟨a, ha, rfl⟩ := hchar c₁ (by simp)
      obtain ⟨b, hb, rfl⟩ := hchar c₂ (by simp)
      obtain ⟨c, hc, rfl⟩ := hchar c₃ (by simp)
      rw [ofDigitChars_digitChar ha, ofDigitChars_digitChar hb, ofDigitChars_digitChar hc,
        Nat.ofDigitChars_nil] at hbyte
      exact Or.inr (Or.inr ⟨a, ha, b, hb, c, hc, by omega, rfl⟩)
    · simp only [List.length_cons] at hshort
      omega

/-- **The server accepts** four short numerals of bytes. -/
theorem isValidIP_iff {ip : Text} : isValidIP ip = true ↔
    (ip.splitOn '.').length = 4 ∧ ∀ field ∈ ip.splitOn '.', ShortOctet field := by
  have hpoint : ∀ t, octetPattern.rmatch t = true → '.' ∉ t := by
    intro t ht hmem
    exact absurd ((octetPattern_rmatch_iff_shortOctet.1 ht).digits '.' hmem) (by decide)
  rw [isValidIP, ipPattern, separated_rmatch_iff hpoint]
  simp only [octetPattern_rmatch_iff_shortOctet]

/-! ## The two sides -/

/-- A canonical numeral of a byte has no more than three digits. -/
theorem shortOctet_of_octet {t : Text} (h : Utils.Octet t) : ShortOctet t := by
  obtain ⟨hcanonical, hbyte⟩ := h
  refine ⟨hcanonical.ne_nil, ?_, hcanonical.digits, hbyte⟩
  rw [hcanonical.eq_decimal, length_decimal_le_iff (by omega)]
  omega

/-- **Without a zero in front** the two are the same. -/
theorem octet_iff_of_shortOctet {t : Text} (h : ShortOctet t) :
    Utils.Octet t ↔ ¬ HasLeadingZero t := by
  constructor
  · rintro ⟨hcanonical, -⟩ ⟨hlen, hhead⟩
    rw [hcanonical.lead hhead] at hlen
    exact absurd hlen (by decide)
  · intro hlead
    refine ⟨⟨h.ne_nil, h.digits, fun hhead => ?_⟩, h.byte⟩
    rcases t with _ | ⟨c, t⟩
    · exact absurd rfl h.ne_nil
    · have hnil : t = [] := by
        by_contra hne
        exact hlead ⟨by rw [List.length_cons]; have := List.length_pos_iff.2 hne; omega, hhead⟩
      rw [List.head?_cons, Option.some_inj] at hhead
      rw [hnil, hhead]

/-- **What the browser accepts the server accepts.** -/
theorem isValidIP_of_isIP {largeText : ℚ → Text} {s : Text} (htrim : Js.trim s = s)
    (h : Utils.isIP largeText s = true) : isValidIP s = true := by
  rw [Utils.isIP_iff, htrim] at h
  exact isValidIP_iff.2 ⟨h.1, fun field hfield => shortOctet_of_octet (h.2 field hfield)⟩

/-- Four short numerals of bytes, one of them with a zero in front. -/
def Padded (s : Text) : Prop :=
  (s.splitOn '.').length = 4 ∧ (∀ field ∈ s.splitOn '.', ShortOctet field) ∧
    ∃ field ∈ s.splitOn '.', HasLeadingZero field

/-- **The two sides agree** on a text without blanks around it, unless it is
an address with a zero in front of a field. -/
theorem isIP_eq_isValidIP_iff (largeText : ℚ → Text) {s : Text} (htrim : Js.trim s = s) :
    Utils.isIP largeText s = isValidIP s ↔ ¬ Padded s := by
  rw [Bool.eq_iff_iff, Utils.isIP_iff, htrim, isValidIP_iff]
  constructor
  · rintro hsides ⟨hlen, hshort, field, hfield, hlead⟩
    have haddress := hsides.2 ⟨hlen, hshort⟩
    exact (octet_iff_of_shortOctet (hshort field hfield)).1 (haddress.2 field hfield) hlead
  · intro hpadded
    constructor
    · exact fun h => ⟨h.1, fun field hfield => shortOctet_of_octet (h.2 field hfield)⟩
    · rintro ⟨hlen, hshort⟩
      refine ⟨hlen, fun field hfield => ?_⟩
      rw [octet_iff_of_shortOctet (hshort field hfield)]
      exact fun hlead => hpadded ⟨hlen, hshort, field, hfield, hlead⟩

/-- Both sides accept `10.0.0.1`. -/
theorem isIP_eq_isValidIP_ten : Js.trim "10.0.0.1".toList = "10.0.0.1".toList ∧
    Utils.isIP (fun _ => []) "10.0.0.1".toList = isValidIP "10.0.0.1".toList := by
  have htrim : Js.trim "10.0.0.1".toList = "10.0.0.1".toList := by decide
  refine ⟨htrim, (isIP_eq_isValidIP_iff (fun _ => []) htrim).2 ?_⟩
  rintro ⟨-, -, field, hfield, hlen, hhead⟩
  have hfields : "10.0.0.1".toList.splitOn '.' = [['1', '0'], ['0'], ['0'], ['1']] := by decide
  rw [hfields] at hfield
  simp only [List.mem_cons, List.not_mem_nil, or_false] at hfield
  rcases hfield with rfl | rfl | rfl | rfl
  · exact absurd hhead (by decide)
  · exact absurd hlen (by decide)
  · exact absurd hlen (by decide)
  · exact absurd hlen (by decide)

/-- **`01.1.1.1`** is an address on the server and none in the browser. -/
theorem isIP_ne_isValidIP_padded : Js.trim "01.1.1.1".toList = "01.1.1.1".toList ∧
    isValidIP "01.1.1.1".toList = true ∧
    Utils.isIP (fun _ => []) "01.1.1.1".toList = false := by
  have htrim : Js.trim "01.1.1.1".toList = "01.1.1.1".toList := by decide
  have hfields : "01.1.1.1".toList.splitOn '.' = [['0', '1'], ['1'], ['1'], ['1']] := by decide
  refine ⟨htrim, by decide, ?_⟩
  rw [Bool.eq_false_iff, Ne, Utils.isIP_iff, htrim, Utils.IsAddress, hfields]
  rintro ⟨-, haddress⟩
  obtain ⟨hcanonical, -⟩ := haddress ['0', '1'] (by simp)
  exact absurd (hcanonical.lead rfl) (by decide)

end NetworkUtil

end Zooffice
