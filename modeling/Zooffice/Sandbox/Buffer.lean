import Zooffice.Sandbox.Model.Normalize
import Zooffice.Common.Path
import Zooffice.Common.Effect
/-!
# The three loops of the normalization

What the array holds is a text (`Buffer.Holds`), with at least one cell
behind it: `System.arraycopy` reads one character more than it moves. Each
loop is followed over a text that is a list of names with a separator
behind each, `xs` being what is finished in front of them. A loop passes
over the letters of a name (`passes_letters`), and decides at the separator
behind it what becomes of the name.
-/


namespace Zooffice

open Zooffice.Path

/-- The array begins with the content, which ends at `size`, and has at
least one more cell. -/
structure Buffer.Holds (content : Text) (b : Buffer) : Prop where
  array : ∃ junk, b.array = content ++ junk ∧ junk ≠ []
  size : b.size = content.length

variable {sep : Char} {b : Buffer} {i : Int}

/-! ## Reading and moving -/

/-- A character of the content can be read. -/
theorem Buffer.Holds.charAt {xs ys : Text} {c : Char} (hb : b.Holds (xs ++ c :: ys))
    (hi : i = xs.length) : charAt b.array i = .ok c := by
  obtain ⟨junk, harray, -⟩ := hb.array
  rw [Zooffice.charAt, if_neg (by omega), harray, hi, Int.toNat_natCast, List.append_assoc,
    List.getElem?_append_right (Nat.le_refl _), Nat.sub_self]
  rfl

theorem Buffer.Holds.isAt {xs ys : Text} {c : Char} (hb : b.Holds (xs ++ c :: ys))
    (hi : i = xs.length) (d : Char) : isAt b.array i d = .ok (decide (c = d)) := by
  rw [Zooffice.isAt, hb.charAt hi]
  rfl

/-- A letter of a name is not a separator. -/
theorem Buffer.Holds.isAt_letter {xs t ys : Text} (hb : b.Holds (xs ++ (t ++ ys)))
    (ht : sep ∉ t) {k : Nat} (hk : k < t.length) (hi : i = xs.length + k) :
    Zooffice.isAt b.array i sep = .ok false := by
  have hsplit : t = t.take k ++ t[k] :: t.drop (k + 1) := by
    rw [← List.drop_eq_getElem_cons hk, List.take_append_drop]
  have hb' : b.Holds ((xs ++ t.take k) ++ t[k] :: (t.drop (k + 1) ++ ys)) := by
    rw [hsplit] at hb
    simpa only [List.append_assoc, List.cons_append] using hb
  rw [hb'.isAt (by rw [List.length_append, List.length_take]; omega)]
  have hne : t[k] ≠ sep := fun h => ht (h ▸ List.getElem_mem hk)
  rw [decide_eq_false hne]

/-- Moving the end of the content over what stands before it takes that
out. One character more than the end may be moved along. -/
theorem Buffer.Holds.arraycopy (xs ys zs : Text) (hb : b.Holds (xs ++ (ys ++ zs)))
    (srcPos destPos length : Int) (hsrc : srcPos = xs.length + ys.length)
    (hdest : destPos = xs.length) (hlength : zs.length ≤ length)
    (hlength' : length ≤ zs.length + 1) :
    ∃ array, arraycopy b.array srcPos destPos length = .ok array ∧
      ∀ size lastIsDirectory, size = (xs.length + zs.length : Int) →
        Buffer.Holds (xs ++ zs) ⟨array, size, lastIsDirectory⟩ := by
  obtain ⟨junk, harray, hjunk⟩ := hb.array
  obtain ⟨n, rfl⟩ := Int.eq_ofNat_of_zero_le (a := length) (by omega)
  have hpos : 0 < junk.length := List.length_pos_iff.2 hjunk
  have hlen : b.array.length = xs.length + ys.length + zs.length + junk.length := by
    rw [harray]
    simp only [List.length_append]
    omega
  have htake : b.array.take destPos.toNat = xs := by
    rw [harray, hdest, Int.toNat_natCast, List.append_assoc, List.take_left']
    rfl
  have hdrop : (b.array.drop srcPos.toNat).take n = zs ++ junk.take (n - zs.length) := by
    have hskip : srcPos.toNat = (xs ++ ys).length := by
      rw [List.length_append]
      omega
    rw [harray, hskip, ← List.append_assoc xs ys zs, List.append_assoc (xs ++ ys) zs junk,
      List.drop_left, List.take_append, List.take_of_length_le (by omega)]
  refine ⟨xs ++ zs ++ (junk.take (n - zs.length) ++ b.array.drop (xs.length + n)), ?_, ?_⟩
  · rw [Zooffice.arraycopy, if_neg (by omega), htake, Int.toNat_natCast, hdrop]
    have hend : (destPos + n).toNat = xs.length + n := by omega
    rw [hend]
    simp only [List.append_assoc]
  · intro size lastIsDirectory hsize
    refine ⟨⟨_, rfl, ?_⟩, ?_⟩
    · intro hnil
      have hzero := congrArg List.length hnil
      simp only [List.length_append, List.length_take, List.length_drop, List.length_nil] at hzero
      omega
    · rw [List.length_append]
      exact_mod_cast hsize

/-! ## The shape of the loops -/

variable {hit : Int → Buffer → Except Throwable Bool}
  {rewrite : Int → Buffer → Except Throwable (Option (Int × Buffer))}
  {i' i'' : Int} {b' b'' : Buffer} {o : Option Buffer}

/-- A bound that the rounds over what is left of the content stay below. -/
def Enough (i : Int) (b : Buffer) (fuel : Nat) : Prop := b.size - i < fuel ∧ 0 < fuel

/-- The loop comes from one index to another, and from one array to
another, within such a bound. -/
def Passes (hit : Int → Buffer → Except Throwable Bool)
    (rewrite : Int → Buffer → Except Throwable (Option (Int × Buffer)))
    (i : Int) (b : Buffer) (i' : Int) (b' : Buffer) : Prop :=
  ∀ fuel, Enough i b fuel → ∃ fuel', Enough i' b' fuel' ∧
    scan hit rewrite fuel i b = scan hit rewrite fuel' i' b'

/-- The loop ends with `o`. -/
def Finishes (hit : Int → Buffer → Except Throwable Bool)
    (rewrite : Int → Buffer → Except Throwable (Option (Int × Buffer)))
    (i : Int) (b : Buffer) (o : Option Buffer) : Prop :=
  ∀ fuel, Enough i b fuel → scan hit rewrite fuel i b = .ok o

theorem Passes.refl : Passes hit rewrite i b i b := fun fuel h => ⟨fuel, h, rfl⟩

theorem Passes.trans (h : Passes hit rewrite i b i' b') (h' : Passes hit rewrite i' b' i'' b'') :
    Passes hit rewrite i b i'' b'' := by
  intro fuel henough
  obtain ⟨fuel', henough', hrun⟩ := h fuel henough
  obtain ⟨fuel'', henough'', hrun'⟩ := h' fuel' henough'
  exact ⟨fuel'', henough'', hrun.trans hrun'⟩

theorem Passes.finishes (h : Passes hit rewrite i b i' b') (h' : Finishes hit rewrite i' b' o) :
    Finishes hit rewrite i b o := by
  intro fuel henough
  obtain ⟨fuel', henough', hrun⟩ := h fuel henough
  rw [hrun, h' fuel' henough']

/-- The bound that the loops start with is one. -/
theorem Finishes.scanFrom (h : Finishes hit rewrite i b o) :
    scanFrom hit rewrite i b = .ok o := by
  rw [Zooffice.scanFrom]
  exact h _ ⟨by omega, by omega⟩

/-- Where the test fails the index goes up. -/
theorem passes_next (h : i < b.size) (hhit : hit i b = .ok false) :
    Passes hit rewrite i b (i + 1) b := by
  rintro fuel ⟨hfuel, -⟩
  obtain ⟨fuel, rfl⟩ : ∃ m, fuel = m + 1 := ⟨fuel - 1, by omega⟩
  refine ⟨fuel, ⟨by omega, by omega⟩, ?_⟩
  rw [scan, if_pos h, hhit]
  rfl

/-- Where it holds the array is rewritten, and less is left of it. -/
theorem passes_rewrite (h : i < b.size) (hhit : hit i b = .ok true)
    (hrewrite : rewrite i b = .ok (some (i', b'))) (hless : b'.size - (i' + 1) < b.size - i) :
    Passes hit rewrite i b (i' + 1) b' := by
  rintro fuel ⟨hfuel, -⟩
  obtain ⟨fuel, rfl⟩ : ∃ m, fuel = m + 1 := ⟨fuel - 1, by omega⟩
  refine ⟨fuel, ⟨by omega, by omega⟩, ?_⟩
  rw [scan, if_pos h, hhit]
  simp only [Except.bind, if_true, hrewrite]

theorem finishes_return (h : i < b.size) (hhit : hit i b = .ok true)
    (hrewrite : rewrite i b = .ok none) : Finishes hit rewrite i b none := by
  rintro fuel ⟨-, hpos⟩
  obtain ⟨fuel, rfl⟩ : ∃ m, fuel = m + 1 := ⟨fuel - 1, by omega⟩
  rw [scan, if_pos h, hhit]
  simp only [Except.bind, if_true, hrewrite]

/-- Behind the content the loop ends. -/
theorem finishes_end {xs : Text} (hb : b.Holds xs) (hi : (xs.length : Int) ≤ i) :
    Finishes hit rewrite i b (some b) := by
  rintro fuel ⟨-, hpos⟩
  have hsize := hb.size
  obtain ⟨fuel, rfl⟩ : ∃ m, fuel = m + 1 := ⟨fuel - 1, by omega⟩
  rw [scan, if_neg (by omega)]

/-- The test of a loop looks for a separator first. -/
def SeparatorFirst (sep : Char) (hit : Int → Buffer → Except Throwable Bool) : Prop :=
  ∀ i b, isAt b.array i sep = .ok false → hit i b = .ok false

theorem separatorFirst_isAdjoining (sep : Char) : SeparatorFirst sep (isAdjoining sep) := by
  intro i b h
  rw [isAdjoining, andAlso, h]
  rfl

theorem separatorFirst_isDotSlash (sep : Char) (p : Int) :
    SeparatorFirst sep (isDotSlash sep p) := by
  intro i b h
  rw [isDotSlash, andAlso, h]
  rfl

theorem separatorFirst_isDoubleDotSlash (sep : Char) (p : Int) :
    SeparatorFirst sep (isDoubleDotSlash sep p) := by
  intro i b h
  rw [isDoubleDotSlash, andAlso, h]
  rfl

/-- **A loop passes over the letters of a name**, from wherever it is in
it, to the position behind the name. -/
theorem passes_letters (rewrite : Int → Buffer → Except Throwable (Option (Int × Buffer)))
    {xs t ys : Text} (hsep : SeparatorFirst sep hit) (hb : b.Holds (xs ++ (t ++ ys)))
    (ht : sep ∉ t) (hi : (xs.length : Int) ≤ i) (hi' : i ≤ xs.length + t.length) :
    Passes hit rewrite i b (xs.length + t.length) b := by
  induction hn : (xs.length + t.length - i).toNat generalizing i with
  | zero =>
      obtain rfl : i = xs.length + t.length := by omega
      exact Passes.refl
  | succ n ih =>
      -- the character at `i` is a letter of the name
      obtain ⟨k, hk⟩ := Int.eq_ofNat_of_zero_le (a := i - xs.length) (by omega)
      have hread : isAt b.array i sep = .ok false :=
        hb.isAt_letter ht (k := k) (by omega) (by omega)
      have hsize := hb.size
      rw [List.length_append, List.length_append] at hsize
      have hnext : Passes hit rewrite i b (i + 1) b := passes_next (by omega) (hsep i b hread)
      exact hnext.trans (ih (by omega) (by omega) (by omega))

/-- A name that the test does not take at the separator behind it stays. -/
theorem passes_name (rewrite : Int → Buffer → Except Throwable (Option (Int × Buffer)))
    {xs t ys : Text} (hsep : SeparatorFirst sep hit) (hb : b.Holds (xs ++ (t ++ sep :: ys)))
    (ht : sep ∉ t) (hhit : hit (xs.length + t.length) b = .ok false)
    (hi : (xs.length : Int) ≤ i) (hi' : i ≤ xs.length + t.length) :
    Passes hit rewrite i b (xs.length + t.length + 1) b := by
  have hsize := hb.size
  simp only [List.length_append, List.length_cons] at hsize
  exact (passes_letters rewrite hsep hb ht hi hi').trans (passes_next (by omega) hhit)

end Zooffice
