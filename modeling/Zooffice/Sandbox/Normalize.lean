import Zooffice.Sandbox.Loops
/-!
# What the normalization computes

`doNormalize` never reads or writes outside its array, and its result is
the prefix of the name followed by the names that a walk over the rest
comes to (`doNormalize_eq`). For a name with prefix length 1 that is the
text of the directory the name leads to (`doNormalize_of_prefix_one`).
-/


namespace Zooffice

open Zooffice.Path

/-! ## The prefix of a name -/

theorem indexOf_lt {text : Text} {ch : Char} {n : Nat} (h : indexOf text ch n ≠ -1) :
    n ≤ indexOf text ch n ∧ indexOf text ch n < text.length := by
  unfold indexOf at h ⊢
  cases hfind : (text.drop n).findIdx? (· = ch) with
  | none =>
      rw [hfind] at h
      exact absurd rfl h
  | some k =>
      obtain ⟨hk, -⟩ := List.findIdx?_eq_some_iff_getElem.1 hfind
      rw [List.length_drop] at hk
      dsimp only
      omega

theorem indexOf_eq_neg_one {text : Text} {ch : Char} {n : Nat} :
    indexOf text ch n = -1 ↔ ch ∉ text.drop n := by
  unfold indexOf
  cases hfind : (text.drop n).findIdx? (· = ch) with
  | none =>
      rw [List.findIdx?_eq_none_iff] at hfind
      refine iff_of_true rfl fun hmem => ?_
      simpa using hfind ch hmem
  | some k =>
      obtain ⟨hk, hch, -⟩ := List.findIdx?_eq_some_iff_getElem.1 hfind
      refine iff_of_false (by dsimp only; omega) fun hmem => hmem ?_
      rw [decide_eq_true_eq] at hch
      exact hch ▸ List.getElem_mem hk

/-- Where one of the two positions is there, the first of them is in the
name. -/
theorem firstPosition_lt {text : Text} {c d : Char} {n : Nat}
    (h : ¬(indexOf text c n = -1 ∧ indexOf text d n = -1)) :
    n ≤ firstPosition (indexOf text c n) (indexOf text d n) ∧
      firstPosition (indexOf text c n) (indexOf text d n) < text.length := by
  unfold firstPosition
  by_cases hc : indexOf text c n = -1
  · have hd := indexOf_lt fun hd => h ⟨hc, hd⟩
    rw [if_pos hc]
    dsimp only
    split <;> omega
  · have hc' := indexOf_lt hc
    rw [if_neg hc]
    dsimp only
    split
    · omega
    · have hd := indexOf_lt ‹_›
      omega

theorem isSeparator_eq_true {ch : Char} : isSeparator ch = true ↔ ch = '/' ∨ ch = '\\' := by
  rw [isSeparator, Bool.or_eq_true, decide_eq_true_eq, decide_eq_true_eq]
  rfl

/-- The name with every separator written as `/`. -/
def unixText (filename : Text) : Text := filename.map fun ch => if ch = '\\' then '/' else ch

/-- The same, with a separator at the end. -/
def closedText (filename : Text) : Text :=
  if (unixText filename).getLast? = some '/' then unixText filename
  else unixText filename ++ ['/']

theorem length_unixText (filename : Text) : (unixText filename).length = filename.length :=
  List.length_map _

theorem mem_unixText {filename : Text} (h : '/' ∈ unixText filename) :
    '/' ∈ filename ∨ '\\' ∈ filename := by
  obtain ⟨ch, hch, h⟩ := List.mem_map.1 h
  split at h
  · rename_i heq
    exact .inr (heq ▸ hch)
  · exact .inl (h ▸ hch)

/-- A longer text, when the name does not end in a separator. -/
theorem length_closedText (filename : Text) :
    (closedText filename).length = filename.length ∨
      (closedText filename).length = filename.length + 1 := by
  unfold closedText
  split
  · exact .inl (length_unixText filename)
  · exact .inr (by rw [List.length_append, length_unixText, List.length_singleton])

theorem length_closedText_of_not_mem {filename : Text} (h : '/' ∉ filename)
    (h' : '\\' ∉ filename) : (closedText filename).length = filename.length + 1 := by
  unfold closedText
  rw [if_neg, List.length_append, length_unixText, List.length_singleton]
  intro hlast
  rcases mem_unixText (List.mem_of_getLast? hlast) with hmem | hmem
  · exact h hmem
  · exact h' hmem

/-- What the prefix length says about a name: the class can make nothing of
it, it is relative, it begins with one separator, or its prefix is that
of a home directory, a drive or a server. -/
inductive PrefixOf (filename : Text) : Int → Prop
  | invalid : PrefixOf filename (-1)
  | relative (h : ∀ c, filename.head? = some c → isSeparator c = false) : PrefixOf filename 0
  | absolute (c : Char) (rest : Text) (h : filename = c :: rest) (hc : isSeparator c = true)
      (hrest : ∀ c, rest.head? = some c → isSeparator c = false) : PrefixOf filename 1
  | other (p : Int) (h : 2 ≤ p) (hle : p ≤ (closedText filename).length)
      (hhead : ∀ c rest, filename = c :: rest → isSeparator c = true →
        ∃ c' rest', rest = c' :: rest' ∧ isSeparator c' = true) : PrefixOf filename p

/-- A name that begins with a letter has no two separators to begin with. -/
theorem not_isSeparator_head {ch0 : Char} (rest : Text) (h : isSeparator ch0 = false) :
    ∀ c r, ch0 :: rest = c :: r → isSeparator c = true →
      ∃ c' rest', r = c' :: rest' ∧ isSeparator c' = true := by
  rintro c r ⟨⟩ hc
  rw [h] at hc
  exact absurd hc Bool.false_ne_true

/-- `~` and a user name: the prefix ends at the first separator, or one
position behind the name. -/
theorem prefixOf_home (ch1 : Char) (rest : Text) :
    PrefixOf ('~' :: ch1 :: rest) (prefixLengthOfLonger '~' ch1 rest) := by
  have hlength := length_closedText ('~' :: ch1 :: rest)
  have hhead := not_isSeparator_head (ch1 :: rest) (by decide : isSeparator '~' = false)
  simp only [List.length_cons] at hlength
  unfold prefixLengthOfLonger
  dsimp only
  rw [if_pos rfl]
  split
  · rename_i h
    refine .other _ (by simp only [List.length_cons]; omega) ?_ hhead
    -- without a separator the closed text has one character more
    have hunix : '/' ∉ ch1 :: rest := indexOf_eq_neg_one.1 h.1
    have hwin : '\\' ∉ ch1 :: rest := indexOf_eq_neg_one.1 h.2
    rw [length_closedText_of_not_mem (by simpa using hunix) (by simpa using hwin)]
    simp
  · rename_i h
    have hlt := firstPosition_lt h
    simp only [List.length_cons] at hlt
    exact .other _ (by omega) (by omega) hhead

/-- A drive letter and a colon. -/
theorem prefixOf_drive {ch0 : Char} (rest : Text) (htilde : ch0 ≠ '~')
    (hunit : ¬isSupplementary ch0) :
    PrefixOf (ch0 :: ':' :: rest) (prefixLengthOfLonger ch0 ':' rest) := by
  have hlength := length_closedText (ch0 :: ':' :: rest)
  simp only [List.length_cons] at hlength
  unfold prefixLengthOfLonger
  dsimp only
  rw [if_neg htilde, if_pos ⟨rfl, hunit⟩]
  split
  · rename_i hdrive
    have hletter : isSeparator ch0 = false := by
      rw [← Bool.not_eq_true, isSeparator_eq_true]
      rintro (rfl | rfl)
      · exact absurd hdrive (by decide)
      · exact absurd hdrive (by decide)
    have hhead := not_isSeparator_head (':' :: rest) hletter
    rcases rest with _ | ⟨ch2, rest⟩
    · rw [List.length_nil] at hlength
      exact .other 2 (by omega) (by omega) hhead
    · dsimp only
      simp only [List.length_cons] at hlength
      split
      · exact .other _ (by omega) (by omega) hhead
      · exact .other _ (by omega) (by omega) hhead
  · exact .invalid

/-- Two separators: the prefix is the name of a server, when it has one. -/
theorem prefixOf_server {ch0 ch1 : Char} (rest : Text)
    (hcolon : ¬(ch1 = ':' ∧ ¬isSupplementary ch0))
    (h0 : isSeparator ch0 = true) (h1 : isSeparator ch1 = true) :
    PrefixOf (ch0 :: ch1 :: rest) (prefixLengthOfLonger ch0 ch1 rest) := by
  have hlength := length_closedText (ch0 :: ch1 :: rest)
  simp only [List.length_cons] at hlength
  have htilde : ch0 ≠ '~' := by
    rintro rfl
    exact absurd h0 (by decide)
  unfold prefixLengthOfLonger
  dsimp only
  rw [if_neg htilde, if_neg hcolon, h0, h1, Bool.and_self, if_pos rfl]
  split
  · exact .invalid
  · rename_i h
    rw [not_or] at h
    have hlt := firstPosition_lt h.1
    simp only [List.length_cons] at hlt
    refine .other _ (by omega) (by omega) ?_
    rintro c r ⟨⟩ -
    exact ⟨ch1, rest, rfl, h1⟩

theorem prefixOf_prefixLengthOfLonger (ch0 ch1 : Char) (rest : Text) :
    PrefixOf (ch0 :: ch1 :: rest) (prefixLengthOfLonger ch0 ch1 rest) := by
  by_cases htilde : ch0 = '~'
  · subst htilde
    exact prefixOf_home ch1 rest
  by_cases hcolon : ch1 = ':' ∧ ¬isSupplementary ch0
  · obtain ⟨rfl, hunit⟩ := hcolon
    exact prefixOf_drive rest htilde hunit
  by_cases hboth : (isSeparator ch0 && isSeparator ch1) = true
  · have hseps := Bool.and_eq_true_iff.1 hboth
    exact prefixOf_server rest hcolon hseps.1 hseps.2
  · -- one separator, or none
    unfold prefixLengthOfLonger
    dsimp only
    rw [if_neg htilde, if_neg hcolon, if_neg hboth]
    cases hch0 : isSeparator ch0 with
    | true =>
        refine .absolute ch0 _ rfl hch0 ?_
        rintro c ⟨⟩
        simpa [hch0] using hboth
    | false =>
        refine .relative ?_
        rintro c ⟨⟩
        exact hch0

/-- **Every name has one of the four kinds of prefix.** -/
theorem prefixOf_getPrefixLength (filename : Text) :
    PrefixOf filename (getPrefixLength (some filename)) := by
  match filename with
  | [] => exact .relative (fun c h => absurd h (by simp))
  | [ch0] =>
      simp only [getPrefixLength]
      by_cases hcolon : ch0 = ':'
      · rw [if_pos hcolon]
        exact .invalid
      · rw [if_neg hcolon]
        by_cases htilde : ch0 = '~'
        · subst htilde
          exact .other _ (by decide) (by decide) (not_isSeparator_head [] (by decide))
        · rw [if_neg htilde]
          cases hch0 : isSeparator ch0 with
          | true => exact .absolute ch0 [] rfl hch0 (fun c h => absurd h (by simp))
          | false =>
              refine .relative ?_
              rintro c ⟨⟩
              exact hch0
  | ch0 :: ch1 :: rest =>
      simp only [getPrefixLength]
      split
      · exact .invalid
      · exact prefixOf_prefixLengthOfLonger ch0 ch1 rest

/-- The prefix is within the closed text, so the loops start behind it. -/
theorem getPrefixLength_le (filename : Text) :
    getPrefixLength (some filename) ≤ (closedText filename).length := by
  have hlength := length_closedText filename
  have hprefix := prefixOf_getPrefixLength filename
  generalize getPrefixLength (some filename) = p at hprefix ⊢
  cases hprefix with
  | invalid => omega
  | relative => omega
  | absolute c rest h =>
      rw [h, List.length_cons] at hlength
      rw [h]
      omega
  | other p h hle => exact hle

/-! ## The array before the loops and after them -/

theorem fixSeparators_append (filename : Text) :
    fixSeparators systemSeparator (filename ++ ['\x00', '\x00']) =
      unixText filename ++ ['\x00', '\x00'] := by
  rw [fixSeparators, List.map_append]
  rfl

/-- "lastIsDirectory" before the loops: whether the name ends in a
separator. -/
def endsInSeparator (filename : Text) : Bool := (unixText filename).getLast? = some '/'

/-- The array holds the name with a separator at its end. -/
theorem addSeparator_holds {filename : Text} (hne : filename ≠ []) :
    ∃ b, addSeparator systemSeparator
        ⟨unixText filename ++ ['\x00', '\x00'], filename.length, true⟩ = .ok b ∧
      b.Holds (closedText filename) ∧ b.lastIsDirectory = endsInSeparator filename := by
  have hlength := length_unixText filename
  obtain ⟨init, c, hinit⟩ :=
    (List.eq_nil_or_concat' (unixText filename)).resolve_left fun h => hne (by
      rw [h, List.length_nil] at hlength
      exact List.length_eq_zero_iff.1 hlength.symm)
  have hb : Buffer.Holds (init ++ c :: [])
      ⟨unixText filename ++ ['\x00', '\x00'], filename.length, true⟩ := by
    refine ⟨⟨['\x00', '\x00'], by rw [← hinit], by simp⟩, ?_⟩
    rw [← hinit, hlength]
  have hinit' : (filename.length : Int) - 1 = init.length := by
    rw [hinit, List.length_append, List.length_singleton] at hlength
    omega
  rw [addSeparator, hb.isAt hinit', endsInSeparator, closedText, hinit, List.getLast?_concat]
  simp only [Except.bind, Option.some.injEq]
  by_cases hc : c = '/'
  · subst hc
    exact ⟨_, rfl, by simpa [hinit] using hb, rfl⟩
  · have hc' : ¬decide (c = systemSeparator) = true := by
      rw [decide_eq_true_eq]
      exact hc
    have hroom : (filename.length : Int) < (init ++ [c] ++ ['\x00', '\x00']).length := by
      simp only [List.length_append, List.length_cons, List.length_nil]
      omega
    -- the separator takes the first of the two free cells
    have hset : (init ++ [c] ++ ['\x00', '\x00']).set filename.length '/' =
        init ++ [c] ++ ['/'] ++ ['\x00'] := by
      have hlast : filename.length = (init ++ [c]).length := by
        rw [← hlength, hinit]
      rw [hlast, List.set_append_right _ _ (Nat.le_refl _), Nat.sub_self]
      simp
    rw [if_neg hc', if_pos hroom, if_neg hc]
    refine ⟨_, rfl, ⟨⟨['\x00'], ?_, by simp⟩, ?_⟩, by simp [hc]⟩
    · rw [Int.toNat_natCast]
      exact hset
    · simp only [List.length_append, List.length_cons, List.length_nil]
      omega

/-- A text whose last character is a separator is made of names, each with
a separator behind it. -/
theorem exists_terminated {l : Text} (h : l = [] ∨ l.getLast? = some '/') :
    ∃ ts, l = terminated '/' ts ∧ ∀ t ∈ ts, '/' ∉ t := by
  rcases List.eq_nil_or_concat' l with rfl | ⟨l, c, rfl⟩
  · exact ⟨[], rfl, by simp⟩
  · obtain rfl : c = '/' := by simpa using h
    exact ⟨l.splitOn '/', (terminated_splitOn '/' l).symm, fun t ht => not_mem_of_mem_splitOn ht⟩

/-- The result that is made of the names behind the prefix. -/
def finish (pre : Text) (directory : Bool) (st : List Text) : Text :=
  if st = [] then pre
  else if directory then pre ++ terminated '/' st
  else (pre ++ terminated '/' st).dropLast

theorem Buffer.Holds.newString {b : Buffer} {xs ys : Text} {count : Int}
    (hb : b.Holds (xs ++ ys)) (hcount : count = xs.length) :
    newString b.array count = .ok xs := by
  obtain ⟨junk, harray, -⟩ := hb.array
  have hlen : b.array.length = xs.length + ys.length + junk.length := by
    rw [harray, List.length_append, List.length_append]
  rw [Zooffice.newString, if_neg (by omega), hcount, Int.toNat_natCast, harray, List.append_assoc,
    List.take_left']
  rfl

theorem result_holds {b : Buffer} {pre : Text} {st : List Text}
    (hb : b.Holds (pre ++ terminated '/' st)) (keepSeparator : Bool) :
    result pre.length keepSeparator b =
      .ok (finish pre (b.lastIsDirectory && keepSeparator) st) := by
  have hsize := hb.size
  have hb' : b.Holds (pre ++ terminated '/' st ++ []) := by rwa [List.append_nil]
  have hall : newString b.array b.size = .ok (pre ++ terminated '/' st) := hb'.newString hsize
  rcases List.eq_nil_or_concat' st with rfl | ⟨st, s, rfl⟩
  · -- nothing is left behind the prefix
    rw [terminated_nil, List.append_nil] at hsize hall
    rw [result, finish, if_pos rfl]
    split
    · obtain rfl : pre = [] := List.length_eq_zero_iff.1 (by omega)
      rfl
    · rw [if_pos (by omega), hall]
  · have hsplit : pre ++ terminated '/' (st ++ [s]) =
        (pre ++ terminated '/' st ++ s) ++ ['/'] := by simp
    have hpos : (pre.length : Int) < b.size := by
      rw [hsize, hsplit]
      simp only [List.length_append, List.length_singleton]
      omega
    have hzero : ¬b.size ≤ 0 := by omega
    have hprefix : ¬b.size ≤ pre.length := by omega
    have hnames : st ++ [s] ≠ [] := by simp
    rw [result, if_neg hzero, if_neg hprefix, finish, if_neg hnames]
    by_cases hkeep : (b.lastIsDirectory && keepSeparator) = true
    · rw [if_pos hkeep, if_pos hkeep, hall]
    · rw [if_neg hkeep, if_neg hkeep]
      rw [hsplit] at hb hsize ⊢
      rw [List.dropLast_concat]
      refine hb.newString ?_
      rw [List.length_append, List.length_singleton] at hsize
      omega

theorem getLast?_closedText (filename : Text) : (closedText filename).getLast? = some '/' := by
  unfold closedText
  split
  · assumption
  · rw [List.getLast?_concat]

/-- What stands behind the prefix is made of names. -/
theorem exists_names_behind (filename : Text) (p : Nat) :
    ∃ ts, (closedText filename).drop p = terminated '/' ts ∧ ∀ t ∈ ts, '/' ∉ t := by
  refine exists_terminated ?_
  by_cases hp : (closedText filename).length ≤ p
  · exact .inl (List.drop_eq_nil_of_le hp)
  · rw [List.getLast?_drop, if_neg hp]
    exact .inr (getLast?_closedText filename)

/-! ## The result -/

/-- **The normalization of a name with a prefix: null exactly when the
names behind the prefix lead above it, else the prefix and the names of
the directory that they lead to.** -/
theorem doNormalize_eq {filename : Text} {p : Nat} (hne : filename ≠ [])
    (hp : getPrefixLength (some filename) = p) (keepSeparator : Bool) :
    doNormalize (some filename) systemSeparator keepSeparator =
      .ok ((walk '.' (lead '/' ((closedText filename).drop p))
          (names '/' ((closedText filename).drop p))).map
        (finish ((closedText filename).take p)
          ((endsInSeparator filename || endsInDots (names '/' ((closedText filename).drop p))) &&
            keepSeparator))) := by
  have hle := getPrefixLength_le filename
  obtain ⟨b, hadd, hb, hlast⟩ := addSeparator_holds hne
  obtain ⟨ts, hts, hmem⟩ := exists_names_behind filename p
  have hpre : ((closedText filename).take p).length = p := by
    rw [List.length_take]
    omega
  have hb' : b.Holds ((closedText filename).take p ++ terminated '/' ts) := by
    rwa [← hts, List.take_append_drop]
  obtain ⟨o, hremove, ho⟩ := removeDots_endsAs hmem hb'
  rw [hpre] at hremove
  rw [← hts, hlast] at ho
  obtain ⟨c, cs, rfl⟩ := List.exists_cons_of_ne_nil hne
  have hneg : ¬(p : Int) < 0 := by omega
  unfold doNormalize
  dsimp only
  rw [hp, if_neg hneg, fixSeparators_append, hadd]
  change (removeDots '/' p b).bind _ = _
  rw [hremove]
  generalize walk '.' _ _ = w at ho ⊢
  cases w with
  | none =>
      rw [EndsAs] at ho
      rw [ho]
      rfl
  | some st =>
      obtain ⟨b', rfl, hb'', hlast'⟩ := ho
      have hresult := result_holds hb'' keepSeparator
      rw [hpre, hlast'] at hresult
      change (result p keepSeparator b').bind _ = _
      rw [hresult]
      rfl

/-- A name with prefix length 1 begins with one separator. -/
theorem eq_cons_of_prefix_one {filename : Text} (hp : getPrefixLength (some filename) = 1) :
    ∃ c rest, filename = c :: rest ∧ isSeparator c = true ∧
      ∀ c, rest.head? = some c → isSeparator c = false := by
  have hprefix := prefixOf_getPrefixLength filename
  generalize getPrefixLength (some filename) = p at hp hprefix
  cases hprefix with
  | invalid => omega
  | relative => omega
  | absolute c rest h hc hrest => exact ⟨c, rest, h, hc, hrest⟩
  | other p h => omega

/-- A name with prefix length 0 begins with a letter, or is empty. -/
theorem not_isSeparator_of_prefix_zero {filename : Text}
    (hp : getPrefixLength (some filename) = 0) :
    ∀ c, filename.head? = some c → isSeparator c = false := by
  have hprefix := prefixOf_getPrefixLength filename
  generalize getPrefixLength (some filename) = p at hp hprefix
  cases hprefix with
  | invalid => omega
  | relative h => exact h
  | absolute => omega
  | other p h => omega

theorem unixText_cons (c : Char) (rest : Text) :
    unixText (c :: rest) = (if c = '\\' then '/' else c) :: unixText rest := rfl

/-- The closed text of such a name: no separator follows the first. -/
theorem closedText_of_prefix_one {filename : Text}
    (hp : getPrefixLength (some filename) = 1) :
    ∃ rest, closedText filename = '/' :: rest ∧ lead '/' rest = [] ∧
      names '/' rest = names '/' (unixText filename) := by
  obtain ⟨c, rest, rfl, hc, hrest⟩ := eq_cons_of_prefix_one hp
  have hunix : unixText (c :: rest) = '/' :: unixText rest := by
    rw [unixText_cons]
    rcases isSeparator_eq_true.1 hc with rfl | rfl <;> rfl
  have hhead : rest = [] ∨ ∃ c' rest', unixText rest = c' :: rest' ∧ c' ≠ '/' := by
    rcases rest with _ | ⟨c', rest⟩
    · exact .inl rfl
    · have hc' := hrest c' rfl
      refine .inr ⟨_, _, unixText_cons c' rest, fun h => ?_⟩
      have hsep : isSeparator c' = true := by
        rw [isSeparator_eq_true]
        split at h
        · exact .inr ‹_›
        · exact .inl h
      rw [hc'] at hsep
      exact Bool.false_ne_true hsep
  unfold closedText
  rw [hunix]
  rcases hhead with rfl | ⟨c', rest', hrest', hne⟩
  · exact ⟨[], rfl, rfl, by simp [unixText]⟩
  · split
    · refine ⟨_, rfl, ?_, by simp⟩
      simp [lead, hrest', hne]
    · refine ⟨unixText rest ++ ['/'], rfl, ?_, ?_⟩
      · simp [lead, hrest', hne]
      · rw [names_append_cons, names_nil, List.append_nil, names_cons_self]

theorem finish_root (directory : Bool) (st : List Text) :
    finish ['/'] directory st = text '/' st directory := by
  unfold finish text
  by_cases hst : st = []
  · simp [hst]
  · cases directory with
    | true => simp [hst]
    | false =>
        rw [if_neg hst, if_neg Bool.false_ne_true, if_neg (by simp [hst]), List.singleton_append,
          cons_terminated, List.dropLast_concat]

/-- **A name with prefix length 1 leads to a directory under the root: its
normalization is the text of that directory**, and null when the names
lead above the root. -/
theorem doNormalize_of_prefix_one {filename : Text} (hp : getPrefixLength (some filename) = 1)
    (keepSeparator : Bool) :
    doNormalize (some filename) systemSeparator keepSeparator =
      .ok ((walk '.' [] (names '/' (unixText filename))).map fun st =>
        text '/' st ((endsInSeparator filename || endsInDots (names '/' (unixText filename))) &&
          keepSeparator)) := by
  obtain ⟨rest, hclosed, hlead, hnames⟩ := closedText_of_prefix_one hp
  have hne : filename ≠ [] := by
    obtain ⟨c, rest, rfl, -⟩ := eq_cons_of_prefix_one hp
    exact List.cons_ne_nil c rest
  rw [doNormalize_eq (p := 1) hne hp, hclosed]
  simp only [List.drop_succ_cons, List.drop_zero, List.take_succ_cons, List.take_zero, hlead,
    hnames]
  congr 2
  funext st
  exact finish_root _ st

/-- The prefix is kept. -/
theorem isPrefix_finish (pre : Text) (directory : Bool) (st : List Text) :
    pre <+: finish pre directory st := by
  unfold finish
  split
  · exact List.prefix_rfl
  · rename_i hst
    split
    · exact List.prefix_append _ _
    · obtain ⟨s, st, rfl⟩ := List.exists_cons_of_ne_nil hst
      have hne : terminated '/' (s :: st) ≠ [] := by simp
      rw [List.dropLast_append_of_ne_nil hne]
      exact List.prefix_append _ _

/-- What a normalization that is not null is made of. -/
theorem exists_walk_of_doNormalize {filename result : Text} {p : Nat} {keepSeparator : Bool}
    (hne : filename ≠ []) (hp : getPrefixLength (some filename) = p)
    (h : doNormalize (some filename) systemSeparator keepSeparator = .ok (some result)) :
    ∃ st directory, walk '.' (lead '/' ((closedText filename).drop p))
        (names '/' ((closedText filename).drop p)) = some st ∧
      result = finish ((closedText filename).take p) directory st := by
  rw [doNormalize_eq hne hp, Except.ok.injEq, Option.map_eq_some_iff] at h
  obtain ⟨st, hst, hresult⟩ := h
  exact ⟨st, _, hst, hresult.symm⟩

/-- A name that the class can make nothing of is normalized to null. -/
theorem doNormalize_of_neg {filename : Text} (hp : getPrefixLength (some filename) < 0)
    (keepSeparator : Bool) :
    doNormalize (some filename) systemSeparator keepSeparator = .ok none := by
  rcases filename with _ | ⟨c, rest⟩
  · exact absurd hp (by decide)
  · unfold doNormalize
    dsimp only
    rw [if_pos hp]

/-- **The normalization always comes to an end, and never accesses the
array outside its bounds.** -/
theorem exists_doNormalize_eq_ok (filename : Text) (keepSeparator : Bool) :
    ∃ r, doNormalize (some filename) systemSeparator keepSeparator = .ok r := by
  by_cases hneg : getPrefixLength (some filename) < 0
  · exact ⟨none, doNormalize_of_neg hneg keepSeparator⟩
  · obtain ⟨p, hp⟩ := Int.eq_ofNat_of_zero_le (a := getPrefixLength (some filename)) (by omega)
    rcases filename with _ | ⟨c, rest⟩
    · exact ⟨some [], rfl⟩
    · exact ⟨_, doNormalize_eq (List.cons_ne_nil c rest) hp keepSeparator⟩

/-- The closed text of a name that begins with a letter does too. -/
theorem closedText_cons_of_not_isSeparator {c : Char} (rest : Text)
    (hc : isSeparator c = false) : ∃ rest', closedText (c :: rest) = c :: rest' ∧ c ≠ '/' := by
  have hne : c ≠ '\\' ∧ c ≠ '/' := by
    rw [← not_or, Or.comm, ← isSeparator_eq_true, hc]
    exact Bool.false_ne_true
  unfold closedText
  rw [unixText_cons, if_neg hne.1]
  split
  · exact ⟨_, rfl, hne.2⟩
  · exact ⟨_, rfl, hne.2⟩

/-- A relative name leads to names, of which the first begins with a
letter. -/
theorem head?_ne_of_relative {filename result : Text} {keepSeparator : Bool}
    (hp : getPrefixLength (some filename) = 0)
    (h : doNormalize (some filename) systemSeparator keepSeparator = .ok (some result)) :
    result.head? ≠ some '/' := by
  rcases filename with _ | ⟨c, rest⟩
  · obtain rfl : [] = result := by simpa [doNormalize] using h
    simp
  · obtain ⟨rest', hclosed, hc⟩ := closedText_cons_of_not_isSeparator rest
      (not_isSeparator_of_prefix_zero hp c rfl)
    obtain ⟨st, directory, hwalk, rfl⟩ :=
      exists_walk_of_doNormalize (List.cons_ne_nil c rest) (p := 0) hp h
    have hlead : lead '/' (c :: rest') = [] := by simp [lead, hc]
    rw [hclosed, List.drop_zero, hlead] at hwalk
    have hproper : ∀ s ∈ st, Proper '/' '.' s :=
      proper_of_mem_walk (by simp) (fun n hn => not_mem_of_mem_names hn) hwalk
    rcases st with _ | ⟨s, st⟩
    · simp [finish]
    · have hs := hproper s List.mem_cons_self
      obtain ⟨ch, s, rfl⟩ := List.exists_cons_of_ne_nil hs.ne_nil
      have hch : ch ≠ '/' := fun heq => hs.not_mem (by simp [heq])
      cases directory with
      | true => simp [finish, hch]
      | false =>
          have hne : s ++ '/' :: terminated '/' st ≠ [] := by simp
          simp [finish, hch, List.dropLast_cons_of_ne_nil hne]

/-- **Only a name with prefix length 1 has a normalization that begins
with exactly one separator**, the root apart. -/
theorem eq_separator_of_prefix_ne_one {filename result : Text} {keepSeparator : Bool}
    (hp : getPrefixLength (some filename) ≠ 1)
    (h : doNormalize (some filename) systemSeparator keepSeparator = .ok (some result))
    {c : Char} {rest : Text} (hresult : result = '/' :: c :: rest) : c = '/' := by
  have hprefix := prefixOf_getPrefixLength filename
  generalize hq : getPrefixLength (some filename) = q at hp hprefix
  -- one case for each kind of prefix
  cases hprefix with
  | invalid =>
      rw [doNormalize_of_neg (by omega)] at h
      exact absurd h (by simp)
  | relative =>
      have hhead := head?_ne_of_relative hq h
      rw [hresult] at hhead
      exact absurd rfl hhead
  | absolute => exact absurd rfl hp
  | other _ h2 hle hhead =>
      obtain ⟨k, rfl⟩ := Int.eq_ofNat_of_zero_le (a := q) (by omega)
      obtain ⟨k, rfl⟩ : ∃ n, k = n + 2 := ⟨k - 2, by omega⟩
      rcases filename with _ | ⟨c', rest'⟩
      · rw [getPrefixLength] at hq
        omega
      · obtain ⟨st, directory, -, hfinish⟩ :=
          exists_walk_of_doNormalize (List.cons_ne_nil c' rest') hq h
        have htake := isPrefix_finish ((closedText (c' :: rest')).take (k + 2)) directory st
        rw [← hfinish, hresult] at htake
        cases hc' : isSeparator c' with
        | false =>
            -- the result begins with the letter that the name begins with
            obtain ⟨r, hclosed, hne⟩ := closedText_cons_of_not_isSeparator rest' hc'
            rw [hclosed, List.take_succ_cons, List.cons_prefix_cons] at htake
            exact absurd htake.1 hne
        | true =>
            -- it begins with two separators
            obtain ⟨c'', r, rfl, hc''⟩ := hhead c' rest' rfl hc'
            obtain ⟨r', hclosed⟩ : ∃ r', closedText (c' :: c'' :: r) = '/' :: '/' :: r' := by
              have hunix : unixText (c' :: c'' :: r) = '/' :: '/' :: unixText r := by
                rw [unixText_cons, unixText_cons]
                rcases isSeparator_eq_true.1 hc' with rfl | rfl <;>
                  rcases isSeparator_eq_true.1 hc'' with rfl | rfl <;> rfl
              unfold closedText
              rw [hunix]
              split
              · exact ⟨_, rfl⟩
              · exact ⟨_, rfl⟩
            rw [hclosed, List.take_succ_cons, List.take_succ_cons, List.cons_prefix_cons,
              List.cons_prefix_cons] at htake
            exact htake.2.1.symm

end Zooffice
