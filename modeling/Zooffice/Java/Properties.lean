import Mathlib.Logic.Function.Basic
import Zooffice.Common.Effect
import Zooffice.Java.Text
import Zooffice.Java.Throwable
/-!
# `java.util.Properties`

`Properties.load` reads a text line by line: a backslash at the end of a
line joins it with the next one, lines that are blank or begin with `#` or
`!` are passed over, and what is left is a key, a separator and a value,
in which a backslash escapes. Its reader walks over the letters with five
flags (`LineReader`); a text that it leaves as it was found is `Complete`,
and what is appended to such a text is read on its own.
-/


namespace Zooffice

/-! ## Logical lines -/

namespace PropertyMap

/-- The white space of a line. -/
def isSpace (c : Char) : Bool := c = ' ' ∨ c = '\t' ∨ c = Char.ofNat 12

/-- The end of a line. -/
def isEnd (c : Char) : Bool := c = '\n' ∨ c = '\r'

end PropertyMap

open PropertyMap

/-- `Properties.LineReader`: what it has of a line, and where it is. A line
that has been joined with the next one is `appended`, and `joined` until
the next letter. -/
structure LineReader where
  line : Text
  skipWhiteSpace : Bool
  appended : Bool
  precedingBackslash : Bool
  comment : Bool
  skipLF : Bool
  joined : Bool
  deriving DecidableEq, Repr

namespace LineReader

/-- At the beginning of a line. -/
def start : LineReader := ⟨[], true, false, false, false, false, false⟩

/-- The letter of a line behind its white space. -/
def readLetter (r : LineReader) (c : Char) : LineReader × Option Text :=
  if r.line = [] ∧ (c = '#' ∨ c = '!') then ({ r with comment := true }, none)
  else if isEnd c then
    if r.line = [] then ({ r with skipWhiteSpace := true }, none)
    else if r.precedingBackslash then
      -- the line goes on, behind the white space of the next one
      (⟨r.line.dropLast, true, true, false, false, c = '\r', true⟩, none)
    else (start, some r.line)
  else
    ({ r with
      line := r.line ++ [c]
      precedingBackslash := c = '\\' ∧ r.precedingBackslash = false }, none)

/-- The reader behind one letter more, and the line that ends with it. -/
def read (r : LineReader) (c : Char) : LineReader × Option Text :=
  let r := { r with joined := false }
  if r.comment then
    if isEnd c then ({ r with comment := false, skipWhiteSpace := true }, none) else (r, none)
  else if r.skipLF ∧ c = '\n' then ({ r with skipLF := false }, none)
  else
    let r := { r with skipLF := false }
    if r.skipWhiteSpace ∧ (isSpace c ∨ r.appended = false ∧ isEnd c) then (r, none)
    else readLetter { r with skipWhiteSpace := false, appended := false } c

/-- The line that ends with the text. A backslash that joins it with
nothing is dropped. -/
def finish (r : LineReader) : Option Text :=
  if r.joined then some r.line
  else if r.comment ∨ r.line = [] then none
  else some (if r.precedingBackslash then r.line.dropLast else r.line)

/-- The reader behind a text, and the lines that end in it. -/
def run : LineReader → Text → LineReader × List Text
  | r, [] => (r, [])
  | r, c :: text =>
      let next := r.read c
      let rest := next.1.run text
      (rest.1, next.2.toList ++ rest.2)

end LineReader

namespace PropertyMap

/-- The logical lines of a text. -/
def logicalLines (text : Text) : List Text :=
  let done := LineReader.start.run text
  done.2 ++ done.1.finish.toList

/-! ## Keys and values -/

/-- The key of a line, and what is left from its separator on. The flag is
whether the letter before is a backslash that escapes. -/
def keyOf : Bool → Text → Text × Text
  | _, [] => ([], [])
  | precedingBackslash, c :: line =>
      if (c = '=' ∨ c = ':' ∨ isSpace c) ∧ precedingBackslash = false then ([], c :: line)
      else
        let rest := keyOf (c = '\\' ∧ precedingBackslash = false) line
        (c :: rest.1, rest.2)

/-- The value behind white space and one separator. -/
def skipSeparator : Bool → Text → Text
  | _, [] => []
  | hasSep, c :: line =>
      if isSpace c then skipSeparator hasSep line
      else if hasSep = false ∧ (c = '=' ∨ c = ':') then skipSeparator true line
      else c :: line

/-- The value of a line, from its separator on. -/
def valueOf : Text → Text
  | [] => []
  | c :: line => skipSeparator (c = '=' ∨ c = ':') line

/-- What a hexadecimal digit stands for. -/
def hexDigit (c : Char) : Option Nat :=
  if '0' ≤ c ∧ c ≤ '9' then some (c.toNat - '0'.toNat)
  else if 'a' ≤ c ∧ c ≤ 'f' then some (c.toNat - 'a'.toNat + 10)
  else if 'A' ≤ c ∧ c ≤ 'F' then some (c.toNat - 'A'.toNat + 10)
  else none

/-- What the letter behind a backslash stands for. -/
def escaped (c : Char) : Char :=
  if c = 't' then '\t' else if c = 'r' then '\r' else if c = 'n' then '\n'
  else if c = 'f' then Char.ofNat 12 else c

/-- The exception for digits that are none. -/
def malformed : Throwable := ⟨.illegalArgument, some "Malformed \\uxxxx encoding."⟩

/-- `Properties.loadConvert`: the escapes are replaced. One that stands for
half of a character beyond the first plane is not kept apart. -/
def loadConvert : Text → Except Throwable Text
  | [] => .ok []
  | '\\' :: 'u' :: a :: b :: c :: d :: text =>
      match hexDigit a, hexDigit b, hexDigit c, hexDigit d with
      | some a, some b, some c, some d =>
          (loadConvert text).map (Char.ofNat (((a * 16 + b) * 16 + c) * 16 + d) :: ·)
      | _, _, _, _ => .error malformed
  | '\\' :: 'u' :: _ => .error malformed
  | '\\' :: c :: text => (loadConvert text).map (escaped c :: ·)
  | c :: text => (loadConvert text).map (c :: ·)

/-- The key and the value of a line. -/
def entryOf (line : Text) : Except Throwable (Text × Text) := do
  let raw := keyOf false line
  let key ← loadConvert raw.1
  let value ← loadConvert (valueOf raw.2)
  return (key, value)

end PropertyMap

/-- A `Properties` object whose keys and values are strings. -/
abbrev PropertyMap : Type := Text → Option Text

namespace PropertyMap

/-- `new Properties()`. -/
def empty : PropertyMap := fun _ => none

/-- `put`. -/
def put (p : PropertyMap) (entry : Text × Text) : PropertyMap :=
  Function.update p entry.1 (some entry.2)

/-- `putAll`. -/
def putAll (p q : PropertyMap) : PropertyMap := fun key => (q key).or (p key)

/-- What the lines put. -/
def putLines (p : PropertyMap) (lines : List Text) : Except Throwable PropertyMap :=
  lines.foldlM (fun p line => (entryOf line).map p.put) p

/-- `load(new StringReader(text))` of a new object. -/
def load (text : Text) : Except Throwable PropertyMap := putLines empty (logicalLines text)

end PropertyMap

/-! ## What is appended to a text -/

namespace LineReader

variable {r : LineReader} {c : Char} {s t l : Text}

theorem run_append (r : LineReader) (s t : Text) :
    r.run (s ++ t) = (((r.run s).1.run t).1, (r.run s).2 ++ ((r.run s).1.run t).2) := by
  induction s generalizing r with
  | nil => rfl
  | cons c s ih => rw [List.cons_append, run, run, ih, List.append_assoc]

/-- A letter of a line that is not its first one is kept, and nothing else
changes. -/
theorem readLetter_of_ne_nil (hline : r.line ≠ []) (hend : isEnd c = false) (hc : c ≠ '\\') :
    r.readLetter c = ({ r with line := r.line ++ [c], precedingBackslash := false }, none) := by
  rw [readLetter, if_neg fun h => hline h.1, hend, if_neg Bool.false_ne_true]
  simp [hc]

/-- Where a line has begun, and no backslash is before the next letter. -/
def within (line : Text) : LineReader := ⟨line, false, false, false, false, false, false⟩

/-- The letters of a line are kept one after the other. -/
theorem run_within (hline : l ≠ []) (ht : ∀ c ∈ t, isEnd c = false ∧ c ≠ '\\') :
    (within l).run t = (within (l ++ t), []) := by
  induction t generalizing l with
  | nil => rw [run, List.append_nil]
  | cons c t ih =>
      obtain ⟨hend, hc⟩ := ht c List.mem_cons_self
      have hread : (within l).read c = (within (l ++ [c]), none) :=
        readLetter_of_ne_nil (r := within l) hline hend hc
      rw [run, hread, ih (by simp) fun c hc => ht c (List.mem_cons_of_mem _ hc), List.append_assoc]
      rfl

/-- The first letter of a line begins it. -/
theorem read_start (hspace : isSpace c = false) (hend : isEnd c = false) (hc : c ≠ '\\')
    (hcomment : c ≠ '#' ∧ c ≠ '!') : start.read c = (within [c], none) := by
  have hskip : ¬((true = true) ∧ (isSpace c = true ∨ false = false ∧ isEnd c = true)) := by
    rw [hspace, hend]
    simp
  unfold read
  dsimp only [start]
  rw [if_neg Bool.false_ne_true, if_neg (by simp), if_neg hskip, readLetter,
    if_neg fun h => h.2.elim hcomment.1 hcomment.2, hend, if_neg Bool.false_ne_true]
  simp [hc, within]

/-- **A line without an escape is read as it stands.** -/
theorem run_line (hl : ∀ c ∈ l, isEnd c = false ∧ c ≠ '\\')
    (hhead : ∃ c, l.head? = some c ∧ isSpace c = false ∧ c ≠ '#' ∧ c ≠ '!') :
    start.run (l ++ ['\n']) = (start, [l]) := by
  obtain ⟨c, hc, hspace, hcomment⟩ := hhead
  obtain ⟨l', rfl⟩ : ∃ l', l = c :: l' := by
    cases l with
    | nil => cases hc
    | cons c' l' => exact ⟨l', by rw [Option.some.inj hc]⟩
  obtain ⟨hend, hbackslash⟩ := hl c List.mem_cons_self
  rw [List.cons_append, run, read_start hspace hend hbackslash hcomment, run_append,
    run_within (by simp) fun c hc => hl c (List.mem_cons_of_mem _ hc)]
  rfl

/-! ## The end of a line -/

/-- In a comment, the flags are as they are at its beginning. -/
def inComment : LineReader := ⟨[], false, false, false, true, false, false⟩

/-- What the flags of a reader say about each other: a backslash before the
next letter is one of the line, where white space is passed over there is
none, and nothing of a line unless it goes on, and in a comment there is
nothing at all. -/
structure Sound (r : LineReader) : Prop where
  blank : r.line = [] → r.precedingBackslash = false
  skipping : r.skipWhiteSpace = true → r.precedingBackslash = false
  fresh : r.skipWhiteSpace = true → r.appended = false → r.line = []
  comment : r.comment = true → r = inComment

theorem sound_start : start.Sound :=
  ⟨fun _ => rfl, fun _ => rfl, fun _ _ => rfl, nofun⟩

theorem sound_readLetter (hblank : r.line = [] → r.precedingBackslash = false)
    (hskip : r.skipWhiteSpace = false) (happended : r.appended = false)
    (hcomment : r.comment = false) (hLF : r.skipLF = false) (hjoined : r.joined = false) :
    (r.readLetter c).1.Sound := by
  obtain ⟨line, skipWhiteSpace, appended, precedingBackslash, comment, skipLF, joined⟩ := r
  dsimp only at hblank hskip happended hcomment hLF hjoined
  subst hskip happended hcomment hLF hjoined
  unfold readLetter
  dsimp only
  split_ifs with hmark hend hline hbackslash
  · exact ⟨hblank, nofun, nofun, fun _ => by rw [hblank hmark.1, hmark.1]; rfl⟩
  · exact ⟨hblank, fun _ => hblank hline, fun _ _ => hline, nofun⟩
  · exact ⟨fun _ => rfl, fun _ => rfl, nofun, nofun⟩
  · exact sound_start
  · exact ⟨fun h => absurd h (by simp), nofun, nofun, nofun⟩

theorem sound_read (h : r.Sound) (c : Char) : (r.read c).1.Sound := by
  obtain ⟨line, skipWhiteSpace, appended, precedingBackslash, comment, skipLF, joined⟩ := r
  unfold read
  dsimp only
  split_ifs with hcomment hend hLF hskip
  · obtain ⟨rfl, rfl, rfl, rfl, -, rfl, -⟩ := LineReader.mk.inj (h.comment hcomment)
    exact sound_start
  · obtain ⟨rfl, rfl, rfl, rfl, rfl, rfl, -⟩ := LineReader.mk.inj (h.comment hcomment)
    exact ⟨fun _ => rfl, nofun, nofun, fun _ => rfl⟩
  · exact ⟨h.blank, h.skipping, h.fresh, fun hc => absurd hc hcomment⟩
  · exact ⟨h.blank, h.skipping, h.fresh, fun hc => absurd hc hcomment⟩
  · exact sound_readLetter h.blank rfl rfl (Bool.eq_false_iff.2 hcomment) rfl rfl

theorem sound_run (h : r.Sound) (t : Text) : (r.run t).1.Sound := by
  induction t generalizing r with
  | nil => exact h
  | cons c t ih => exact ih (sound_read h c)

/-- No backslash, and no end of a line, is before the next letter. -/
structure Settled (r : LineReader) : Prop where
  sound : r.Sound
  flags : r.precedingBackslash = false ∧ r.skipLF = false

/-- Behind a letter that is neither a backslash nor the end of a line. -/
theorem settled_read (h : r.Sound) (hend : isEnd c = false) (hc : c ≠ '\\') :
    (r.read c).1.Settled := by
  have hsound := sound_read h c
  refine ⟨hsound, ?_⟩
  obtain ⟨line, skipWhiteSpace, appended, precedingBackslash, comment, skipLF, joined⟩ := r
  have hLF : ¬(skipLF = true ∧ c = '\n') := by
    rintro ⟨-, rfl⟩
    exact absurd hend (by decide)
  unfold read at hsound ⊢
  dsimp only at hsound ⊢
  cases comment with
  | true =>
      obtain ⟨rfl, rfl, rfl, rfl, -, rfl, rfl⟩ := LineReader.mk.inj (h.comment rfl)
      rw [hend]
      exact ⟨rfl, rfl⟩
  | false =>
      rw [if_neg Bool.false_ne_true, if_neg hLF]
      split
      · next hskip => exact ⟨h.skipping hskip.1, rfl⟩
      · rw [readLetter, hend, if_neg Bool.false_ne_true]
        split
        · next hmark => exact ⟨h.blank hmark.1, rfl⟩
        · exact ⟨by simp [hc], rfl⟩

/-- There a line feed ends the line. -/
theorem read_newline (h : r.Settled) : (r.read '\n').1 = start := by
  obtain ⟨⟨hblank, hskipping, hfresh, hcommented⟩, hbackslash, hLF⟩ := h
  obtain ⟨line, skipWhiteSpace, appended, precedingBackslash, comment, skipLF, joined⟩ := r
  dsimp only at hbackslash hLF hcommented hfresh
  subst hbackslash hLF
  have hend : isEnd '\n' = true := by decide
  have hspace : isSpace '\n' = false := by decide
  have hmark : ¬(line = [] ∧ ('\n' = '#' ∨ '\n' = '!')) := fun h => absurd h.2 (by decide)
  unfold read
  dsimp only
  cases comment with
  | true =>
      obtain ⟨rfl, rfl, rfl, -⟩ := LineReader.mk.inj (hcommented rfl)
      rfl
  | false =>
      rw [if_neg Bool.false_ne_true, if_neg fun h => Bool.false_ne_true h.1]
      split
      · next hskip =>
          obtain ⟨rfl, hrest⟩ := hskip
          rw [hspace] at hrest
          obtain ⟨rfl, -⟩ := hrest.resolve_left Bool.false_ne_true
          obtain rfl := hfresh rfl rfl
          rfl
      · rw [readLetter, if_neg hmark, hend, if_pos rfl]
        split
        · next hline =>
            obtain rfl := hline
            rfl
        · rfl

end LineReader

namespace PropertyMap

open LineReader

variable {s t key value line : Text} {p : PropertyMap}

/-- The text ends where a line may begin. -/
def Complete (text : Text) : Prop := (start.run text).1 = start

instance (text : Text) : Decidable (Complete text) := inferInstanceAs (Decidable (_ = _))

/-- **A text is complete** when it ends with a line feed, behind a letter
that is neither a backslash nor the end of a line. -/
theorem complete_of_newline (text : Text) {c : Char} (hend : isEnd c = false) (hc : c ≠ '\\') :
    Complete (text ++ [c, '\n']) := by
  rw [Complete, run_append]
  exact read_newline (settled_read (sound_run sound_start text) hend hc)

/-- **What is appended to a complete text is read on its own.** -/
theorem logicalLines_append (h : Complete s) (t : Text) :
    logicalLines (s ++ t) = logicalLines s ++ logicalLines t := by
  have hs : logicalLines s = (start.run s).2 := by
    rw [logicalLines, h]
    exact List.append_nil _
  rw [hs, logicalLines, run_append, h, logicalLines, List.append_assoc]

/-! ## A plain line -/

/-- A key that is written as it is. -/
structure PlainKey (key : Text) : Prop where
  plain : ∀ c ∈ key, isSpace c = false ∧ isEnd c = false ∧ c ≠ '=' ∧ c ≠ ':' ∧ c ≠ '\\'
  head : ∃ c, key.head? = some c ∧ c ≠ '#' ∧ c ≠ '!'

/-- A value that is written as it is. -/
def PlainValue (value : Text) : Prop := ∀ c ∈ value, isEnd c = false ∧ c ≠ '\\'

instance (value : Text) : Decidable (PlainValue value) := List.decidableBAll _ _

/-- The line of a key and a value. -/
def lineOf (key value : Text) : Text := key ++ '=' :: value

theorem logicalLines_lineOf (hkey : PlainKey key) (hvalue : PlainValue value) :
    logicalLines (lineOf key value ++ ['\n']) = [lineOf key value] := by
  have hl : ∀ c ∈ lineOf key value, isEnd c = false ∧ c ≠ '\\' := by
    intro c hc
    rcases List.mem_append.1 hc with hc | hc
    · exact ⟨(hkey.plain c hc).2.1, (hkey.plain c hc).2.2.2.2⟩
    · rcases List.mem_cons.1 hc with rfl | hc
      · exact ⟨by decide, by decide⟩
      · exact hvalue c hc
  have hhead : ∃ c, (lineOf key value).head? = some c ∧ isSpace c = false ∧ c ≠ '#' ∧ c ≠ '!' := by
    obtain ⟨c, hc, hcomment⟩ := hkey.head
    refine ⟨c, by rw [lineOf, List.head?_append, hc]; rfl, ?_, hcomment⟩
    exact (hkey.plain c (List.mem_of_head? hc)).1
  rw [logicalLines, run_line hl hhead]
  rfl

/-- The key ends at the separator. -/
theorem keyOf_lineOf (hkey : ∀ c ∈ key, isSpace c = false ∧ c ≠ '=' ∧ c ≠ ':' ∧ c ≠ '\\') :
    keyOf false (lineOf key value) = (key, '=' :: value) := by
  induction key with
  | nil => rfl
  | cons c key ih =>
      obtain ⟨hspace, hequals, hcolon, hbackslash⟩ := hkey c List.mem_cons_self
      have hnot : ¬((c = '=' ∨ c = ':' ∨ isSpace c = true) ∧ false = false) := by
        rintro ⟨rfl | rfl | h, -⟩
        · exact hequals rfl
        · exact hcolon rfl
        · rw [hspace] at h
          cases h
      have hflag : decide (c = '\\' ∧ false = false) = false :=
        decide_eq_false fun h => hbackslash h.1
      rw [lineOf, List.cons_append, keyOf, if_neg hnot, hflag]
      have hrest := ih fun c hc => hkey c (List.mem_cons_of_mem _ hc)
      rw [lineOf] at hrest
      rw [hrest]

/-- Behind the separator, white space is passed over. -/
theorem skipSeparator_true (value : Text) : skipSeparator true value = value.dropWhile isSpace := by
  induction value with
  | nil => rfl
  | cons c value ih =>
      rw [skipSeparator, List.dropWhile_cons]
      cases isSpace c with
      | true => rw [if_pos rfl, if_pos rfl, ih]
      | false => simp

theorem valueOf_equals (value : Text) : valueOf ('=' :: value) = value.dropWhile isSpace :=
  skipSeparator_true value

/-- A text without a backslash has no escape. -/
theorem loadConvert_of_not_mem (h : '\\' ∉ t) : loadConvert t = .ok t := by
  induction t with
  | nil => rfl
  | cons c t ih =>
      rw [List.mem_cons, not_or] at h
      rw [loadConvert, ih h.2]
      · rfl
      all_goals
        intros
        exact h.1 (‹c = '\\'›).symm

theorem entryOf_lineOf (hkey : PlainKey key) (hvalue : PlainValue value) :
    entryOf (lineOf key value) = .ok (key, value.dropWhile isSpace) := by
  have hkeyBackslash : '\\' ∉ key := fun h => (hkey.plain _ h).2.2.2.2 rfl
  have hvalueBackslash : '\\' ∉ value.dropWhile isSpace := fun h =>
    (hvalue _ (List.dropWhile_subset _ h)).2 rfl
  rw [entryOf, keyOf_lineOf fun c hc => ⟨(hkey.plain c hc).1, (hkey.plain c hc).2.2⟩,
    valueOf_equals, loadConvert_of_not_mem hkeyBackslash, loadConvert_of_not_mem hvalueBackslash]
  rfl

/-- **A line that is appended to a complete text sets its key**, and
changes no other. -/
theorem load_append_lineOf (h : Complete s) (hkey : PlainKey key) (hvalue : PlainValue value) :
    load (s ++ (lineOf key value ++ ['\n'])) =
      (load s).map fun p => p.put (key, value.dropWhile isSpace) := by
  rw [load, logicalLines_append h, logicalLines_lineOf hkey hvalue, putLines, List.foldlM_append,
    load, putLines]
  cases (logicalLines s).foldlM (fun p line => (entryOf line).map p.put) empty with
  | error e => rfl
  | ok p =>
      change (entryOf (lineOf key value)).map p.put >>= pure = _
      rw [entryOf_lineOf hkey hvalue]
      rfl

end PropertyMap

end Zooffice
