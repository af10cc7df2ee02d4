import Zooffice.Java.Text
import Zooffice.Java.Throwable
/-!
# How the security manager normalizes a file name

`ZoofficeSecurityManager.doNormalize` and `getPrefixLength`, on a Unix
system. A file name is the list of its characters, each of them one or two
of the units of a `String`: where a position of the source counts units it
matters for the second one only. `doNormalize` works in
an array that is two characters longer than the name: every access to it
is checked, and so is every `System.arraycopy` (`charAt`, `arraycopy`).
Its three loops have one shape (`scan`): the index goes up by one, and
where a test holds the array is rewritten and the index is set back.
-/


namespace Zooffice

/-! ## The prefix of a name -/

/-- `UNIX_SEPARATOR`. -/
def unixSeparator : Char := '/'

/-- `WINDOWS_SEPARATOR`. -/
def windowsSeparator : Char := '\\'

/-- `SYSTEM_SEPARATOR`, on Unix. -/
def systemSeparator : Char := unixSeparator

/-- `OTHER_SEPARATOR`, on Unix. -/
def otherSeparator : Char := windowsSeparator

/-- `isSeparator`. -/
def isSeparator (ch : Char) : Bool := ch = unixSeparator || ch = windowsSeparator

/-- `String.indexOf(ch, fromIndex)`. -/
def indexOf (text : Text) (ch : Char) (fromIndex : Nat) : Int :=
  match (text.drop fromIndex).findIdx? (· = ch) with
  | some k => (fromIndex + k : Nat)
  | none => -1

/-- The lesser of two positions, either of which may be missing: what
`getPrefixLength` does with `posUnix` and `posWin`, of which one is there. -/
def firstPosition (posUnix posWin : Int) : Int :=
  let posUnix := if posUnix = -1 then posWin else posUnix
  let posWin := if posWin = -1 then posUnix else posWin
  min posUnix posWin

/-- `Character.toUpperCase`, as far as the result is one of `A` to `Z`: two
letters outside ASCII have such an upper case. -/
def toUpperCase (ch : Char) : Char :=
  if ch = 'ı' then 'I' else if ch = 'ſ' then 'S' else ch.toUpper

/-- Whether `Character.toUpperCase(ch)` is one of `A` to `Z`. -/
def isDriveLetter (ch : Char) : Bool :=
  'A'.val ≤ (toUpperCase ch).val && (toUpperCase ch).val ≤ 'Z'.val

/-- Whether the character is a pair of units in a `String`, where `charAt(1)`
of a name that begins with it is the second unit of the pair. -/
def isSupplementary (ch : Char) : Bool := 0x10000 ≤ ch.val

/-- `getPrefixLength` of a name of two characters or more. -/
def prefixLengthOfLonger (ch0 ch1 : Char) (rest : Text) : Int :=
  let filename := ch0 :: ch1 :: rest
  if ch0 = '~' then
    let posUnix := indexOf filename unixSeparator 1
    let posWin := indexOf filename windowsSeparator 1
    if posUnix = -1 ∧ posWin = -1 then filename.length + 1
    else firstPosition posUnix posWin + 1
  else if ch1 = ':' ∧ ¬isSupplementary ch0 then
    if isDriveLetter ch0 then
      match rest with
      | [] => 2
      | ch2 :: _ => if isSeparator ch2 then 3 else 2
    else -1
  else if isSeparator ch0 && isSeparator ch1 then
    let posUnix := indexOf filename unixSeparator 2
    let posWin := indexOf filename windowsSeparator 2
    if (posUnix = -1 ∧ posWin = -1) ∨ posUnix = 2 ∨ posWin = 2 then -1
    else firstPosition posUnix posWin + 1
  else if isSeparator ch0 then 1 else 0

/-- `getPrefixLength`. -/
def getPrefixLength : Option Text → Int
  | none => -1
  | some [] => 0
  | some [ch0] =>
      if ch0 = ':' then -1 else if ch0 = '~' then 2 else if isSeparator ch0 then 1 else 0
  | some (ch0 :: ch1 :: rest) => if ch0 = ':' then -1 else prefixLengthOfLonger ch0 ch1 rest

/-! ## The array -/

/-- An access outside an array or a string. -/
def outOfBounds : Throwable := ⟨.indexOutOfBounds, none⟩

/-- What a loop of the model throws when its bound on the number of rounds
is used up. No run of `doNormalize` does. -/
def outOfFuel : Throwable := ⟨.error "out of fuel", none⟩

/-- `array[i]`. -/
def charAt (array : List Char) (i : Int) : Except Throwable Char :=
  if i < 0 then .error outOfBounds
  else match array[i.toNat]? with
    | some c => .ok c
    | none => .error outOfBounds

/-- `array[i] == c`. -/
def isAt (array : List Char) (i : Int) (c : Char) : Except Throwable Bool :=
  (charAt array i).bind fun ch => .ok (decide (ch = c))

/-- `&&` of two tests that read the array. -/
def andAlso (x y : Except Throwable Bool) : Except Throwable Bool :=
  x.bind fun b => if b then y else .ok false

/-- `System.arraycopy(array, srcPos, array, destPos, length)`. -/
def arraycopy (array : List Char) (srcPos destPos length : Int) :
    Except Throwable (List Char) :=
  if srcPos < 0 ∨ destPos < 0 ∨ length < 0 ∨ array.length < srcPos + length ∨
      array.length < destPos + length then
    .error outOfBounds
  else
    .ok (array.take destPos.toNat ++ (array.drop srcPos.toNat).take length.toNat ++
      array.drop (destPos + length).toNat)

/-- `new String(array, 0, count)`. -/
def newString (array : List Char) (count : Int) : Except Throwable Text :=
  if count < 0 ∨ array.length < count then .error outOfBounds
  else .ok (array.take count.toNat)

/-- The local variables that the loops of `doNormalize` change. -/
structure Buffer where
  array : List Char
  size : Int
  lastIsDirectory : Bool
  deriving DecidableEq

/-- `for (; i < size; i++) if (hit) rewrite`, where `rewrite` may return
null from the method (`none`). The first argument bounds the rounds. -/
def scan (hit : Int → Buffer → Except Throwable Bool)
    (rewrite : Int → Buffer → Except Throwable (Option (Int × Buffer))) :
    Nat → Int → Buffer → Except Throwable (Option Buffer)
  | 0, _, _ => .error outOfFuel
  | fuel + 1, i, b =>
      if i < b.size then
        (hit i b).bind fun found =>
          if found then
            (rewrite i b).bind fun
              | none => .ok none
              | some (i', b') => scan hit rewrite fuel (i' + 1) b'
          else scan hit rewrite fuel (i + 1) b
      else .ok (some b)

/-- The loop from index `start`. A round leaves fewer characters ahead. -/
def scanFrom (hit : Int → Buffer → Except Throwable Bool)
    (rewrite : Int → Buffer → Except Throwable (Option (Int × Buffer)))
    (start : Int) (b : Buffer) : Except Throwable (Option Buffer) :=
  scan hit rewrite ((b.size - start).toNat + 1) start b

/-! ## Adjoining slashes -/

/-- The test of the first loop. -/
def isAdjoining (separator : Char) (i : Int) (b : Buffer) : Except Throwable Bool :=
  andAlso (isAt b.array i separator) (isAt b.array (i - 1) separator)

/-- The body of the first loop. -/
def removeAdjoining (i : Int) (b : Buffer) : Except Throwable (Option (Int × Buffer)) :=
  (arraycopy b.array i (i - 1) (b.size - i)).bind fun array =>
    .ok (some (i - 1, { b with array := array, size := b.size - 1 }))

/-! ## Dot slash -/

/-- The test of the second loop. -/
def isDotSlash (separator : Char) (prefixLength i : Int) (b : Buffer) : Except Throwable Bool :=
  andAlso (isAt b.array i separator) (andAlso (isAt b.array (i - 1) '.')
    (if i = prefixLength + 1 then .ok true else isAt b.array (i - 2) separator))

/-- The body of the second loop. -/
def removeDot (i : Int) (b : Buffer) : Except Throwable (Option (Int × Buffer)) :=
  let lastIsDirectory := if i = b.size - 1 then true else b.lastIsDirectory
  (arraycopy b.array (i + 1) (i - 1) (b.size - i)).bind fun array =>
    .ok (some (i - 1,
      { array := array, size := b.size - 2, lastIsDirectory := lastIsDirectory }))

/-! ## Double dot slash -/

/-- The test of the third loop. -/
def isDoubleDotSlash (separator : Char) (prefixLength i : Int) (b : Buffer) :
    Except Throwable Bool :=
  andAlso (isAt b.array i separator) (andAlso (isAt b.array (i - 1) '.')
    (andAlso (isAt b.array (i - 2) '.')
      (if i = prefixLength + 2 then .ok true else isAt b.array (i - 3) separator)))

/-- `for (j = ...; j >= prefix; j--) if (array[j] == separator)`, over the
`n` positions from `prefix` on. -/
def lastSeparator (array : List Char) (separator : Char) (prefixLength : Int) :
    Nat → Except Throwable (Option Int)
  | 0 => .ok none
  | n + 1 =>
      (isAt array (prefixLength + n) separator).bind fun found =>
        if found then .ok (some (prefixLength + n))
        else lastSeparator array separator prefixLength n

/-- What the third loop does at `i` when it has looked for the separator
before: with one at `j`, the name behind it goes, else the first name. -/
def removeName (prefixLength i : Int) (b : Buffer) :
    Option Int → Except Throwable (Option (Int × Buffer))
  | some j =>
      (arraycopy b.array (i + 1) (j + 1) (b.size - i)).bind fun array =>
        .ok (some (j + 1, { b with array := array, size := b.size - (i - j) }))
  | none =>
      (arraycopy b.array (i + 1) prefixLength (b.size - i)).bind fun array =>
        .ok (some (prefixLength + 1,
          { b with array := array, size := b.size - (i + 1 - prefixLength) }))

/-- The body of the third loop. -/
def removeDoubleDot (separator : Char) (prefixLength i : Int) (b : Buffer) :
    Except Throwable (Option (Int × Buffer)) :=
  if i = prefixLength + 2 then .ok none
  else
    let lastIsDirectory := if i = b.size - 1 then true else b.lastIsDirectory
    (lastSeparator b.array separator prefixLength (i - 4 - prefixLength + 1).toNat).bind fun j =>
      removeName prefixLength i { b with lastIsDirectory := lastIsDirectory } j

/-! ## The whole -/

/-- "fix separators throughout": the other separator is replaced. -/
def fixSeparators (separator : Char) (array : List Char) : List Char :=
  let other := if separator = systemSeparator then otherSeparator else systemSeparator
  array.map fun ch => if ch = other then separator else ch

/-- "add extra separator on the end to simplify code below". -/
def addSeparator (separator : Char) (b : Buffer) : Except Throwable Buffer :=
  (isAt b.array (b.size - 1) separator).bind fun found =>
    if found then .ok b
    else if b.size < b.array.length then
      .ok { array := b.array.set b.size.toNat separator, size := b.size + 1,
            lastIsDirectory := false }
    else .error outOfBounds

/-- The text that is left in the array after the loops. -/
def result (prefixLength : Int) (keepSeparator : Bool) (b : Buffer) : Except Throwable Text :=
  if b.size ≤ 0 then .ok []
  else if b.size ≤ prefixLength then newString b.array b.size
  else if b.lastIsDirectory && keepSeparator then newString b.array b.size
  else newString b.array (b.size - 1)

/-- The three loops. -/
def removeDots (separator : Char) (prefixLength : Int) (b : Buffer) :
    Except Throwable (Option Buffer) :=
  (scanFrom (isAdjoining separator) removeAdjoining (prefixLength + 1) b).bind fun
    | none => .ok none
    | some b =>
      (scanFrom (isDotSlash separator prefixLength) removeDot (prefixLength + 1) b).bind fun
        | none => .ok none
        | some b =>
          scanFrom (isDoubleDotSlash separator prefixLength)
            (removeDoubleDot separator prefixLength) (prefixLength + 2) b

/-- `doNormalize`. -/
def doNormalize (filename : Option Text) (separator : Char) (keepSeparator : Bool) :
    Except Throwable (Option Text) :=
  match filename with
  | none => .ok none
  | some [] => .ok (some [])
  | some filename =>
      let prefixLength := getPrefixLength (some filename)
      if prefixLength < 0 then .ok none
      else
        let array := fixSeparators separator (filename ++ ['\x00', '\x00'])
        (addSeparator separator ⟨array, filename.length, true⟩).bind fun b =>
          (removeDots separator prefixLength b).bind fun
            | none => .ok none
            | some b => (result prefixLength keepSeparator b).bind fun text => .ok (some text)

end Zooffice
