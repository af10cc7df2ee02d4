import Mathlib.Data.List.Basic
/-!
# Strings as the Java code reads them

A reference to a `String` may be null, so it is an `Option String`. The
tests are those of commons-lang's `StringUtils` and the operations those
of `java.lang.String`, over the characters of the string.
-/


namespace Zooffice

/-- The characters of a string: what code that walks over one works on. -/
abbrev Text : Type := List Char

/-- `Character.isWhitespace`: the space separators but the no-break ones,
the line and paragraph separators, and the controls it lists. -/
def isWhitespace (c : Char) : Bool :=
  let n := c.toNat
  (9 ≤ n && n ≤ 13) || (28 ≤ n && n ≤ 32) || n == 0x1680 ||
    (0x2000 ≤ n && n ≤ 0x200A && n != 0x2007) || n == 0x2028 || n == 0x2029 ||
    n == 0x205F || n == 0x3000

/-- `StringUtils.isEmpty`. -/
def isEmpty (s : Option String) : Bool :=
  match s with
  | none => true
  | some v => v.toList.isEmpty

/-- `StringUtils.isNotEmpty`. -/
def isNotEmpty (s : Option String) : Bool := !isEmpty s

/-- `StringUtils.isBlank`. -/
def isBlank (s : Option String) : Bool :=
  match s with
  | none => true
  | some v => v.toList.all isWhitespace

/-- `StringUtils.isNotBlank`. -/
def isNotBlank (s : Option String) : Bool := !isBlank s

/-- `StringUtils.trim`: control characters and blanks go at both ends. -/
def trim (s : String) : String :=
  let isControl : Char → Bool := fun c => c.toNat ≤ 32
  String.ofList (((s.toList.dropWhile isControl).reverse.dropWhile isControl).reverse)

/-- What is trimmed off leaves characters of the text. -/
theorem mem_of_mem_trim {s : String} {c : Char} (h : c ∈ (trim s).toList) : c ∈ s.toList := by
  rw [trim, String.toList_ofList, List.mem_reverse] at h
  exact List.dropWhile_subset _ (List.mem_reverse.1 (List.dropWhile_subset _ h))

/-- `String.lastIndexOf(ch)`. -/
def lastIndexOf (text : Text) (ch : Char) : Int :=
  match text.reverse.findIdx? (· = ch) with
  | some k => text.length - 1 - (k : Int)
  | none => -1

/-- `String.length`: a character beyond the first plane counts for two. -/
def utf16Length : Text → Nat
  | [] => 0
  | c :: text => (if 0xFFFF < c.toNat then 2 else 1) + utf16Length text

theorem utf16Length_pos {text : Text} : 0 < utf16Length text ↔ text ≠ [] := by
  cases text with
  | nil => simp [utf16Length]
  | cons c text =>
      rw [utf16Length]
      refine iff_of_true ?_ (List.cons_ne_nil c text)
      split <;> omega

@[simp] theorem utf16Length_append (s t : Text) :
    utf16Length (s ++ t) = utf16Length s + utf16Length t := by
  induction s with
  | nil => rw [List.nil_append, utf16Length, Nat.zero_add]
  | cons c s ih => rw [List.cons_append, utf16Length, utf16Length, ih, Nat.add_assoc]

/-- `String.replace(target, replacement)`, for a target of one letter. -/
def replaceLetter (text : Text) (target : Char) (replacement : Text) : Text :=
  text.flatMap fun c => if c = target then replacement else [c]

/-! ## `String.toLowerCase`

It depends on the locale, so it is a parameter where it is used. -/

/-- What the code relies on in every locale: a percent sign at both ends
stays and does not change how the text between is lower-cased, neither of
the two signs comes or goes, and a text that is in lower case stays. -/
structure LowersCase (toLowerCase : String → String) : Prop where
  percent : ∀ s, toLowerCase ("%" ++ s ++ "%") = "%" ++ toLowerCase s ++ "%"
  mem_iff : ∀ s c, c = '%' ∨ c = '_' → (c ∈ (toLowerCase s).toList ↔ c ∈ s.toList)
  lowered : ∀ s s', (∀ c ∈ s.toList, c = '0' ∨ c ∈ (toLowerCase s').toList) → toLowerCase s = s

/-- Texts that are in lower case already stay. -/
theorem lowersCase_id : LowersCase fun s => s :=
  ⟨fun _ => rfl, fun _ _ _ => Iff.rfl, fun _ _ _ => rfl⟩

end Zooffice
