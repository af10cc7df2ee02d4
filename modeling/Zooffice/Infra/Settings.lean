import Mathlib.Data.List.DropRight
import Zooffice.Infra.Model.Config
/-!
# A setting that is added to `system.conf`

An administrator who adds the line `key=value` to a `system.conf` whose
last line is ended sets that key and no other. What the server then takes
for the key is the value without the white space around it, or the default
when nothing else is left, unless `system-ex.conf` has the key itself.
-/


namespace Zooffice

open PropertyMap

/-! ## Trimming -/

/-- What is taken off the end leaves the beginning as it is. -/
theorem dropWhile_rdropWhile {α : Type*} {p : α → Bool} {l : List α} (h : l.dropWhile p = l) :
    (l.rdropWhile p).dropWhile p = l.rdropWhile p := by
  rw [List.dropWhile_eq_self_iff] at h ⊢
  intro hpos
  obtain ⟨r, hr⟩ := List.rdropWhile_prefix p l
  have hl : 0 < l.length := by
    have hlength := congrArg List.length hr
    rw [List.length_append] at hlength
    omega
  have hhead : (l.rdropWhile p)[0] = l[0] := (List.rdropWhile_prefix p l).getElem hpos
  rw [hhead]
  exact h hl

/-- The characters that `trim` takes off. -/
def isControl (c : Char) : Bool := c.toNat ≤ 32

theorem trim_eq (s : String) :
    trim s = String.ofList ((s.toList.dropWhile isControl).rdropWhile isControl) := rfl

@[simp] theorem trim_trim (s : String) : trim (trim s) = trim s := by
  rw [trim_eq (trim s), trim_eq s, String.toList_ofList,
    dropWhile_rdropWhile (List.dropWhile_idempotent isControl _), List.rdropWhile_idempotent]

/-- White space in front of a text is trimmed off anyhow. -/
theorem trim_dropWhile_isSpace (value : Text) :
    trim (String.ofList (value.dropWhile isSpace)) = trim (String.ofList value) := by
  have hdrop : (value.dropWhile isSpace).dropWhile isControl = value.dropWhile isControl := by
    induction value with
    | nil => rfl
    | cons c value ih =>
        rw [List.dropWhile_cons]
        split
        · next hspace =>
            have hcontrol : isControl c = true := by
              simp only [isSpace, decide_eq_true_eq] at hspace
              rcases hspace with rfl | rfl | rfl <;> decide
            rw [ih, List.dropWhile_cons_of_pos hcontrol]
        · rfl
  rw [trim_eq, trim_eq, String.toList_ofList, String.toList_ofList, hdrop]

/-- And does not matter for whether it is blank. -/
theorem isBlank_dropWhile_isSpace (value : Text) :
    isBlank (some (String.ofList (value.dropWhile isSpace))) =
      isBlank (some (String.ofList value)) := by
  unfold isBlank
  dsimp only
  rw [String.toList_ofList, String.toList_ofList]
  induction value with
  | nil => rfl
  | cons c value ih =>
      rw [List.dropWhile_cons]
      split
      · next hspace =>
          have hwhite : isWhitespace c = true := by
            simp only [isSpace, decide_eq_true_eq] at hspace
            rcases hspace with rfl | rfl | rfl <;> decide
          rw [ih, List.all_cons, hwhite, Bool.true_and]
      · rfl

namespace Config

variable {charsets : Charsets} {files : ConfFiles} {text key value : Text}
variable {before ex : PropertyMap}

/-- The file is read as the text that was written. -/
def ReadBack (charsets : Charsets) (text : Text) : Prop :=
  EncodingUtil.getAutoDecodedString charsets (utf8Bytes text) "UTF-8".toList = .ok text

/-- What the server has after the text was saved. -/
theorem loadSystemProperties_save (hread : ReadBack charsets text) :
    loadSystemProperties charsets (saveSystemConfigFile files text) =
      (do
        let properties ← load text
        let ex ← exProperties charsets files
        return (properties.put (nGrinderHome, files.directory)).putAll ex) := by
  change ((EncodingUtil.getAutoDecodedString charsets (utf8Bytes text) "UTF-8".toList >>= load) >>=
    fun properties => exProperties charsets files >>= fun ex =>
      pure ((properties.put (nGrinderHome, files.directory)).putAll ex)) = _
  rw [hread]
  rfl

/-- A property that is read off the two files. -/
theorem putAll_put_apply (p : PropertyMap) (directory key' : Text) :
    ((p.put (nGrinderHome, directory)).putAll ex) key' =
      (ex key').or (if key' = nGrinderHome then some directory else p key') := by
  rw [putAll, put]
  by_cases h : key' = nGrinderHome
  · rw [if_pos h, h, Function.update_self]
  · rw [if_neg h, Function.update_of_ne h]

/-- The value of a key that a plain line has set. -/
theorem getProperty_of_eq {p : PropertyMap} (hp : p key = some (value.dropWhile isSpace))
    (defaultValue : String) :
    PropertiesWrapper.getProperty p key defaultValue =
      if isBlank (some (String.ofList value)) then trim defaultValue
      else trim (String.ofList value) := by
  rw [PropertiesWrapper.getProperty, hp, Option.map_some, isBlank_dropWhile_isSpace]
  split
  · rfl
  · rw [trim_trim]
    exact trim_dropWhile_isSpace value

/-- **A line that is added to `system.conf` sets its key and no other.**
The file is loaded as it was before, every other property keeps its value,
and the key has the trimmed value of the line, or the default when that is
blank, unless `system-ex.conf` has the key. -/
theorem getProperty_of_added (hcomplete : Complete text) (hkey : PlainKey key)
    (hvalue : PlainValue value) (hhome : key ≠ nGrinderHome) (hread : ReadBack charsets text)
    (hreadAdded : ReadBack charsets (text ++ (lineOf key value ++ ['\n'])))
    (hex : exProperties charsets files = .ok ex)
    (hbefore : loadSystemProperties charsets (saveSystemConfigFile files text) = .ok before) :
    ∃ after, loadSystemProperties charsets
        (saveSystemConfigFile files (text ++ (lineOf key value ++ ['\n']))) = .ok after ∧
      (∀ key' defaultValue, key' ≠ key →
        PropertiesWrapper.getProperty after key' defaultValue =
          PropertiesWrapper.getProperty before key' defaultValue) ∧
      (∀ defaultValue, ex key ≠ none → PropertiesWrapper.getProperty after key defaultValue =
        PropertiesWrapper.getProperty before key defaultValue) ∧
      (∀ defaultValue, ex key = none → PropertiesWrapper.getProperty after key defaultValue =
        if isBlank (some (String.ofList value)) then trim defaultValue
        else trim (String.ofList value)) := by
  rw [loadSystemProperties_save hread, hex] at hbefore
  obtain ⟨p, hload, hp⟩ := except_bind_eq_ok.1 hbefore
  obtain rfl : (p.put (nGrinderHome, files.directory)).putAll ex = before := Except.ok.inj hp
  refine ⟨((p.put (key, value.dropWhile isSpace)).put (nGrinderHome, files.directory)).putAll ex,
    ?_, ?_, ?_, ?_⟩
  · rw [loadSystemProperties_save hreadAdded, load_append_lineOf hcomplete hkey hvalue, hload, hex]
    rfl
  · intro key' defaultValue hne
    have hsame : (((p.put (key, value.dropWhile isSpace)).put
        (nGrinderHome, files.directory)).putAll ex) key' =
        ((p.put (nGrinderHome, files.directory)).putAll ex) key' := by
      rw [putAll_put_apply, putAll_put_apply, put, Function.update_of_ne hne]
    rw [PropertiesWrapper.getProperty, hsame]
    rfl
  · intro defaultValue hset
    obtain ⟨v, hv⟩ := Option.ne_none_iff_exists'.1 hset
    have hsame : (((p.put (key, value.dropWhile isSpace)).put
        (nGrinderHome, files.directory)).putAll ex) key =
        ((p.put (nGrinderHome, files.directory)).putAll ex) key := by
      rw [putAll_put_apply, putAll_put_apply, hv, Option.some_or, Option.some_or]
    rw [PropertiesWrapper.getProperty, hsame]
    rfl
  · intro defaultValue hunset
    refine getProperty_of_eq ?_ defaultValue
    rw [putAll_put_apply, hunset, Option.none_or, if_neg hhome, put, Function.update_self]

/-- A home whose extension sets the region. -/
def regionalFiles : ConfFiles where
  directory := "/home".toList
  systemConf := none
  exHome := some (some (utf8Bytes "r=Beijing".toList))

theorem getProperty_of_added_regionalFiles :
    ∃ after, loadSystemProperties asciiCharsets
        (saveSystemConfigFile regionalFiles "#a\nb: c\nv= x\n".toList) = .ok after ∧
      PropertiesWrapper.getProperty after "v".toList "y" = trim " x" := by
  have hplain : PlainKey "v".toList := by
    refine ⟨fun c hc => ?_, 'v', rfl, by decide⟩
    obtain rfl : c = 'v' := List.mem_singleton.1 hc
    decide
  obtain ⟨after, hafter, -, -, hset⟩ :=
    @getProperty_of_added asciiCharsets regionalFiles "#a\nb: c\n".toList "v".toList
      " x".toList _ (empty.put ("r".toList, "Beijing".toList))
      (complete_of_newline "#a\nb: ".toList (c := 'c') (by decide) (by decide))
      hplain (by decide) (by decide) rfl rfl rfl rfl
  exact ⟨after, hafter, hset "y" rfl⟩

end Config

end Zooffice
