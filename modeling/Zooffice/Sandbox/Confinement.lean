import Zooffice.Sandbox.Model.SecurityManager
import Zooffice.Sandbox.Normalize
/-!
# Which files the checks let through

A file is inside a directory when its names, resolved one after the other,
begin with the names of the directory. The checks compare the texts. What
that amounts to is stated exactly: a name that the class reads as an
absolute path, and that does not lead above the root, passes when it is
inside, but also when the text of an allowed directory goes on inside one
of its names, as that of `/work` does in `/work-evil`.
-/


namespace Zooffice

open Zooffice.Path

/-- The directory that a path leads to, from the root: both separators
count, and empty names, `.` and `..` are resolved. -/
def lexical (path : Text) : List Text := resolve '.' [] (names '/' (unixText path))

/-- The lexical resolution of a file name: a relative one is taken under
the work directory. -/
def resolution (workDirectory : Option Text) (file : Text) : List Text :=
  if file.head?.any isSeparator then lexical file
  else resolve '.' (lexical (workDirectory.getD [])) (names '/' (unixText file))

/-- One of the directories is the file's, or an ancestor of it. -/
def Inside (workDirectory : Option Text) (dirs : List (Option Text)) (file : Text) : Prop :=
  ∃ d, some d ∈ dirs ∧ lexical d <+: resolution workDirectory file

/-- The directories that the loop comes to: it ends at a null. -/
def consulted : List (Option Text) → List Text
  | some d :: dirs => d :: consulted dirs
  | _ => []

/-- The class reads the name, under the work directory when it is relative,
as a path from the root, and the path does not lead above the root. -/
def ReadFromRoot (workDirectory : Option Text) (file : Text) : Prop :=
  ∃ path, ZoofficeSecurityManager.inWorkingDirectory (some file) workDirectory = some path ∧
    getPrefixLength (some path) = 1 ∧ (walk '.' [] (names '/' (unixText path))).isSome

/-- Where no text of a directory goes on inside a name of a file that is
outside. -/
def Unextended (workDirectory : Option Text) (dirs : List (Option Text)) (file : Text) : Prop :=
  ReadFromRoot workDirectory file →
    (∃ d ∈ consulted dirs, Extends '/' d (resolution workDirectory file)) →
      Inside workDirectory dirs file

theorem mem_of_mem_consulted {d : Text} {dirs : List (Option Text)} (h : d ∈ consulted dirs) :
    some d ∈ dirs := by
  induction dirs with
  | nil => exact absurd h (by simp [consulted])
  | cons dir dirs ih =>
      cases dir with
      | none => exact absurd h (by simp [consulted])
      | some d' =>
          rw [consulted, List.mem_cons] at h
          rcases h with rfl | h
          · exact List.mem_cons_self
          · exact List.mem_cons_of_mem _ (ih h)

theorem mem_consulted_append {d : Text} {dirs dirs' : List (Option Text)}
    (h : d ∈ consulted (dirs ++ dirs')) : d ∈ consulted dirs ∨ d ∈ consulted dirs' := by
  induction dirs with
  | nil => exact .inr h
  | cons dir dirs ih =>
      cases dir with
      | none => exact absurd h (by simp [consulted])
      | some d' =>
          rw [List.cons_append, consulted, List.mem_cons] at h
          rw [consulted, List.mem_cons]
          rcases h with h | h
          · exact .inl (.inl h)
          · exact (ih h).imp_left .inr

/-! ## What a check accepts -/

namespace ZoofficeSecurityManager

theorem startsWithAny_none (dirs : List (Option Text)) : startsWithAny none dirs = .ok false := by
  induction dirs with
  | nil => rfl
  | cons dir dirs ih => rw [startsWithAny, ih]

/-- The loop finds a directory that it comes to. -/
theorem startsWithAny_eq_true {path : Text} {dirs : List (Option Text)} :
    startsWithAny (some path) dirs = .ok true ↔ ∃ d ∈ consulted dirs, d <+: path := by
  induction dirs with
  | nil => simp [startsWithAny, consulted]
  | cons dir dirs ih =>
      cases dir with
      | none => simp [startsWithAny, consulted]
      | some d =>
          rw [startsWithAny, consulted]
          by_cases hd : d <+: path
          · simp [hd]
          · simp [hd, ih]

/-- **A check lets a name pass exactly when its normalization begins with
the text of a directory that the loop comes to.** -/
theorem fileAccessAllowed_eq_ok {access : String} {dirs : List (Option Text)}
    {workDirectory file : Option Text} :
    fileAccessAllowed access dirs workDirectory file = .ok () ↔
      ∃ path, normalize file workDirectory = .ok (some path) ∧
        ∃ d ∈ consulted dirs, d <+: path := by
  rw [fileAccessAllowed]
  cases normalize file workDirectory with
  | error e => simp [Except.bind]
  | ok filePath =>
      cases filePath with
      | none => simp [Except.bind, startsWithAny_none]
      | some path =>
          simp only [Except.bind, Except.ok.injEq, Option.some.injEq, exists_eq_left',
            ← startsWithAny_eq_true]
          cases startsWithAny (some path) dirs with
          | error e => simp
          | ok found => cases found <;> simp

end ZoofficeSecurityManager

/-! ## The directory that a file name leads to -/

variable {workDirectory : Option Text} {file path : Text} {st : List Text}

theorem unixText_append (p q : Text) : unixText (p ++ q) = unixText p ++ unixText q :=
  List.map_append

theorem backslash_not_mem_unixText (p : Text) : '\\' ∉ unixText p := by
  intro h
  obtain ⟨c, -, hc⟩ := List.mem_map.1 h
  split at hc
  · exact absurd hc (by decide)
  · rename_i hne
    exact hne hc

theorem unixText_of_not_mem {p : Text} (h : '\\' ∉ p) : unixText p = p := by
  have hid : ∀ c ∈ p, (if c = '\\' then '/' else c) = id c := by
    intro c hc
    refine if_neg ?_
    rintro rfl
    exact h hc
  rw [unixText, List.map_congr_left hid, List.map_id]

/-- **What the class walks over is the lexical resolution of the name**,
for a name that it reads from the root. -/
theorem resolution_of_walk
    (hpath : ZoofficeSecurityManager.inWorkingDirectory (some file) workDirectory = some path)
    (hp : getPrefixLength (some path) = 1)
    (hwalk : walk '.' [] (names '/' (unixText path)) = some st) :
    resolution workDirectory file = st := by
  have hrelative : ∀ w : Text, unixText (w ++ '/' :: file) = unixText w ++ '/' :: unixText file :=
    fun w => by rw [unixText_append]; rfl
  unfold resolution lexical
  cases workDirectory with
  | none =>
      obtain rfl : file = path := by
        simpa [ZoofficeSecurityManager.inWorkingDirectory] using hpath
      obtain ⟨c, rest, rfl, hc, -⟩ := eq_cons_of_prefix_one hp
      rw [if_pos (by simpa using hc), resolve_of_walk hwalk]
  | some w =>
      rw [ZoofficeSecurityManager.inWorkingDirectory] at hpath
      by_cases hzero : getPrefixLength (some file) = 0
      · -- a relative name
        rw [if_pos hzero, Option.some.injEq] at hpath
        have hhead : file.head?.any isSeparator = false := by
          cases hhead : file.head? with
          | none => rfl
          | some c => exact not_isSeparator_of_prefix_zero hzero c hhead
        rw [hhead, if_neg Bool.false_ne_true, Option.getD_some, ← resolve_append,
          ← names_append_cons, ← hrelative, hpath, resolve_of_walk hwalk]
      · rw [if_neg hzero, Option.some.injEq] at hpath
        obtain rfl := hpath
        obtain ⟨c, rest, rfl, hc, -⟩ := eq_cons_of_prefix_one hp
        rw [if_pos (by simpa using hc), resolve_of_walk hwalk]

/-- The normalization of such a name is the text of that directory. -/
theorem normalize_eq_text
    (hpath : ZoofficeSecurityManager.inWorkingDirectory (some file) workDirectory = some path)
    (hp : getPrefixLength (some path) = 1)
    (hwalk : walk '.' [] (names '/' (unixText path)) = some st) :
    ∃ closed, ZoofficeSecurityManager.normalize (some file) workDirectory =
      .ok (some (text '/' st closed)) := by
  rw [ZoofficeSecurityManager.normalize, hpath, doNormalize_of_prefix_one hp, hwalk]
  exact ⟨_, rfl⟩

/-- A text that the text of a directory begins with has no separator but
that of Unix. -/
theorem unixText_of_isPrefix_text {d : Text} {closed : Bool}
    (hwalk : walk '.' [] (names '/' (unixText path)) = some st) (hd : d <+: text '/' st closed) :
    unixText d = d := by
  refine unixText_of_not_mem fun hmem => ?_
  rcases mem_text (hd.subset hmem) with h | ⟨n, hn, hc⟩
  · exact absurd h (by decide)
  · have hn' := (mem_of_mem_walk hwalk n hn).resolve_left (by simp)
    exact backslash_not_mem_unixText path (mem_of_mem_names hn' hc)

/-! ## The checks -/

/-- **A check keeps a file inside the directories exactly when no text of
a directory goes on inside a name of a file that is outside.** -/
theorem inside_of_accepted_iff {access : String} {dirs : List (Option Text)}
    (hdirs : ∀ d ∈ consulted dirs, IsAbsolute d) :
    (ZoofficeSecurityManager.fileAccessAllowed access dirs workDirectory (some file) = .ok () →
      Inside workDirectory dirs file) ↔ Unextended workDirectory dirs file := by
  rw [ZoofficeSecurityManager.fileAccessAllowed_eq_ok]
  constructor
  · -- a file under such a directory passes, so it has to be inside
    rintro h ⟨path, hpath, hp, hsome⟩ ⟨d, hd, hext⟩
    obtain ⟨st, hwalk⟩ := Option.isSome_iff_exists.1 hsome
    rw [resolution_of_walk hpath hp hwalk] at hext
    obtain ⟨closed, hnormalize⟩ := normalize_eq_text hpath hp hwalk
    exact h ⟨_, hnormalize, d, hd, hext.isPrefix_text closed⟩
  · rintro h ⟨result, hnormalize, d, hd, hprefix⟩
    obtain ⟨rest, rfl, hrest⟩ := hdirs d hd
    obtain ⟨path, hpath⟩ : ∃ path,
        ZoofficeSecurityManager.inWorkingDirectory (some file) workDirectory = some path := by
      cases workDirectory with
      | none => exact ⟨file, rfl⟩
      | some w =>
          rw [ZoofficeSecurityManager.inWorkingDirectory]
          split
          · exact ⟨_, rfl⟩
          · exact ⟨_, rfl⟩
    rw [ZoofficeSecurityManager.normalize, hpath] at hnormalize
    by_cases hp : getPrefixLength (some path) = 1
    · rw [doNormalize_of_prefix_one hp, Except.ok.injEq, Option.map_eq_some_iff] at hnormalize
      obtain ⟨st, hwalk, rfl⟩ := hnormalize
      have hresolution := resolution_of_walk hpath hp hwalk
      have hproper : ∀ s ∈ st, Proper '/' '.' s :=
        proper_of_mem_walk (by simp) (fun n hn => not_mem_of_mem_names hn) hwalk
      rcases resolve_isPrefix_or_extends hproper hprefix [] with hle | hext
      · -- the directory is an ancestor
        refine ⟨'/' :: rest, mem_of_mem_consulted hd, ?_⟩
        rw [hresolution, lexical, unixText_of_isPrefix_text hwalk hprefix]
        simpa using hle
      · refine h ⟨path, hpath, hp, by rw [hwalk]; rfl⟩ ⟨_, hd, ?_⟩
        rwa [hresolution]
    · -- only the root is a beginning of the normalization
      rcases rest with _ | ⟨c, rest⟩
      · refine ⟨['/'], mem_of_mem_consulted hd, ?_⟩
        have hroot : lexical ['/'] = [] := by decide
        rw [hroot]
        exact List.nil_prefix
      · obtain ⟨tail, rfl⟩ := hprefix
        have hc := eq_separator_of_prefix_ne_one hp hnormalize rfl
        subst hc
        exact absurd (hrest _ rfl) (by decide)

/-! ## The directories that the manager is made with -/

theorem isAbsolute_cons {c : Char} (rest : Text) (h : isSeparator c = false) :
    IsAbsolute ('/' :: c :: rest) := by
  refine ⟨c :: rest, rfl, ?_⟩
  rintro c' ⟨⟩
  exact h

theorem isAbsolute_absolutePath {path : Text} (h : IsAbsolute path) :
    IsAbsolute (absolutePath path) := by
  obtain ⟨rest, rfl, hrest⟩ := h
  rcases rest with _ | ⟨c, rest⟩
  · exact ⟨[], by decide, by simp⟩
  · have hsep := hrest c rfl
    have hc : c ≠ '/' := by
      rintro rfl
      exact absurd hsep (by decide)
    obtain ⟨n, ns, hnames⟩ := names_cons_of_ne hc rest
    have habsolute : absolutePath ('/' :: c :: rest) = '/' :: c :: (n ++ rooted '/' ns) := by
      rw [absolutePath, names_cons_self, hnames, if_neg (List.cons_ne_nil _ _), rooted_cons]
      rfl
    rw [habsolute]
    exact isAbsolute_cons _ hsep

/-- An absolute path that the class can read has prefix length 1. -/
theorem prefix_one_of_isAbsolute {path : Text} (h : IsAbsolute path)
    (hp : ¬getPrefixLength (some path) < 0) : getPrefixLength (some path) = 1 := by
  obtain ⟨rest, rfl, hrest⟩ := h
  have hprefix := prefixOf_getPrefixLength ('/' :: rest)
  generalize getPrefixLength (some ('/' :: rest)) = p at hp hprefix ⊢
  cases hprefix with
  | invalid => omega
  | relative h => exact absurd (h '/' rfl) (by decide)
  | absolute => rfl
  | other _ h2 hle hhead =>
      obtain ⟨c, rest', rfl, hc⟩ := hhead '/' rest rfl (by decide)
      rw [hrest c rfl] at hc
      exact absurd hc Bool.false_ne_true

/-- The text of a directory is absolute. -/
theorem isAbsolute_text (closed : Bool)
    (hwalk : walk '.' [] (names '/' (unixText path)) = some st) :
    IsAbsolute (text '/' st closed) := by
  have hproper : ∀ s ∈ st, Proper '/' '.' s :=
    proper_of_mem_walk (by simp) (fun n hn => not_mem_of_mem_names hn) hwalk
  rcases st with _ | ⟨s, st⟩
  · exact ⟨[], by simp [text], by simp⟩
  · have hs := hproper s List.mem_cons_self
    obtain ⟨c, s, rfl⟩ := List.exists_cons_of_ne_nil hs.ne_nil
    have hc : isSeparator c = false := by
      have hslash : c ≠ '/' := fun heq => hs.not_mem (by simp [heq])
      have hmem := (mem_of_mem_walk hwalk _ List.mem_cons_self).resolve_left (by simp)
      have hback : c ≠ '\\' := by
        rintro rfl
        exact backslash_not_mem_unixText path (mem_of_mem_names hmem List.mem_cons_self)
      rw [← Bool.not_eq_true, isSeparator_eq_true, not_or]
      exact ⟨hslash, hback⟩
    obtain ⟨rest, hrest⟩ : ∃ rest, text '/' ((c :: s) :: st) closed = '/' :: c :: rest := by
      unfold text
      split
      · exact ⟨_, rfl⟩
      · exact ⟨_, rfl⟩
    rw [hrest]
    exact isAbsolute_cons rest hc

/-- The last separator of a text that has one. -/
theorem lastIndexOf_spec (text : Text) (ch : Char) (h : ch ∈ text) :
    ∃ k : Nat, lastIndexOf text ch = k ∧ text[k]? = some ch := by
  unfold lastIndexOf
  cases hfind : text.reverse.findIdx? (· = ch) with
  | none =>
      rw [List.findIdx?_eq_none_iff] at hfind
      exact absurd (hfind ch (List.mem_reverse.2 h)) (by simp)
  | some k =>
      obtain ⟨hk, hch, -⟩ := List.findIdx?_eq_some_iff_getElem.1 hfind
      rw [List.length_reverse] at hk
      rw [decide_eq_true_eq, List.getElem_reverse] at hch
      refine ⟨text.length - 1 - k, by dsimp only; omega, ?_⟩
      rw [List.getElem?_eq_getElem (by omega), hch]

namespace ZoofficeSecurityManager

/-- The log directory is beside the work directory. -/
theorem logDirectory_of_isAbsolute {w : Text} (h : IsAbsolute w) :
    ∃ l, logDirectory (some w) = .ok l ∧ IsAbsolute l := by
  obtain ⟨rest, rfl, hrest⟩ := h
  obtain ⟨k, hk, hkth⟩ := lastIndexOf_spec ('/' :: rest) '/' List.mem_cons_self
  obtain ⟨hlt, -⟩ := List.getElem?_eq_some_iff.1 hkth
  have hfst : substringTo ('/' :: rest) k = .ok (('/' :: rest).take k) := by
    rw [substringTo, if_neg (by omega), Int.toNat_natCast]
  have hsnd : substringTo (('/' :: rest).take k) k = .ok (('/' :: rest).take k) := by
    rw [substringTo, if_neg (by rw [List.length_take]; omega), Int.toNat_natCast,
      List.take_take, Nat.min_self]
  refine ⟨('/' :: rest).take k ++ '/' :: "log".toList, ?_, ?_⟩
  · rw [logDirectory, if_neg (by simp), hk, hfst]
    change (substringTo (('/' :: rest).take k) k).bind _ = _
    rw [hsnd]
    rfl
  · rcases k with _ | _ | k
    · exact isAbsolute_cons (c := 'l') ['o', 'g'] (by decide)
    · -- the second character is no separator
      rw [List.getElem?_cons_succ, ← List.head?_eq_getElem?] at hkth
      exact absurd (hrest '/' hkth) (by decide)
    · rcases rest with _ | ⟨c, rest⟩
      · simp at hlt
      · exact isAbsolute_cons _ (hrest c rfl)

/-- A work directory that the class can read is absolute again. -/
theorem workDirectory_isAbsolute {d w : Text} (h : IsAbsolute d)
    (hw : normalize (some d) none = .ok (some w)) : IsAbsolute w := by
  have hw' : doNormalize (some d) systemSeparator true = .ok (some w) := hw
  have hp : getPrefixLength (some d) = 1 := by
    refine prefix_one_of_isAbsolute h fun hneg => ?_
    rw [doNormalize_of_neg hneg] at hw'
    simp at hw'
  rw [doNormalize_of_prefix_one hp, Except.ok.injEq, Option.map_eq_some_iff] at hw'
  obtain ⟨st, hwalk, rfl⟩ := hw'
  exact isAbsolute_text _ hwalk

theorem isAbsolute_of_mem_addIfNotEmpty {dir : Option Text} {d : Text}
    (hdir : ∀ d, dir = some d → d ≠ [] → IsAbsolute d)
    (hd : d ∈ consulted (addIfNotEmpty dir)) : IsAbsolute d := by
  unfold addIfNotEmpty at hd
  split at hd
  · rename_i hne
    cases dir with
    | none => exact absurd hne (by simp [isNotEmpty])
    | some d' =>
        obtain rfl : d = d' := by simpa [consulted] using hd
        refine hdir d rfl ?_
        rintro rfl
        exact absurd hne (by decide)
  · exact absurd hd (by simp [consulted])

/-- **The manager can be constructed, and every directory that a check
comes to is absolute.** -/
theorem initAccessOfDirectories_eq_ok (p : SystemProperties) :
    ∃ m, initAccessOfDirectories p = .ok m ∧
      (∀ d ∈ consulted m.writeAllowedDirectory, IsAbsolute d) ∧
      ∀ d ∈ consulted m.deleteAllowedDirectory, IsAbsolute d := by
  obtain ⟨work, hwork⟩ := exists_doNormalize_eq_ok (absolutePath p.userDir) true
  have hnormalize : normalize (some (absolutePath p.userDir)) none = .ok work := hwork
  have hwork' : ∀ w, work = some w → IsAbsolute w := by
    rintro w rfl
    exact workDirectory_isAbsolute (isAbsolute_absolutePath p.userDir_absolute) hnormalize
  obtain ⟨log, hlog, hlog'⟩ : ∃ l, logDirectory work = .ok l ∧
      (work ≠ none → IsAbsolute l) := by
    cases work with
    | none => exact ⟨_, rfl, fun h => absurd rfl h⟩
    | some w =>
        obtain ⟨l, hl, habs⟩ := logDirectory_of_isAbsolute (hwork' w rfl)
        exact ⟨l, hl, fun _ => habs⟩
  have hinit : initAccessOfDirectories p = .ok (withDirectories p work log) := by
    rw [initAccessOfDirectories, hnormalize]
    change (logDirectory work).bind _ = _
    rw [hlog]
    rfl
  refine ⟨_, hinit, fun d hd => ?_, fun d hd => ?_⟩
  · have hpython : d ∈ consulted [work, some log, some p.tmpDir] → IsAbsolute d := by
      intro hd
      cases work with
      | none => exact absurd hd (by simp [consulted])
      | some w =>
          have hd' : d = w ∨ d = log ∨ d = p.tmpDir := by simpa [consulted] using hd
          rcases hd' with rfl | rfl | rfl
          · exact hwork' d rfl
          · exact hlog' (by simp)
          · exact p.tmpDir_absolute
    rcases mem_consulted_append hd with hd | hd
    · rcases mem_consulted_append hd with hd | hd
      · rcases mem_consulted_append hd with hd | hd
        · rcases mem_consulted_append hd with hd | hd
          · exact isAbsolute_of_mem_addIfNotEmpty p.pythonCache_absolute hd
          · exact isAbsolute_of_mem_addIfNotEmpty p.pythonHome_absolute hd
        · exact isAbsolute_of_mem_addIfNotEmpty p.pythonPath_absolute hd
      · exact isAbsolute_of_mem_addIfNotEmpty p.pythonCache_absolute hd
    · exact hpython hd
  · cases work with
    | none => exact absurd hd (by simp [withDirectories, consulted])
    | some w =>
        obtain rfl : d = w := by simpa [withDirectories, consulted] using hd
        exact hwork' d rfl

end ZoofficeSecurityManager

/-! ## The result -/

/-- What is asked of the checks of deleting and of writing a file: they
return only for a file inside one of the directories, writing apart from
the names with the marker of a test's log. -/
def KeptInside (m : ZoofficeSecurityManager) (file : Text) : Prop :=
  (m.checkDelete (some file) = .ok () →
    Inside m.workDirectory m.deleteAllowedDirectory file) ∧
  (ZoofficeSecurityManager.hasLogMarker file = false → m.checkWrite (some file) = .ok () →
    Inside m.workDirectory m.writeAllowedDirectory file)

/-- **The checks keep a file inside the allowed directories exactly when
no text of a directory goes on inside a name of a file that is outside.** -/
theorem keptInside_iff (p : SystemProperties) :
    ∃ m, ZoofficeSecurityManager.initAccessOfDirectories p = .ok m ∧ ∀ file,
      KeptInside m file ↔
        Unextended m.workDirectory m.deleteAllowedDirectory file ∧
          (ZoofficeSecurityManager.hasLogMarker file = false →
            Unextended m.workDirectory m.writeAllowedDirectory file) := by
  obtain ⟨m, hm, hwrite, hdelete⟩ := ZoofficeSecurityManager.initAccessOfDirectories_eq_ok p
  refine ⟨m, hm, fun file => and_congr (inside_of_accepted_iff hdelete) ?_⟩
  refine imp_congr_right fun hmarker => ?_
  have hcheck : m.checkWrite (some file) = ZoofficeSecurityManager.fileAccessAllowed "write"
      m.writeAllowedDirectory m.workDirectory (some file) := by
    rw [ZoofficeSecurityManager.checkWrite, ZoofficeSecurityManager.fileAccessWriteAllowed,
      Option.any_some, hmarker, if_neg Bool.false_ne_true]
  rw [hcheck]
  exact inside_of_accepted_iff hwrite

/-- The properties of an agent that runs in `/work`. -/
def workProperties : SystemProperties where
  userDir := "/work".toList
  tmpDir := "/tmp".toList
  pythonPath := none
  pythonHome := none
  pythonCache := none
  userDir_absolute := isAbsolute_cons (c := 'w') ['o', 'r', 'k'] (by decide)
  tmpDir_absolute := isAbsolute_cons (c := 't') ['m', 'p'] (by decide)
  pythonPath_absolute := nofun
  pythonHome_absolute := nofun
  pythonCache_absolute := nofun

/-- A file beside the work directory can be deleted. -/
theorem not_keptInside_workEvil :
    ∃ m, ZoofficeSecurityManager.initAccessOfDirectories workProperties = .ok m ∧
      ¬KeptInside m "/work-evil".toList := by
  refine ⟨⟨some "/work".toList, [some "/work".toList, some "/log".toList, some "/tmp".toList],
    [some "/work".toList]⟩, rfl, fun h => ?_⟩
  obtain ⟨d, hd, hle⟩ := h.1 rfl
  obtain rfl : d = "/work".toList := by simpa using hd
  exact absurd hle (by decide)

end Zooffice
