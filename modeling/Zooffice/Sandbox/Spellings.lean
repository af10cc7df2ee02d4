import Zooffice.Sandbox.Confinement
/-!
# The spellings of a file name

Many names lead to one file. `doNormalize` chooses one of them for those
that it reads from the root, and reads that one as itself; only a name
whose second letter is a colon, which the class takes for a wrong drive, is
one that it can choose and not read. So the checks of deleting and writing
judge a name and its normalization alike, and what `checkRead` refuses
cannot be had by another spelling.
-/


namespace Zooffice

open Zooffice.Path

variable {workDirectory : Option Text} {file filename path result : Text} {st : List Text}

/-! ## The normalization of a normalization -/

/-- The class can read an absolute path but one that begins as `/:`. -/
theorem getPrefixLength_of_isAbsolute (h : IsAbsolute path) :
    getPrefixLength (some path) = if path[1]? = some ':' then -1 else 1 := by
  obtain ⟨rest, rfl, hrest⟩ := h
  rcases rest with _ | ⟨c, rest⟩
  · rfl
  · have hc : isSeparator c = false := hrest c rfl
    have hslash : isSeparator '/' = true := by decide
    rw [getPrefixLength, if_neg (by decide)]
    unfold prefixLengthOfLonger
    dsimp only
    rw [if_neg (by decide)]
    by_cases hcolon : c = ':'
    · rw [if_pos ⟨hcolon, by decide⟩, if_neg (by decide), if_pos (by simp [hcolon])]
    · rw [if_neg fun h => hcolon h.1, hc, Bool.and_false, if_neg Bool.false_ne_true, if_pos hslash,
        if_neg (by simpa using hcolon)]

theorem endsInSeparator_text {closed : Bool} (hst : ∀ n ∈ st, Proper '/' '.' n)
    (hunix : unixText (text '/' st closed) = text '/' st closed) :
    endsInSeparator (text '/' st closed) = decide (st = [] ∨ closed = true) := by
  rw [endsInSeparator, hunix]
  refine decide_eq_decide.2 ?_
  unfold text
  split
  · next h => exact iff_of_true (by rw [cons_terminated, List.getLast?_concat]) h
  · next h =>
      rw [not_or] at h
      obtain ⟨init, n, rfl⟩ := (List.eq_nil_or_concat' st).resolve_left h.1
      have hn := hst n (List.mem_append_right _ (List.mem_singleton_self n))
      refine iff_of_false ?_ (by simp [h.2])
      -- the last letter is one of the last name
      rw [rooted_append, rooted_cons, rooted_nil, List.append_nil, List.getLast?_append,
        List.getLast?_cons, Option.some_or, Option.some_inj]
      obtain ⟨l, c, rfl⟩ := (List.eq_nil_or_concat' n).resolve_left hn.ne_nil
      rw [List.getLast?_concat, Option.getD_some]
      rintro rfl
      exact hn.not_mem (List.mem_append_right _ (List.mem_singleton_self _))

theorem endsInDots_of_proper (hst : ∀ n ∈ st, Proper '/' '.' n) : endsInDots st = false := by
  rw [endsInDots, Bool.or_eq_false_iff, decide_eq_false_iff_not, decide_eq_false_iff_not]
  exact ⟨fun h => (hst _ (List.mem_of_getLast? h)).ne_dot rfl,
    fun h => (hst _ (List.mem_of_getLast? h)).ne_dots rfl⟩

/-- **What the class has normalized it reads as it is**, unless it begins
as `/:`. -/
theorem doNormalize_of_doNormalize {keepSeparator : Bool}
    (hp : getPrefixLength (some filename) = 1)
    (h : doNormalize (some filename) systemSeparator keepSeparator = .ok (some result)) :
    IsAbsolute result ∧ doNormalize (some result) systemSeparator keepSeparator =
      .ok (if result[1]? = some ':' then none else some result) := by
  rw [doNormalize_of_prefix_one hp, Except.ok.injEq, Option.map_eq_some_iff] at h
  obtain ⟨st, hwalk, rfl⟩ := h
  generalize hclosed : ((endsInSeparator filename || endsInDots (names '/' (unixText filename))) &&
    keepSeparator) = closed
  have habsolute : IsAbsolute (text '/' st closed) := isAbsolute_text closed hwalk
  have hst : ∀ n ∈ st, Proper '/' '.' n :=
    proper_of_mem_walk (by simp) (fun n hn => not_mem_of_mem_names hn) hwalk
  have hunix : unixText (text '/' st closed) = text '/' st closed :=
    unixText_of_isPrefix_text hwalk (List.prefix_refl _)
  refine ⟨habsolute, ?_⟩
  have hprefix := getPrefixLength_of_isAbsolute habsolute
  split at hprefix
  · next hcolon => rw [doNormalize_of_neg (by omega), if_pos hcolon]
  · next hcolon =>
      rw [doNormalize_of_prefix_one hprefix, if_neg hcolon, hunix, names_text hst,
        walk_of_proper hst, endsInSeparator_text hst hunix, endsInDots_of_proper hst,
        Bool.or_false, List.nil_append, Option.map_some]
      -- the separator at the end is written again exactly when it was there
      unfold text
      by_cases hnil : st = []
      · simp [hnil]
      · cases keepSeparator with
        | true => simp [hnil]
        | false =>
            obtain rfl : false = closed := by rw [← hclosed, Bool.and_false]
            simp [hnil]

/-! ## The checks of deleting and writing -/

namespace ZoofficeSecurityManager

/-- An absolute name is not taken under the work directory. -/
theorem inWorkingDirectory_of_isAbsolute (h : IsAbsolute path) (workDirectory : Option Text) :
    inWorkingDirectory (some path) workDirectory = some path := by
  cases workDirectory with
  | none => rfl
  | some w =>
      rw [inWorkingDirectory, if_neg]
      rw [getPrefixLength_of_isAbsolute h]
      split <;> decide

/-- **A check judges what a name is normalized to as it judges the name**,
unless the normalization begins as `/:`; that is always refused. -/
theorem fileAccessAllowed_normalized_iff {access : String} {dirs : List (Option Text)}
    (hread : ReadFromRoot workDirectory file)
    (h : normalize (some file) workDirectory = .ok (some result)) :
    fileAccessAllowed access dirs workDirectory (some result) = .ok () ↔
      fileAccessAllowed access dirs workDirectory (some file) = .ok () ∧
        result[1]? ≠ some ':' := by
  obtain ⟨path, hpath, hp, -⟩ := hread
  have hnormalize : doNormalize (some path) systemSeparator true = .ok (some result) := by
    rw [← hpath]
    exact h
  obtain ⟨habsolute, hagain⟩ := doNormalize_of_doNormalize hp hnormalize
  rw [← inWorkingDirectory_of_isAbsolute habsolute workDirectory] at hagain
  rw [fileAccessAllowed_eq_ok, fileAccessAllowed_eq_ok, normalize, hagain, h]
  by_cases hcolon : result[1]? = some ':'
  · simp [hcolon]
  · simp [hcolon, inWorkingDirectory_of_isAbsolute habsolute workDirectory]

/-- A loop that comes to the end of some directories comes to those behind
them too. -/
theorem consulted_append {dirs : List (Option Text)} (h : none ∉ dirs)
    (dirs' : List (Option Text)) :
    consulted (dirs ++ dirs') = consulted dirs ++ consulted dirs' := by
  induction dirs with
  | nil => rfl
  | cons dir dirs ih =>
      rw [List.mem_cons, not_or] at h
      cases dir with
      | none => exact absurd rfl h.1
      | some d => rw [List.cons_append, consulted, consulted, ih h.2, List.cons_append]

theorem none_not_mem_addIfNotEmpty (dir : Option Text) : none ∉ addIfNotEmpty dir := by
  intro h
  unfold addIfNotEmpty at h
  split at h
  · next hne =>
      obtain rfl : none = dir := List.mem_singleton.1 h
      exact absurd hne (by decide)
  · exact absurd h List.not_mem_nil

/-- The directories whose files may be deleted are among those whose files
may be written. -/
theorem consulted_deleteAllowedDirectory_subset (p : SystemProperties) (work : Option Text)
    (log : Text) : consulted (withDirectories p work log).deleteAllowedDirectory ⊆
      consulted (withDirectories p work log).writeAllowedDirectory := by
  have hpython : none ∉ addIfNotEmpty p.pythonCache ++ addIfNotEmpty p.pythonHome ++
      addIfNotEmpty p.pythonPath ++ addIfNotEmpty p.pythonCache := by
    simp only [List.mem_append, not_or]
    exact ⟨⟨⟨none_not_mem_addIfNotEmpty _, none_not_mem_addIfNotEmpty _⟩,
      none_not_mem_addIfNotEmpty _⟩, none_not_mem_addIfNotEmpty _⟩
  intro d hd
  rw [withDirectories, consulted_append hpython]
  refine List.mem_append_right _ ?_
  cases work with
  | none => exact hd
  | some w =>
      obtain rfl : d = w := List.mem_singleton.1 hd
      exact List.mem_cons_self

/-- Writing is checked as deleting is, apart from the marker. -/
theorem checkWrite_of_not_hasLogMarker (m : ZoofficeSecurityManager)
    (h : hasLogMarker file = false) : m.checkWrite (some file) =
      fileAccessAllowed "write" m.writeAllowedDirectory m.workDirectory (some file) := by
  rw [checkWrite, fileAccessWriteAllowed, Option.any_some, h, if_neg Bool.false_ne_true]

/-- **The checks go by where a name leads, not by how it is spelled**: a
name that the class reads from the root is judged as its normalization is,
if that can be read again and neither has the marker of a test's log. And
whatever may be deleted may be written. -/
theorem checks_of_normalize (p : SystemProperties) :
    ∃ m, initAccessOfDirectories p = .ok m ∧
      (∀ file, m.checkDelete (some file) = .ok () → m.checkWrite (some file) = .ok ()) ∧
      ∀ file result, ReadFromRoot m.workDirectory file →
        normalize (some file) m.workDirectory = .ok (some result) →
        (m.checkDelete (some result) = .ok () ↔
          m.checkDelete (some file) = .ok () ∧ result[1]? ≠ some ':') ∧
        (hasLogMarker file = false → hasLogMarker result = false →
          (m.checkWrite (some result) = .ok () ↔
            m.checkWrite (some file) = .ok () ∧ result[1]? ≠ some ':')) := by
  obtain ⟨m, hm, -⟩ := initAccessOfDirectories_eq_ok p
  refine ⟨m, hm, fun file hdelete => ?_, fun file result hread hnormalize => ⟨?_, ?_⟩⟩
  · obtain ⟨work, log, rfl⟩ : ∃ work log, m = withDirectories p work log := by
      obtain ⟨work, -, hm⟩ := except_bind_eq_ok.1 hm
      obtain ⟨log, -, hm⟩ := except_bind_eq_ok.1 hm
      exact ⟨work, log, (Except.ok.inj hm).symm⟩
    obtain ⟨path, hpath, d, hd, hle⟩ := fileAccessAllowed_eq_ok.1 hdelete
    cases hmarker : hasLogMarker file with
    | true => rw [checkWrite, fileAccessWriteAllowed, Option.any_some, hmarker, if_pos rfl]
    | false =>
        rw [checkWrite_of_not_hasLogMarker _ hmarker]
        have hwrite := consulted_deleteAllowedDirectory_subset p work log hd
        exact fileAccessAllowed_eq_ok.2 ⟨path, hpath, d, hwrite, hle⟩
  · exact fileAccessAllowed_normalized_iff hread hnormalize
  · intro hfile hresult
    rw [checkWrite_of_not_hasLogMarker m hfile, checkWrite_of_not_hasLogMarker m hresult]
    exact fileAccessAllowed_normalized_iff hread hnormalize

/-! ## The check of reading -/

/-- A text without a separator is in a name where it is in its Unix form. -/
theorem infix_of_infix_unixText {word : Text} (hword : '/' ∉ word)
    (h : word <:+: unixText file) : word <:+: file := by
  obtain ⟨before, behind, h⟩ := h
  obtain ⟨fore, rest, rfl, hfore, -⟩ := List.map_eq_append_iff.1 h.symm
  obtain ⟨before', word', rfl, -, hsame⟩ := List.map_eq_append_iff.1 hfore
  refine ⟨before', rest, ?_⟩
  have hid : ∀ c ∈ word', (if c = '\\' then '/' else c) = id c := by
    intro c hc
    refine if_neg ?_
    rintro rfl
    exact hword (hsame ▸ List.mem_map_of_mem hc)
  rw [← hsame, List.map_congr_left hid, List.map_id]

/-- **No spelling of a path gets around the check of reading**: it refuses
every name that leads to a file or below a directory whose own name
contains `database.conf`, if that is not one of the work directory's. -/
theorem checkRead_of_resolution (workDirectory : Option Text) (file n : Text)
    (hn : n ∈ resolution workDirectory file) (hname : "database.conf".toList <:+: n)
    (hwork : n ∉ lexical (workDirectory.getD [])) :
    checkRead (some file) =
      .error ⟨.security, some "File Read access on database.conf is not allowed."⟩ := by
  have hmem : n ∈ names '/' (unixText file) := by
    unfold resolution at hn
    split at hn
    · exact (mem_of_mem_resolve hn).resolve_left List.not_mem_nil
    · exact (mem_of_mem_resolve hn).resolve_left hwork
  have hinfix : "database.conf".toList <:+: file :=
    infix_of_infix_unixText (by decide) (hname.trans (isInfix_of_mem_names hmem))
  rw [checkRead, Option.any_some, decide_eq_true hinfix, if_pos rfl]

theorem checkRead_of_resolution_roundabout :
    checkRead (some "../work/./x/..\\database.conf".toList) =
      .error ⟨.security, some "File Read access on database.conf is not allowed."⟩ :=
  checkRead_of_resolution (some "/work".toList) "../work/./x/..\\database.conf".toList
    "database.conf".toList (by decide) (by decide) (by decide)

end ZoofficeSecurityManager

end Zooffice
