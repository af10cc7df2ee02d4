import Zooffice.Archive.Disk
import Zooffice.Common.Run
import Zooffice.Infra.Model.Home
/-!
# What a template leaves in the home

A file of the template that is missing in the home is copied there. For one
that exists the home keeps its own, and the copy goes to `org_conf`, whether
it should overwrite or not. So overwriting does what it says exactly when
there is nothing to overwrite.
-/


namespace Zooffice

open Zooffice.Path

namespace Home

variable {home : Home} {source : List Text} {names : List Text} {d d' : Disk} {n : Text}
  {content : Content}

/-- The directory of the copies that do not replace a file. -/
def orgDirectory (home : Home) : List Text := home.directory ++ [orgConf]

/-- Files that can be copied into a home: files of a directory, with names
that differ, and none is that of the directory for copies. -/
structure Ready (home : Home) (source : List Text) (names : List Text) (d : Disk) : Prop where
  wellFormed : d.WellFormed
  directory : d home.directory = some .directory
  nodup : names.Nodup
  legal : ∀ n ∈ names, FileName n
  other : orgConf ∉ names
  plain : ∀ n ∈ names, ∃ content, d (source ++ [n]) = some (.file content)

theorem fileName_orgConf : FileName orgConf := ⟨by decide, by decide, by decide, by decide⟩

theorem legal_orgDirectory (home : Home) : ∀ n ∈ home.orgDirectory, FileName n := by
  intro n hn
  rcases List.mem_append.1 hn with hn | hn
  · exact home.legal n hn
  · exact List.mem_singleton.1 hn ▸ fileName_orgConf

theorem concat_ne {m : Text} (h : n ≠ m) (p q : List Text) : p ++ [n] ≠ q ++ [m] := fun heq =>
  h (List.cons.inj (List.append_inj' heq rfl).2).1

/-- Another file of the home is not in the directory for copies. -/
theorem not_isPrefix_of_ne (h : n ≠ orgConf) :
    ¬ home.orgDirectory <+: home.directory ++ [n] := by
  intro hpre
  rcases List.prefix_concat_iff.1 hpre with heq | hpre
  · exact concat_ne h.symm _ _ heq
  · exact absurd hpre.length_le (by simp [orgDirectory])

/-! ## Copying one file -/

theorem canonical_of_legal {ns : List Text} (hns : ∀ n ∈ ns, FileName n) (location : List Text) :
    resolve '.' location ns = location ++ ns := by
  induction ns generalizing location with
  | nil => exact (List.append_nil location).symm
  | cons n ns ih =>
      rw [resolve, List.foldl_cons, enter_of_proper (hns n List.mem_cons_self), ← resolve,
        ih (fun m hm => hns m (List.mem_cons_of_mem n hm)), List.append_assoc,
        List.singleton_append]

/-- A file is copied over what it can be written to, when the directory of
that is there, and it is another file. -/
theorem run_copyFile {src : List Text} {f parent : TargetFile}
    (hsrc : d src = some (.file content)) (hparent : f.getParentFile = some parent)
    (hthere : parent.fileExists d = true) :
    ((FileUtils.copyFile src f).run d = (f.write content).run d ∧ src ≠ f.getCanonicalFile) ∨
      src = f.getCanonicalFile ∧
        ∃ message, (FileUtils.copyFile src f).run d = (.error (ioException message), d) := by
  have hmake : (FileUtils.makeParent f).run d = (.ok ⟨⟩, d) := by
    rw [FileUtils.makeParent, hparent]
    dsimp only
    rw [Eff.run_get_bind, if_pos hthere]
    rfl
  rw [FileUtils.copyFile, Eff.run_get_bind, hsrc]
  dsimp only
  by_cases hsame : src = f.getCanonicalFile
  · rw [if_pos hsame]
    exact Or.inr ⟨hsame, _, rfl⟩
  · rw [if_neg hsame, Eff.run_bind_of_ok hmake]
    exact Or.inl ⟨rfl, hsame⟩

theorem locate_name (hdir : d home.directory = some .directory) (hn : FileName n) :
    d.locate home.directory [n] = some (home.directory ++ [n]) := by
  rw [Disk.locate_of_directory hdir hn]
  rfl

theorem fileExists_name (hdir : d home.directory = some .directory) (hn : FileName n) :
    TargetFile.fileExists ⟨home.directory, [n]⟩ d = true ↔ d (home.directory ++ [n]) ≠ none := by
  rw [TargetFile.fileExists_eq_true]
  dsimp only
  rw [locate_name hdir hn]
  simp

theorem fileExists_directory (hdir : d home.directory = some .directory) :
    TargetFile.fileExists ⟨home.directory, []⟩ d = true :=
  TargetFile.fileExists_eq_true.2 ⟨home.directory, rfl, by rw [hdir]; simp⟩

/-- **A missing file is copied into the home.** -/
theorem run_copyOne_of_missing (hdir : d home.directory = some .directory) (hn : FileName n)
    (hsrc : d (source ++ [n]) = some (.file content))
    (hmissing : d (home.directory ++ [n]) = none) :
    (copyOne home source n).run d = (.ok ⟨⟩, d.put (home.directory ++ [n]) (.file content)) := by
  have hthere : TargetFile.fileExists ⟨home.directory, [n]⟩ d = false := by
    rw [← Bool.not_eq_true, fileExists_name hdir hn]
    exact not_not.2 hmissing
  have hdirectory : TargetFile.isDirectory ⟨home.directory, []⟩ d = true := by
    rw [TargetFile.isDirectory]
    exact decide_eq_true hdir
  have hopens : TargetFile.opens ⟨home.directory, [n]⟩ d = .ok (home.directory ++ [n]) :=
    TargetFile.opens_of_locate (locate_name hdir hn) (by rw [List.dropLast_concat]; exact hdir)
      (by rw [hmissing]; simp)
  have hother : source ++ [n] ≠ resolve '.' home.directory [n] := by
    rw [canonical_of_legal (by simpa using hn)]
    rintro heq
    rw [heq, hmissing] at hsrc
    exact absurd hsrc (Option.some_ne_none _).symm
  rw [copyOne, Eff.run_get_bind, if_pos hthere, FileUtils.copyFileToDirectory, Eff.run_get_bind,
    if_neg (by rw [hdirectory]; simp), List.nil_append]
  have hparent : TargetFile.getParentFile ⟨home.directory, [n]⟩ = some ⟨home.directory, []⟩ :=
    TargetFile.getParentFile_concat rfl
  rcases run_copyFile (f := ⟨home.directory, [n]⟩) hsrc hparent (fileExists_directory hdir) with
    ⟨hrun, -⟩ | ⟨heq, -⟩
  · rw [hrun, TargetFile.run_write content hopens]
  · exact absurd heq hother

/-! ## Backing up one file -/

/-- The copy of a file can go to the directory for copies: no file is in
the place of that directory, no directory in that of the copy, and it is
not the template itself. -/
structure CanBackUp (home : Home) (source : List Text) (d : Disk) (n : Text) : Prop where
  free : ∀ content, d home.orgDirectory ≠ some (.file content)
  fits : d (home.orgDirectory ++ [n]) ≠ some .directory
  other : source ≠ home.orgDirectory

/-- The disk with the directory for copies. -/
def withOrgConf (home : Home) (d : Disk) : Disk := d.put home.orgDirectory .directory

theorem put_eq_self {p : List Text} {item : DiskItem} (h : d p = some item) : d.put p item = d := by
  funext q
  unfold Disk.put
  split
  · next heq => rw [heq, h]
  · rfl

/-- Where nothing is in its place, the directory for copies is all that making
it adds. -/
theorem mkdirs_orgDirectory (hwell : d.WellFormed) (hdir : d home.directory = some .directory)
    (hmissing : d home.orgDirectory = none) :
    d.mkdirs [] home.orgDirectory = home.withOrgConf d := by
  have hway : ∀ q, q <+: home.orgDirectory → q = home.orgDirectory ∨ d q = some .directory :=
    fun q hq => (List.prefix_concat_iff.1 hq).imp_right
      (hwell.directory_of_prefix_directory hdir)
  have hfree : Disk.FreeWay d ([] ++ home.orgDirectory) := by
    intro q hq content hfile
    rcases hway q hq with rfl | hdirectory
    · rw [hmissing] at hfile
      cases hfile
    · rw [hdirectory] at hfile
      cases hfile
  funext q
  rw [Disk.mkdirs_of_freeWay (legal_orgDirectory home)
    (fun q hq => by rw [List.prefix_nil.1 hq]; exact hwell.root) hfree, List.nil_append,
    withOrgConf, Disk.put]
  by_cases hq : q = home.orgDirectory
  · rw [if_pos hq, if_pos ⟨hq ▸ List.prefix_refl _, hq ▸ hmissing⟩]
  · rw [if_neg hq, if_neg]
    rintro ⟨hpre, hnone⟩
    rcases hway q hpre with heq | hdirectory
    · exact hq heq
    · rw [hnone] at hdirectory
      exact absurd hdirectory (Option.some_ne_none _).symm

theorem run_mkdirs_orgConf (hwell : d.WellFormed) (hdir : d home.directory = some .directory)
    (hfree : ∀ content, d home.orgDirectory ≠ some (.file content)) :
    ∃ made, (TargetFile.mkdirs ⟨home.directory, [orgConf]⟩).run d =
      (.ok made, home.withOrgConf d) := by
  cases hthere : d home.orgDirectory with
  | some item =>
      have hitem : item = .directory := by
        cases item with
        | directory => rfl
        | file content => exact absurd hthere (hfree content)
      rw [hitem] at hthere
      refine ⟨false, ?_⟩
      rw [TargetFile.run_mkdirs_of_exists
        ((fileExists_name hdir fileName_orgConf).2 (by rw [← orgDirectory, hthere]; simp)),
        withOrgConf, put_eq_self hthere]
  | none =>
      have hcanonical : TargetFile.getCanonicalFile ⟨home.directory, [orgConf]⟩ =
          home.directory ++ [orgConf] :=
        canonical_of_legal (by simpa using fileName_orgConf) home.directory
      obtain ⟨made, hrun⟩ := TargetFile.run_mkdirs_of_missing (f := ⟨home.directory, [orgConf]⟩)
        (d := d) (by
          rw [← Bool.not_eq_true, fileExists_name hdir fileName_orgConf]
          exact not_not.2 hthere)
      exact ⟨made, by rw [hrun, hcanonical, ← orgDirectory, mkdirs_orgDirectory hwell hdir hthere]⟩

/-- The copy in the directory for copies. -/
def copyOf (home : Home) (n : Text) : TargetFile := ⟨home.directory, [orgConf] ++ [n]⟩

theorem canonical_copyOf (hn : FileName n) :
    (copyOf home n).getCanonicalFile = home.orgDirectory ++ [n] := by
  have hlegal : ∀ m ∈ [orgConf] ++ [n], FileName m := by
    intro m hm
    rcases List.mem_append.1 hm with hm | hm
    · exact List.mem_singleton.1 hm ▸ fileName_orgConf
    · exact List.mem_singleton.1 hm ▸ hn
  rw [copyOf, TargetFile.getCanonicalFile, canonical_of_legal hlegal, orgDirectory,
    List.append_assoc]

/-- What is copied for a file that exists. -/
theorem run_copyOne_of_existing (hdir : d home.directory = some .directory) (hn : FileName n)
    (hexists : d (home.directory ++ [n]) ≠ none) :
    (copyOne home source n).run d =
      (TargetFile.mkdirs ⟨home.directory, [orgConf]⟩ >>= fun _ =>
        FileUtils.copyFile (source ++ [n]) (copyOf home n)).run d := by
  rw [copyOne, Eff.run_get_bind, if_neg]
  · rfl
  · rw [Bool.not_eq_false, fileExists_name hdir hn]
    exact hexists

theorem locate_copyOf (hdir : d home.directory = some .directory) (hn : FileName n) :
    d.locate (copyOf home n).directory (copyOf home n).names =
      if d home.orgDirectory = some .directory then some (home.orgDirectory ++ [n]) else none := by
  rw [copyOf, Disk.locate_concat]
  dsimp only
  rw [locate_name hdir fileName_orgConf, Option.bind_some, enter_of_proper hn]
  rfl

/-- What the directory for copies leaves as it is. -/
theorem withOrgConf_of_ne {p : List Text} (h : p ≠ home.orgDirectory) :
    home.withOrgConf d p = d p := Disk.put_of_ne _ _ h

theorem withOrgConf_orgDirectory : home.withOrgConf d home.orgDirectory = some .directory :=
  Disk.put_self _ _ _

theorem withOrgConf_directory (hdir : d home.directory = some .directory) :
    home.withOrgConf d home.directory = some .directory := by
  rw [withOrgConf_of_ne (by simp [orgDirectory]), hdir]

theorem withOrgConf_name (hne : n ≠ orgConf) (p : List Text) :
    home.withOrgConf d (p ++ [n]) = d (p ++ [n]) := withOrgConf_of_ne (concat_ne hne _ _)

theorem locate_copyOf_withOrgConf (hdir : d home.directory = some .directory) (hn : FileName n) :
    (home.withOrgConf d).locate (copyOf home n).directory (copyOf home n).names =
      some (home.orgDirectory ++ [n]) :=
  (locate_copyOf (withOrgConf_directory hdir) hn).trans (if_pos withOrgConf_orgDirectory)

/-- A file is copied over what is in the place of its copy, unless it is that
itself. -/
theorem run_copyFile_copyOf (hdir : d home.directory = some .directory) (hn : FileName n)
    (hsrc : d (source ++ [n]) = some (.file content))
    (hthere : d home.orgDirectory ≠ none) :
    ((FileUtils.copyFile (source ++ [n]) (copyOf home n)).run d =
        ((copyOf home n).write content).run d ∧ source ≠ home.orgDirectory) ∨
      source = home.orgDirectory ∧ ∃ message,
        (FileUtils.copyFile (source ++ [n]) (copyOf home n)).run d =
          (.error (ioException message), d) := by
  have hsame : source ++ [n] = (copyOf home n).getCanonicalFile ↔ source = home.orgDirectory := by
    rw [canonical_copyOf hn, List.append_left_inj]
  have hrun := run_copyFile hsrc (TargetFile.getParentFile_concat (f := copyOf home n) rfl)
    ((fileExists_name hdir fileName_orgConf).2 hthere)
  rwa [Ne, hsame] at hrun

/-- **A file that exists is backed up** where that can be done. -/
theorem run_copyOne_of_canBackUp (hwell : d.WellFormed) (hdir : d home.directory = some .directory)
    (hn : FileName n) (hne : n ≠ orgConf) (hsrc : d (source ++ [n]) = some (.file content))
    (hexists : d (home.directory ++ [n]) ≠ none) (hcan : CanBackUp home source d n) :
    (copyOne home source n).run d =
      (.ok ⟨⟩, (home.withOrgConf d).put (home.orgDirectory ++ [n]) (.file content)) := by
  obtain ⟨made, hmkdirs⟩ := run_mkdirs_orgConf hwell hdir hcan.free
  have hopens : (copyOf home n).opens (home.withOrgConf d) = .ok (home.orgDirectory ++ [n]) := by
    refine TargetFile.opens_of_locate (locate_copyOf_withOrgConf hdir hn) ?_ ?_
    · rw [List.dropLast_concat, withOrgConf_orgDirectory]
    · rw [withOrgConf_name hne]
      exact hcan.fits
  rw [run_copyOne_of_existing hdir hn hexists, Eff.run_bind_of_ok hmkdirs]
  rcases run_copyFile_copyOf (withOrgConf_directory hdir) hn ((withOrgConf_name hne source).trans
    hsrc) (by rw [withOrgConf_orgDirectory]; simp) with ⟨hrun, -⟩ | ⟨hsame, -⟩
  · rw [hrun, TargetFile.run_write content hopens]
  · exact absurd hsame hcan.other

/-- And otherwise the copying ends there. -/
theorem run_copyOne_of_not_canBackUp (hwell : d.WellFormed)
    (hdir : d home.directory = some .directory) (hn : FileName n) (hne : n ≠ orgConf)
    (hsrc : d (source ++ [n]) = some (.file content)) (hexists : d (home.directory ++ [n]) ≠ none)
    (hcannot : ¬ CanBackUp home source d n) :
    ∃ e, ((copyOne home source n).run d).1 = .error e := by
  rw [run_copyOne_of_existing hdir hn hexists]
  by_cases hfree : ∀ content, d home.orgDirectory ≠ some (.file content)
  · obtain ⟨made, hmkdirs⟩ := run_mkdirs_orgConf hwell hdir hfree
    rw [Eff.run_bind_of_ok hmkdirs]
    rcases run_copyFile_copyOf (withOrgConf_directory hdir) hn ((withOrgConf_name hne source).trans
      hsrc) (by rw [withOrgConf_orgDirectory]; simp) with ⟨hrun, hother⟩ | ⟨-, message, hrun⟩
    · -- a directory is in the place of the copy
      have hfits : d (home.orgDirectory ++ [n]) = some .directory := by
        by_contra hfits
        exact hcannot ⟨hfree, hfits, hother⟩
      have hopens : (copyOf home n).opens (home.withOrgConf d) =
          .error (ioException "Is a directory") := by
        rw [TargetFile.opens, locate_copyOf_withOrgConf hdir hn]
        dsimp only
        rw [withOrgConf_name hne, hfits]
      exact ⟨_, by rw [hrun, TargetFile.run_write_of_error content hopens]⟩
    · exact ⟨_, by rw [hrun]⟩
  · -- a file is in the place of the directory
    obtain ⟨other, hother⟩ := not_forall_not.1 hfree
    have hthere : d home.orgDirectory ≠ none := by
      rw [hother]
      simp
    rw [Eff.run_bind_of_ok (TargetFile.run_mkdirs_of_exists
      ((fileExists_name hdir fileName_orgConf).2 hthere))]
    rcases run_copyFile_copyOf hdir hn hsrc hthere with ⟨hrun, -⟩ | ⟨-, message, hrun⟩
    · have hopens : (copyOf home n).opens d =
          .error (ioException "No such file or directory") := by
        refine TargetFile.opens_of_locate_eq_none ((locate_copyOf hdir hn).trans (if_neg ?_))
        rw [hother]
        simp
      exact ⟨_, by rw [hrun, TargetFile.run_write_of_error content hopens]⟩
    · exact ⟨_, by rw [hrun]⟩

/-! ## One file after the other -/

/-- What the copy of a file leaves as it was for the others. -/
structure CopiedOne (home : Home) (source : List Text) (n : Text) (d d' : Disk) : Prop where
  wellFormed : d'.WellFormed
  missing : d (home.directory ++ [n]) = none → d' (home.directory ++ [n]) = d (source ++ [n])
  free : (∀ content, d' home.orgDirectory ≠ some (.file content)) ↔
    ∀ content, d home.orgDirectory ≠ some (.file content)
  frame : ∀ p, p ≠ home.orgDirectory → p ≠ home.orgDirectory ++ [n] →
    (d (home.directory ++ [n]) = none → p ≠ home.directory ++ [n]) → d' p = d p

theorem wellFormed_withOrgConf (hwell : d.WellFormed) (hdir : d home.directory = some .directory)
    (hfree : ∀ content, d home.orgDirectory ≠ some (.file content)) :
    (home.withOrgConf d).WellFormed := by
  obtain ⟨made, hrun⟩ := run_mkdirs_orgConf hwell hdir hfree
  obtain ⟨made', d', hrun', hwell', -⟩ :=
    TargetFile.run_mkdirs (f := ⟨home.directory, [orgConf]⟩) hwell (fun m hm => by
      rw [TargetFile.getCanonicalFile, canonical_of_legal (by simpa using fileName_orgConf)] at hm
      exact legal_orgDirectory home m hm)
  rw [hrun] at hrun'
  rw [(Prod.mk.inj hrun').2]
  exact hwell'

theorem copiedOne_of_missing (hwell : d.WellFormed) (hdir : d home.directory = some .directory)
    (hne : n ≠ orgConf) (hsrc : d (source ++ [n]) = some (.file content))
    (hmissing : d (home.directory ++ [n]) = none) :
    CopiedOne home source n d (d.put (home.directory ++ [n]) (.file content)) := by
  have hother : home.orgDirectory ≠ home.directory ++ [n] := concat_ne hne.symm _ _
  refine ⟨hwell.put_file (by rw [List.dropLast_concat]; exact hdir) (by rw [hmissing]; simp)
    content, fun _ => by rw [Disk.put_self, hsrc], ?_,
    fun p _ _ hp => Disk.put_of_ne _ _ (hp hmissing)⟩
  rw [Disk.put_of_ne _ _ hother]

theorem copiedOne_of_canBackUp (hwell : d.WellFormed) (hdir : d home.directory = some .directory)
    (hne : n ≠ orgConf) (hexists : d (home.directory ++ [n]) ≠ none)
    (hcan : CanBackUp home source d n) (content : Content) :
    CopiedOne home source n d
      ((home.withOrgConf d).put (home.orgDirectory ++ [n]) (.file content)) := by
  refine ⟨(wellFormed_withOrgConf hwell hdir hcan.free).put_file ?_ ?_ content,
    fun hmissing => absurd hmissing hexists, ?_, fun p hp hp' _ => ?_⟩
  · rw [List.dropLast_concat, withOrgConf_orgDirectory]
  · rw [withOrgConf_name hne]
    exact hcan.fits
  · rw [Disk.put_of_ne _ _ (by simp), withOrgConf_orgDirectory]
    exact iff_of_true (fun _ h => by cases h) hcan.free
  · rw [Disk.put_of_ne _ _ hp', withOrgConf_of_ne hp]

/-- **A file that is ready is copied or backed up**, unless it exists and
cannot be backed up. -/
theorem run_copyOne (h : Ready home source names d) (hn : n ∈ names) :
    (∃ d', (copyOne home source n).run d = (.ok ⟨⟩, d') ∧ CopiedOne home source n d d' ∧
        (d (home.directory ++ [n]) ≠ none → CanBackUp home source d n)) ∨
      (∃ e, ((copyOne home source n).run d).1 = .error e) ∧ d (home.directory ++ [n]) ≠ none ∧
        ¬ CanBackUp home source d n := by
  obtain ⟨content, hsrc⟩ := h.plain n hn
  have hne : n ≠ orgConf := fun heq => h.other (heq ▸ hn)
  by_cases hmissing : d (home.directory ++ [n]) = none
  · exact Or.inl ⟨_, run_copyOne_of_missing h.directory (h.legal n hn) hsrc hmissing,
      copiedOne_of_missing h.wellFormed h.directory hne hsrc hmissing,
      fun hexists => absurd hmissing hexists⟩
  · by_cases hcan : CanBackUp home source d n
    · exact Or.inl ⟨_, run_copyOne_of_canBackUp h.wellFormed h.directory (h.legal n hn) hne hsrc
        hmissing hcan, copiedOne_of_canBackUp h.wellFormed h.directory hne hmissing hcan content,
        fun _ => hcan⟩
    · exact Or.inr ⟨run_copyOne_of_not_canBackUp h.wellFormed h.directory (h.legal n hn) hne hsrc
        hmissing hcan, hmissing, hcan⟩

section Next

variable {m : Text} (h : CopiedOne home source n d d') (hm : m ≠ n) (hne : m ≠ orgConf)
include h hm hne

theorem CopiedOne.of_name (p : List Text) : d' (p ++ [m]) = d (p ++ [m]) :=
  h.frame _ (concat_ne hne _ _) (concat_ne hm _ _) fun _ => concat_ne hm _ _

theorem CopiedOne.canBackUp_iff : CanBackUp home source d' m ↔ CanBackUp home source d m := by
  have hcopy := h.of_name hm hne home.orgDirectory
  constructor
  · exact fun hcan => ⟨h.free.1 hcan.free, hcopy ▸ hcan.fits, hcan.other⟩
  · exact fun hcan => ⟨h.free.2 hcan.free, hcopy.symm ▸ hcan.fits, hcan.other⟩

end Next

/-- The files that come later are ready after it. -/
theorem Ready.next (h : Ready home source (n :: names) d) (hcopied : CopiedOne home source n d d') :
    Ready home source names d' := by
  have hnodup := List.nodup_cons.1 h.nodup
  have hmem : ∀ m ∈ names, m ∈ n :: names := fun m hm => List.mem_cons_of_mem n hm
  refine ⟨hcopied.wellFormed, ?_, hnodup.2, fun m hm => h.legal m (hmem m hm),
    fun horg => h.other (hmem _ horg), fun m hm => ?_⟩
  · rw [hcopied.frame _ (by simp [orgDirectory]) (by simp [orgDirectory]) fun _ => by simp]
    exact h.directory
  · rw [hcopied.of_name (fun heq => hnodup.1 (heq ▸ hm)) (fun heq => h.other (heq ▸ hmem m hm))]
    exact h.plain m (hmem m hm)

/-! ## All files -/

/-- What the copying leaves: the missing files, and outside of the directory
for copies nothing else. -/
structure Placed (home : Home) (source : List Text) (names : List Text) (d d' : Disk) : Prop where
  missing : ∀ n ∈ names, d (home.directory ++ [n]) = none →
    d' (home.directory ++ [n]) = d (source ++ [n])
  kept : ∀ p, ¬ home.orgDirectory <+: p →
    (∀ n ∈ names, d (home.directory ++ [n]) = none → p ≠ home.directory ++ [n]) → d' p = d p

/-- Every file that exists can be backed up. -/
def CanBackUpAll (home : Home) (source : List Text) (names : List Text) (d : Disk) : Prop :=
  ∀ n ∈ names, d (home.directory ++ [n]) ≠ none → CanBackUp home source d n

theorem Placed.cons {d'' : Disk} (h : Ready home source (n :: names) d)
    (hcopied : CopiedOne home source n d d') (hplaced : Placed home source names d' d'') :
    Placed home source (n :: names) d d'' := by
  have hlater : ∀ m ∈ names, m ≠ n ∧ m ≠ orgConf := fun m hm =>
    ⟨fun heq => (List.nodup_cons.1 h.nodup).1 (heq ▸ hm),
      fun heq => h.other (heq ▸ List.mem_cons_of_mem n hm)⟩
  -- what is placed later leaves this file as it is
  have hkept : ∀ p, ¬ home.orgDirectory <+: p → (∀ m ∈ names,
      d (home.directory ++ [m]) = none → p ≠ home.directory ++ [m]) → d'' p = d' p := by
    refine fun p hp hnames => hplaced.kept p hp fun m hm hmissing => hnames m hm ?_
    rwa [hcopied.of_name (hlater m hm).1 (hlater m hm).2] at hmissing
  refine ⟨fun m hm hmissing => ?_, fun p hp hnames => ?_⟩
  · rcases List.mem_cons.1 hm with rfl | hm
    · rw [hkept _ ?_ fun k hk _ => concat_ne (hlater k hk).1.symm _ _]
      · exact hcopied.missing hmissing
      · exact not_isPrefix_of_ne fun heq => h.other (heq ▸ List.mem_cons_self)
    · have hsame := hcopied.of_name (hlater m hm).1 (hlater m hm).2
      rw [hplaced.missing m hm (by rw [hsame, hmissing]), hsame]
  · rw [hkept p hp fun m hm => hnames m (List.mem_cons_of_mem n hm)]
    refine hcopied.frame p (fun heq => hp (heq ▸ List.prefix_refl _))
      (fun heq => hp (heq ▸ List.prefix_append _ _)) fun hmissing => ?_
    exact hnames n List.mem_cons_self hmissing

/-- **The loop returns** exactly when every file that exists can be backed
up, and then the missing ones are in the home. -/
theorem run_copyAll (h : Ready home source names d) :
    (∃ d', (copyAll home source names).run d = (.ok ⟨⟩, d') ∧ Placed home source names d d' ∧
        CanBackUpAll home source names d) ∨
      (∃ e, ((copyAll home source names).run d).1 = .error e) ∧
        ¬ CanBackUpAll home source names d := by
  induction names generalizing d with
  | nil =>
      exact Or.inl ⟨d, rfl, ⟨fun n hn => absurd hn List.not_mem_nil, fun _ _ _ => rfl⟩,
        fun n hn => absurd hn List.not_mem_nil⟩
  | cons n names ih =>
      rw [copyAll, Eff.forEach, ← copyAll]
      rcases run_copyOne h List.mem_cons_self with
        ⟨d₁, hrun, hcopied, hcan⟩ | ⟨⟨e, herror⟩, hexists, hcannot⟩
      · have hbackUp : CanBackUpAll home source names d₁ ↔ CanBackUpAll home source names d := by
          refine forall₂_congr fun m hm => ?_
          have hmn : m ≠ n := fun heq => (List.nodup_cons.1 h.nodup).1 (heq ▸ hm)
          have horg : m ≠ orgConf := fun heq => h.other (heq ▸ List.mem_cons_of_mem n hm)
          rw [hcopied.of_name hmn horg, hcopied.canBackUp_iff hmn horg]
        rw [Eff.run_bind_of_ok hrun]
        rcases ih (h.next hcopied) with ⟨d', hrest, hplaced, hall⟩ | ⟨herror, hall⟩
        · exact Or.inl ⟨d', hrest, hplaced.cons h hcopied,
            List.forall_mem_cons.2 ⟨hcan, hbackUp.1 hall⟩⟩
        · exact Or.inr ⟨herror, fun hbackUpAll => hall
            (hbackUp.2 (List.forall_mem_cons.1 hbackUpAll).2)⟩
      · rcases hrun : (copyOne home source n).run d with ⟨result, d₁⟩
        rw [hrun] at herror
        obtain rfl : result = .error e := herror
        exact Or.inr ⟨⟨e, by rw [Eff.run_bind_of_error hrun]⟩,
          fun hall => hcannot (hall n List.mem_cons_self hexists)⟩

/-! ## The whole call -/

/-- A template directory, all files of which are plain ones that are ready to
be copied. -/
structure Template (home : Home) (source : List Text) (names : List Text) (d : Disk) : Prop
    extends Ready home source names d where
  source_directory : d source = some .directory
  listed : ∀ n, d (source ++ [n]) ≠ none → n ∈ names

/-- What the copying should leave. -/
structure Leaves (home : Home) (source : List Text) (names : List Text) (overwrite : Bool)
    (d d' : Disk) : Prop where
  missing : ∀ n ∈ names, d (home.directory ++ [n]) = none →
    d' (home.directory ++ [n]) = d (source ++ [n])
  existing : ∀ n ∈ names, d (home.directory ++ [n]) ≠ none →
    d' (home.directory ++ [n]) = if overwrite then d (source ++ [n]) else d (home.directory ++ [n])
  others : ∀ p, ¬ home.orgDirectory <+: p → (∀ n ∈ names, p ≠ home.directory ++ [n]) → d' p = d p

/-- A file that exists has what it would be overwritten with. -/
def NothingToOverwrite (home : Home) (source : List Text) (names : List Text) (overwrite : Bool)
    (d : Disk) : Prop :=
  overwrite = true → ∀ n ∈ names, d (home.directory ++ [n]) ≠ none →
    d (home.directory ++ [n]) = d (source ++ [n])

theorem run_copyFrom (h : Template home source names d) (overwrite : Bool) :
    (∃ d', (copyFrom home source names overwrite).run d = (.ok ⟨⟩, d') ∧
        Placed home source names d d' ∧ CanBackUpAll home source names d) ∨
      (∃ e, ((copyFrom home source names overwrite).run d).1 = .error e) ∧
        ¬ CanBackUpAll home source names d := by
  rw [copyFrom, Eff.run_get_bind, if_pos h.source_directory, Eff.run_tryCatch]
  rcases run_copyAll h.toReady with ⟨d', hrun, hplaced, hall⟩ | ⟨⟨e, herror⟩, hall⟩
  · exact Or.inl ⟨d', by rw [hrun], hplaced, hall⟩
  · rcases hrun : (copyAll home source names).run d with ⟨result, d'⟩
    rw [hrun] at herror
    obtain rfl : result = .error e := herror
    exact Or.inr ⟨⟨_, rfl⟩, hall⟩

/-- Where the copying puts what should be there. -/
theorem Placed.leaves_iff (h : Ready home source names d) (hplaced : Placed home source names d d')
    (overwrite : Bool) :
    Leaves home source names overwrite d d' ↔ NothingToOverwrite home source names overwrite d := by
  have houtside : ∀ n ∈ names, ¬ home.orgDirectory <+: home.directory ++ [n] := fun n hn =>
    not_isPrefix_of_ne fun heq => h.other (heq ▸ hn)
  have hexisting : ∀ n ∈ names, d (home.directory ++ [n]) ≠ none →
      d' (home.directory ++ [n]) = d (home.directory ++ [n]) := by
    refine fun n hn hexists => hplaced.kept _ (houtside n hn) fun m _ hmissing heq => ?_
    rw [heq] at hexists
    exact hexists hmissing
  constructor
  · rintro hleaves rfl n hn hexists
    rw [← hexisting n hn hexists, hleaves.existing n hn hexists, if_pos rfl]
  · intro hnothing
    refine ⟨hplaced.missing, fun n hn hexists => ?_, fun p hp hnames => hplaced.kept p hp
      fun n hn _ => hnames n hn⟩
    rw [hexisting n hn hexists]
    split
    · next hoverwrite => exact hnothing hoverwrite n hn hexists
    · rfl

/-- **The copying does what `overwrite` says exactly when there is nothing to
overwrite** and the files that exist can be backed up; and whenever it
returns, exactly when there is nothing to overwrite. -/
theorem copyFrom_leaves_iff (h : Template home source names d) (overwrite : Bool) :
    ((∃ d', (copyFrom home source names overwrite).run d = (.ok ⟨⟩, d') ∧
        Leaves home source names overwrite d d') ↔
      CanBackUpAll home source names d ∧ NothingToOverwrite home source names overwrite d) ∧
    ∀ d', (copyFrom home source names overwrite).run d = (.ok ⟨⟩, d') →
      (Leaves home source names overwrite d d' ↔
        NothingToOverwrite home source names overwrite d) := by
  rcases run_copyFrom h overwrite with ⟨d', hrun, hplaced, hall⟩ | ⟨⟨e, herror⟩, hall⟩
  · have hleaves := hplaced.leaves_iff h.toReady overwrite
    refine ⟨⟨?_, fun hcond => ⟨d', hrun, hleaves.2 hcond.2⟩⟩, ?_⟩
    · rintro ⟨d₁, hrun₁, hleaves₁⟩
      rw [hrun, Prod.mk.injEq] at hrun₁
      exact ⟨hall, hleaves.1 (hrun₁.2 ▸ hleaves₁)⟩
    · intro d₁ hrun₁
      rw [hrun, Prod.mk.injEq] at hrun₁
      exact hrun₁.2 ▸ hleaves
  · refine ⟨iff_of_false ?_ fun hcond => hall hcond.1, fun d₁ hrun => ?_⟩
    · rintro ⟨d₁, hrun, -⟩
      rw [hrun] at herror
      cases herror
    · rw [hrun] at herror
      cases herror

/-- The names of the files in the examples. -/
def systemConf : Text := "system.conf".toList

def databaseConf : Text := "database.conf".toList

/-- A disk with a home and a template, which have different files of one
name. -/
def editedDisk : Disk := fun p =>
  if p = [] ∨ p = ["home".toList] ∨ p = ["template".toList] then some .directory
  else if p = ["template".toList, systemConf] then some (.file [1])
  else if p = ["home".toList, systemConf] then some (.file [2])
  else none

/-- The home on it. -/
def editedHome : Home := ⟨["home".toList], fun n hn => by
  rw [List.mem_singleton.1 hn]
  exact ⟨by decide, by decide, by decide, by decide⟩⟩

theorem wellFormed_editedDisk : editedDisk.WellFormed := by
  refine ⟨rfl, fun p hp => ?_⟩
  by_cases hdir : p = [] ∨ p = ["home".toList] ∨ p = ["template".toList]
  · rcases hdir with rfl | rfl | rfl <;> decide
  · by_cases htemplate : p = ["template".toList, systemConf]
    · rw [htemplate]
      decide
    · by_cases hhome : p = ["home".toList, systemConf]
      · rw [hhome]
        decide
      · exact absurd (by rw [editedDisk, if_neg hdir, if_neg htemplate, if_neg hhome]) hp

theorem template_editedDisk :
    Template editedHome ["template".toList] [systemConf] editedDisk where
  wellFormed := wellFormed_editedDisk
  directory := by decide
  nodup := List.nodup_singleton _
  legal n hn := by
    rw [List.mem_singleton.1 hn]
    exact ⟨by decide, by decide, by decide, by decide⟩
  other := by decide
  plain n hn := by
    rw [List.mem_singleton.1 hn]
    exact ⟨[1], by decide⟩
  source_directory := by decide
  listed n hn := by
    by_contra hne
    have hname : n ≠ systemConf := fun heq => hne (List.mem_singleton.2 heq)
    refine hn ?_
    rw [editedDisk, if_neg (by simp), if_neg (by simpa using hname), if_neg (by simp)]

/-- The home has one of the files of its template, and not the other. -/
def halfCopiedDisk : Disk := fun p =>
  if p = ["home".toList, systemConf] then some (.file [1])
  else if p = ["template".toList, databaseConf] then some (.file [3])
  else editedDisk p

theorem template_halfCopiedDisk :
    Template editedHome ["template".toList] [systemConf, databaseConf] halfCopiedDisk where
  wellFormed := by
    refine ⟨by decide, fun p hp => ?_⟩
    by_cases hhome : p = ["home".toList, systemConf]
    · rw [hhome]
      decide
    · by_cases htemplate : p = ["template".toList, databaseConf]
      · rw [htemplate]
        decide
      · rw [halfCopiedDisk, if_neg hhome, if_neg htemplate] at hp
        have hparent := wellFormed_editedDisk.parent p hp
        -- a directory of the other disk is none of the two files
        rw [halfCopiedDisk, if_neg, if_neg, hparent]
        · intro heq
          rw [heq] at hparent
          exact absurd hparent (by decide)
        · intro heq
          rw [heq] at hparent
          exact absurd hparent (by decide)
  directory := by decide
  nodup := by decide
  legal n hn := by
    rcases List.mem_cons.1 hn with rfl | hn
    · exact ⟨by decide, by decide, by decide, by decide⟩
    · rw [List.mem_singleton.1 hn]
      exact ⟨by decide, by decide, by decide, by decide⟩
  other := by decide
  plain n hn := by
    rcases List.mem_cons.1 hn with rfl | hn
    · exact ⟨[1], by decide⟩
    · rw [List.mem_singleton.1 hn]
      exact ⟨[3], by decide⟩
  source_directory := by decide
  listed n hn := by
    by_contra hne
    simp only [List.mem_cons, List.not_mem_nil, or_false, not_or] at hne
    refine hn ?_
    rw [halfCopiedDisk, if_neg (by simp), if_neg (by simpa using hne.2), editedDisk,
      if_neg (by simp), if_neg (by simpa using hne.1), if_neg (by simp)]

/-- The missing file is copied, and the other has the content of the template
already. -/
theorem copyFrom_leaves_halfCopiedDisk :
    ∃ d', (copyFrom editedHome ["template".toList] [systemConf, databaseConf] true).run
        halfCopiedDisk = (.ok ⟨⟩, d') ∧
      Leaves editedHome ["template".toList] [systemConf, databaseConf] true halfCopiedDisk d' := by
  refine (copyFrom_leaves_iff template_halfCopiedDisk true).1.2
    ⟨fun n hn hexists => ?_, fun _ n hn hexists => ?_⟩
  · have horg : halfCopiedDisk editedHome.orgDirectory = none := by decide
    refine ⟨fun content => by rw [horg]; simp, ?_, by decide⟩
    rcases List.mem_cons.1 hn with rfl | hn
    · decide
    · rw [List.mem_singleton.1 hn]
      decide
  · rcases List.mem_cons.1 hn with rfl | hn
    · decide
    · rw [List.mem_singleton.1 hn] at hexists
      exact absurd hexists (by decide)

/-- **With `overwrite` it keeps it, too.** -/
theorem not_copyFrom_leaves_editedDisk :
    ¬ ∃ d', (copyFrom editedHome ["template".toList] [systemConf] true).run editedDisk =
        (.ok ⟨⟩, d') ∧
      Leaves editedHome ["template".toList] [systemConf] true editedDisk d' := by
  rintro ⟨d', hrun, hleaves⟩
  rcases run_copyFrom template_editedDisk true with ⟨d₁, hrun₁, hplaced, -⟩ | ⟨⟨e, herror⟩, -⟩
  · rw [hrun, Prod.mk.injEq] at hrun₁
    have hnothing := (hplaced.leaves_iff template_editedDisk.toReady true).1 (hrun₁.2 ▸ hleaves)
    have hsame := hnothing rfl systemConf (List.mem_singleton_self _) (by decide)
    exact absurd hsame (by decide)
  · rw [hrun] at herror
    cases herror

/-! ## Starting the server again and again -/

/-- Making a directory that is missing leaves all there is. -/
theorem kept_of_makeSubPath {name : Text} (hdir : d home.directory = some .directory)
    (hn : FileName name) {p : List Text} {item : DiskItem} (hp : d p = some item) :
    ((makeSubPath home name).run d).2 p = some item := by
  rw [makeSubPath, Eff.run_get_bind]
  split
  · exact hp
  · next hmissing =>
      rw [fileExists_name hdir hn, not_not] at hmissing
      change (if d home.directory = some .directory then
        d.put (home.directory ++ [name]) .directory else d) p = some item
      rw [if_pos hdir, Disk.put_of_ne, hp]
      rintro rfl
      rw [hmissing] at hp
      cases hp

/-- **What is in the home survives** every start of the server that copies
the default files. -/
theorem survives_restarts {templates : List (List Text × List Text)}
    (hready : Along (Eff.next fun t => copyDefaultConfigurationFiles home t.1 t.2)
      (fun d t => Template home t.1 t.2 d) d templates)
    (hrun : perform (Eff.next fun t => copyDefaultConfigurationFiles home t.1 t.2) d templates =
      some d') {p : List Text} (hp : ¬ home.orgDirectory <+: p) {item : DiskItem}
    (hitem : d p = some item) : d' p = some item := by
  refine perform_invariant (I := fun d => d p = some item) (fun d t d' hitem htemplate hstep => ?_)
    hitem hready hrun
  rw [Eff.next_eq_some, copyDefaultConfigurationFiles, Eff.run_bind_eq_ok] at hstep
  obtain ⟨u, d₁, hcopy, hmake⟩ := hstep
  rcases run_copyFrom htemplate false with ⟨d₂, hcopy₂, hplaced, -⟩ | ⟨⟨e, herror⟩, -⟩
  · rw [hcopy, Prod.mk.injEq] at hcopy₂
    have hkept : d₁ p = some item := by
      rw [hcopy₂.2, hplaced.kept p hp, hitem]
      rintro n hn hmissing rfl
      rw [hmissing] at hitem
      cases hitem
    have hdir : d₁ home.directory = some .directory := by
      rw [hcopy₂.2, hplaced.kept _ (fun hpre => absurd hpre.length_le (by simp [orgDirectory]))
        fun n _ _ => by simp]
      exact htemplate.directory
    have hname : FileName "plugins".toList := ⟨by decide, by decide, by decide, by decide⟩
    have hmade := kept_of_makeSubPath hdir hname hkept
    rwa [hmake] at hmade
  · rw [hcopy] at herror
    cases herror

end Home

end Zooffice
