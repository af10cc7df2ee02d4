import Zooffice.Archive.Extraction
import Zooffice.Archive.Model.Extract
import Zooffice.Common.Run
/-!
# Where an archive is extracted to

`unzip`, `untar` and `unjar` append the name of an entry to the destination
and go where the result leads. None of them looks at where that is: an
archive stays at or below the destination exactly when every directory its
entries have to make is there, and every file they can open. With the
destination there, or its parent, names that lead to the destination or
below it are enough (`contained_of_targets`).
-/


namespace Zooffice

open Zooffice.Path

/-- An archive, for the method that extracts it. -/
inductive Archive where
  | zip (entries : List ZipEntry)
  | tar (entries : List TarEntry)
  | jar (archive : JarArchive)

/-- A directory to extract an archive to, by the names on the way from the
root, and the disk. The directory need not be there. -/
structure Destination where
  names : List Text
  legal : ∀ n ∈ names, FileName n
  disk : Disk
  wellFormed : disk.WellFormed

/-- What the three methods do one after the other. -/
inductive ExtractStep where
  | unzipEntry (entry : ZipEntry)
  | untarEntry (entry : TarEntry)
  | unjarDestination
  | unjarEntry (entry : ZipEntry)
  | unjarManifest (mf : Content)

namespace CompressionUtil

/-- Extract the archive with its method. -/
def extract (dest : List Text) : Archive → DiskEff PUnit
  | .zip entries => unzip entries dest
  | .tar entries => do
      let _ ← untar entries dest
      return ⟨⟩
  | .jar archive => unjar archive dest

/-- The steps of the extraction. -/
def steps : Archive → List ExtractStep
  | .zip entries => entries.map .unzipEntry
  | .tar entries => entries.map .untarEntry
  | .jar archive =>
      .unjarDestination ::
        (archive.entries.map .unjarEntry ++ archive.manifest.toList.map .unjarManifest)

/-- What a step does. -/
def runStep (dest : List Text) : ExtractStep → DiskEff PUnit
  | .unzipEntry entry => CompressionUtil.unzipEntry dest entry
  | .untarEntry entry => CompressionUtil.untarEntry dest entry
  | .unjarDestination => CompressionUtil.unjarDestination dest
  | .unjarEntry entry => CompressionUtil.unjarEntry dest entry
  | .unjarManifest mf => CompressionUtil.unjarManifest dest mf

/-- A regular file that `untar` writes, after its parent is made. -/
def fileWithParent (f : TargetFile) (content : Content) : Extraction :=
  match f.getParentFile with
  | none => .nothing
  | some g => .writeFile (some g) f content

/-- What a step is to do, by the name of its entry. -/
def extractionOf (dest : List Text) : ExtractStep → Extraction
  | .unzipEntry entry =>
      let target := targetOf dest entry.name
      if entry.isDirectory then .makeDirectory target else .writeFile none target entry.content
  | .untarEntry entry =>
      let target := targetOf dest entry.name
      if entry.isDirectory then .makeDirectory target else fileWithParent target entry.content
  | .unjarDestination => .makeDirectory ⟨dest, []⟩
  | .unjarEntry entry =>
      match unjarFileName entry.name with
      | .error _ => .nothing
      | .ok fileName =>
          let target := targetOf dest fileName
          if entry.isDirectory then .makeDirectory target
          else .writeFile target.getParentFile target entry.content
  | .unjarManifest mf => fileWithParent (targetOf dest manifestName) mf

/-- **Every file and directory that the extraction creates or writes is at
or below the destination**, as far as the extraction gets. -/
def Contained (dest : Destination) (a : Archive) : Prop :=
  Along (Eff.next (runStep dest.names))
    (fun d s => ∀ p, Touches (runStep dest.names s) (extractionOf dest.names s).file d p →
      dest.names <+: p)
    dest.disk (steps a)

variable {dest : List Text} {d : Disk} {s : ExtractStep} {f g : TargetFile} {p : List Text}

/-! ## What the names of entries lead to -/

/-- The names that a target stands for are file names. -/
theorem proper_targetOf (hdest : ∀ n ∈ dest, FileName n) (name : Text) :
    ∀ n ∈ (targetOf dest name).getCanonicalFile, FileName n :=
  proper_of_mem_resolve hdest fun _ hn => not_mem_of_mem_names hn

/-- And so are those of its parent. -/
theorem proper_parent_targetOf (hdest : ∀ n ∈ dest, FileName n) {name : Text}
    (hg : (targetOf dest name).getParentFile = some g) :
    ∀ n ∈ g.getCanonicalFile, FileName n := by
  rw [TargetFile.getParentFile] at hg
  split at hg
  · obtain rfl := Option.some.inj hg
    exact proper_of_mem_resolve hdest fun n hn =>
      not_mem_of_mem_names (List.dropLast_subset _ hn)
  · split at hg
    · obtain rfl := Option.some.inj hg
      exact fun n hn => hdest n (List.dropLast_subset _ hn)
    · exact absurd hg (by simp)

theorem legal_fileWithParent (hdest : ∀ n ∈ dest, FileName n) (name : Text) (content : Content) :
    (fileWithParent (targetOf dest name) content).Legal dest := by
  rw [fileWithParent]
  split
  · trivial
  · next hg =>
      refine ⟨rfl, ?_⟩
      rintro _ ⟨rfl⟩
      exact ⟨hg, proper_parent_targetOf hdest hg⟩

/-- **Every step is legal.** -/
theorem legal_extractionOf (hdest : ∀ n ∈ dest, FileName n) (s : ExtractStep) :
    (extractionOf dest s).Legal dest := by
  cases s with
  | unzipEntry entry =>
      unfold extractionOf
      dsimp only
      split
      · exact proper_targetOf hdest _
      · exact ⟨rfl, by simp⟩
  | untarEntry entry =>
      unfold extractionOf
      dsimp only
      split
      · exact proper_targetOf hdest _
      · exact legal_fileWithParent hdest _ _
  | unjarDestination => exact hdest
  | unjarEntry entry =>
      rw [extractionOf]
      split
      · trivial
      · dsimp only
        split
        · exact proper_targetOf hdest _
        · exact ⟨rfl, fun g hg => ⟨hg, proper_parent_targetOf hdest hg⟩⟩
  | unjarManifest mf =>
      rw [extractionOf]
      exact legal_fileWithParent hdest _ mf

/-! ## What the steps do -/

/-- A computation does what is to be done: either it is that, or no file is
to be written and it leaves the same disk. -/
def Does (x : DiskEff PUnit) (e : Extraction) (d : Disk) : Prop :=
  x.run d = e.run.run d ∨ e.file = none ∧ (x.run d).2 = (e.run.run d).2

theorem Does.snd_run {x : DiskEff PUnit} {e : Extraction} (h : Does x e d) :
    (x.run d).2 = (e.run.run d).2 := by
  rcases h with h | ⟨-, h⟩
  · rw [h]
  · exact h

/-- It touches what the step touches. -/
theorem Does.touches_iff {x : DiskEff PUnit} {e : Extraction} (h : Does x e d) :
    Touches x e.file d p ↔ Touches e.run e.file d p := by
  rcases h with h | ⟨hfile, h⟩
  · rw [Touches, Touches, h]
  · rw [Touches, Touches, h, hfile]
    simp

/-- The check for the parent is the one that `mkdirs` makes. -/
theorem run_mkdirsIfMissing (f : TargetFile) (d : Disk) :
    (mkdirsIfMissing f).run d = (Extraction.makeParent (some f)).run d := by
  rw [mkdirsIfMissing, Extraction.makeParent, Eff.run_get_bind]
  cases hthere : f.fileExists d with
  | true =>
      rw [Eff.run_bind_of_ok (TargetFile.run_mkdirs_of_exists hthere)]
      rfl
  | false => rfl

theorem does_untarDirectory (f : TargetFile) (d : Disk) :
    Does (untarDirectory f) (.makeDirectory f) d := by
  refine .inr ⟨rfl, ?_⟩
  rw [untarDirectory, Extraction.run, Eff.run_get_bind]
  cases hthere : f.fileExists d with
  | true =>
      rw [Eff.run_bind_of_ok (TargetFile.run_mkdirs_of_exists hthere)]
      rfl
  | false =>
      obtain ⟨b, hrun⟩ := TargetFile.run_mkdirs_of_missing hthere
      rw [if_neg Bool.false_ne_true, Eff.run_bind_of_ok hrun, Eff.run_bind_of_ok hrun]
      cases b <;> rfl

theorem does_fileWithParent (f : TargetFile) (content : Content) (d : Disk) :
    Does (untarFile f content) (fileWithParent f content) d := by
  unfold untarFile fileWithParent
  cases hg : f.getParentFile with
  | none => exact .inr ⟨rfl, rfl⟩
  | some g =>
      refine .inl ?_
      dsimp only
      rw [Extraction.run, Eff.run_bind, Eff.run_bind, run_mkdirsIfMissing]

/-- The check of the destination leaves what the attempt to make it does. -/
theorem snd_run_unjarDestination (dest : List Text) (d : Disk) :
    ((unjarDestination dest).run d).2 = ((Extraction.makeDirectory ⟨dest, []⟩).run.run d).2 := by
  have hmake : ((mkdirsIfMissing ⟨dest, []⟩).run d) =
      (Extraction.makeDirectory ⟨dest, []⟩).run.run d := run_mkdirsIfMissing _ d
  rw [unjarDestination, Eff.run_bind, hmake]
  rcases (Extraction.makeDirectory ⟨dest, []⟩).run.run d with ⟨e | _, d'⟩
  · rfl
  · dsimp only
    rw [Eff.run_get_bind]
    split <;> rfl

theorem run_unjarFile (f : TargetFile) (content : Content) (d : Disk) :
    (unjarFile f content).run d = (Extraction.writeFile f.getParentFile f content).run.run d := by
  rw [unjarFile, Extraction.run]
  cases f.getParentFile with
  | none => rfl
  | some g =>
      dsimp only
      rw [Eff.run_bind, Eff.run_bind, run_mkdirsIfMissing]

/-- **A step does what its entry names.** -/
theorem does_runStep (hd : d.WellFormed) (dest : List Text) (s : ExtractStep) :
    Does (runStep dest s) (extractionOf dest s) d := by
  cases s with
  | unzipEntry entry =>
      unfold runStep extractionOf unzipEntry
      dsimp only
      split
      · exact .inl rfl
      · exact .inl (TargetFile.run_createNewFile_write hd _ _)
  | untarEntry entry =>
      unfold runStep extractionOf untarEntry
      dsimp only
      split
      · exact does_untarDirectory _ d
      · exact does_fileWithParent _ _ d
  | unjarDestination =>
      refine .inr ⟨rfl, ?_⟩
      exact snd_run_unjarDestination dest d
  | unjarEntry entry =>
      rw [runStep, extractionOf, unjarEntry]
      cases hname : unjarFileName entry.name with
      | error e => exact .inr ⟨rfl, rfl⟩
      | ok fileName =>
          refine .inl ?_
          rw [Eff.run_ofExcept_bind]
          dsimp only
          split
          · rfl
          · exact run_unjarFile _ _ d
  | unjarManifest mf => exact does_fileWithParent (targetOf dest manifestName) mf d

/-! ## The extraction is its steps -/

theorem unzipLoop_eq (dest : List Text) (entries : List ZipEntry) :
    unzipLoop dest entries = Eff.forEach (runStep dest) (entries.map .unzipEntry) := by
  induction entries with
  | nil => rfl
  | cons entry rest ih => rw [unzipLoop, ih]; rfl

theorem unjarLoop_eq (dest : List Text) (entries : List ZipEntry) :
    unjarLoop dest entries = Eff.forEach (runStep dest) (entries.map .unjarEntry) := by
  induction entries with
  | nil => rfl
  | cons entry rest ih => rw [unjarLoop, ih]; rfl

/-- The list of files that `untar` returns has no part in what it does. -/
theorem snd_run_untarLoop (dest : List Text) (entries : List TarEntry) (d : Disk) :
    ((untarLoop dest entries).run d).2 =
      ((Eff.forEach (runStep dest) (entries.map .untarEntry)).run d).2 := by
  induction entries generalizing d with
  | nil => rfl
  | cons entry rest ih =>
      rw [untarLoop, List.map_cons, Eff.forEach, Eff.run_bind, Eff.run_bind, runStep]
      rcases (untarEntry dest entry).run d with ⟨e | _, d'⟩
      · rfl
      · dsimp only
        rw [← ih]
        exact Eff.snd_run_bind_pure _ _ d'

/-- **The disk that an extraction leaves is the one its steps leave.** -/
theorem snd_run_extract (dest : List Text) (a : Archive) (d : Disk) :
    ((extract dest a).run d).2 = ((Eff.forEach (runStep dest) (steps a)).run d).2 := by
  cases a with
  | zip entries =>
      rw [extract, unzip, Eff.snd_run_tryCatch_throw, unzipLoop_eq]
      rfl
  | tar entries =>
      have huntar : ((untar entries dest).run d).2 = ((untarLoop dest entries).run d).2 :=
        Eff.snd_run_tryCatch_throw _ _ d
      rw [steps, ← snd_run_untarLoop, ← huntar]
      exact Eff.snd_run_bind_pure _ (fun _ => PUnit.unit) d
  | jar archive =>
      rw [extract, unjar, steps, Eff.forEach, Eff.run_bind, Eff.run_bind, runStep]
      rcases (unjarDestination dest).run d with ⟨e | _, d'⟩
      · rfl
      · dsimp only
        rw [Eff.forEach_append, ← unjarLoop_eq, Eff.run_bind, Eff.run_bind]
        rcases (unjarLoop dest archive.entries).run d' with ⟨e | _, d''⟩
        · rfl
        · dsimp only
          cases archive.manifest with
          | none => rfl
          | some mf => exact (Eff.snd_run_bind_pure (unjarManifest dest mf) id d'').symm

/-! ## The result -/

/-- A step that returns leaves what its extraction leaves. -/
theorem snd_run_of_next {d' : Disk} (hd : d.WellFormed)
    (h : Eff.next (runStep dest) d s = some d') : ((extractionOf dest s).run.run d).2 = d' := by
  rw [← (does_runStep hd dest s).snd_run, Eff.next_eq_some.1 h]

/-- It leaves the disk well formed. -/
theorem wellFormed_of_next {d' : Disk} (hdest : ∀ n ∈ dest, FileName n) (hd : d.WellFormed)
    (h : Eff.next (runStep dest) d s = some d') : d'.WellFormed := by
  rw [← snd_run_of_next hd h]
  exact Extraction.wellFormed_of_run hd (legal_extractionOf hdest s)

/-- What a step touches, by what it is to do. -/
theorem touches_runStep_iff (hdest : ∀ n ∈ dest, FileName n) (hd : d.WellFormed) (s : ExtractStep) :
    (∀ p, Touches (runStep dest s) (extractionOf dest s).file d p → dest <+: p) ↔
      (extractionOf dest s).StaysInside dest d := by
  rw [← Extraction.staysInside_iff hd (legal_extractionOf hdest s)]
  exact forall_congr' fun p => imp_congr_left (does_runStep hd dest s).touches_iff

/-- **An extraction stays at or below its destination exactly when each of
its steps does**: what it has to make and what it can open is there. -/
theorem contained_iff (dest : Destination) (a : Archive) :
    Contained dest a ↔
      Along (Eff.next (runStep dest.names))
        (fun d s => (extractionOf dest.names s).StaysInside dest.names d) dest.disk (steps a) :=
  along_congr (fun _ _ _ hd h => wellFormed_of_next dest.legal hd h)
    (fun _ s hd => touches_runStep_iff dest.legal hd s) dest.wellFormed _

/-- The disk `dest` with nothing else. -/
def emptyDestination : Destination where
  names := ["dest".toList]
  legal := by
    rintro n hn
    rw [List.mem_singleton.1 hn]
    exact ⟨by decide, by decide, by decide, by decide⟩
  disk p := if p = [] ∨ p = ["dest".toList] then some .directory else none
  wellFormed := by
    refine ⟨by simp, fun p hp => ?_⟩
    split at hp
    · next h => rcases h with rfl | rfl <;> simp
    · exact absurd rfl hp

/-- **An entry `../evil` is written next to the destination.** -/
theorem not_contained_evil :
    ¬Contained emptyDestination (.zip [⟨"../evil".toList, [1]⟩]) := by
  intro h
  have hbefore : emptyDestination.disk ["evil".toList] = none := by rfl
  have hwritten : ((runStep emptyDestination.names (.unzipEntry ⟨"../evil".toList, [1]⟩)).run
      emptyDestination.disk).2 ["evil".toList] = some (.file [1]) := by rfl
  have hinside := h.1 ["evil".toList] (.inl (by rw [hwritten, hbefore]; simp))
  exact absurd hinside (by decide)

/-- **Names that lead to the destination or below it are enough**, when the
parent of the destination is a directory that is there. -/
theorem contained_of_targets (dest : Destination) (a : Archive)
    (hparent : dest.disk dest.names.dropLast = some .directory)
    (h : ∀ s ∈ steps a, ∀ f, (extractionOf dest.names s).target = some f →
      dest.names <+: f.getCanonicalFile) : Contained dest a := by
  rw [contained_iff]
  -- the parent stays there
  refine along_of_invariant (I := fun d => d.WellFormed ∧ d dest.names.dropLast = some .directory)
    (fun d s d' hd hs => ?_) (fun s hs d hd => ?_) ⟨dest.wellFormed, hparent⟩
  · refine ⟨wellFormed_of_next dest.legal hd.1 hs, ?_⟩
    rw [← snd_run_of_next hd.1 hs]
    exact Extraction.directory_of_run hd.1 (legal_extractionOf dest.legal s) hd.2
  · exact Extraction.staysInside_of_target hd.1 hd.2 (legal_extractionOf dest.legal s) (h s hs)

/-- A directory and a regular file, by names with dots. -/
def dottedEntries : List ZipEntry := [⟨"./sub//".toList, []⟩, ⟨"sub/../file".toList, [1]⟩]

/-- Both are below the destination. -/
theorem contained_of_targets_dottedEntries : Contained emptyDestination (.zip dottedEntries) :=
  contained_of_targets emptyDestination (.zip dottedEntries) rfl (by
    intro s hs f hf
    rcases List.mem_cons.1 hs with rfl | hs
    · obtain rfl := Option.some.inj hf
      decide
    · obtain rfl := List.mem_singleton.1 hs
      obtain rfl := Option.some.inj hf
      decide)

/-- The two disks have the same outside the directory. -/
def SameOutside (dest : List Text) (d d' : Disk) : Prop := ∀ p, ¬dest <+: p → d' p = d p

instance : Std.Refl (SameOutside dest) := ⟨fun _ _ _ => rfl⟩

instance : IsTrans Disk (SameOutside dest) :=
  ⟨fun _ _ _ h h' p hp => (h' p hp).trans (h p hp)⟩

/-- **An extraction that stays inside leaves the rest of the disk as it
was**, whether it returns or throws. -/
theorem sameOutside_of_contained {dest : Destination} {a : Archive} (h : Contained dest a) :
    SameOutside dest.names dest.disk ((extract dest.names a).run dest.disk).2 := by
  rw [snd_run_extract]
  refine Along.rel_forEach (fun d s hs p hp => ?_) h
  exact Classical.byContradiction fun hne => hp (hs p (.inl hne))

end CompressionUtil

end Zooffice
