import Zooffice.Archive.Disk
import Zooffice.Archive.Zip
/-!
# Zipping and unzipping again

`zip` writes no entry for a directory, and `unzip` makes a directory only
for such an entry. Unzipped into an empty directory, a regular file can
therefore only be created right in it: the archive of a tree comes back
exactly when every regular file has one name below the root of the
archive.
-/


namespace Zooffice

open Zooffice.Path

/-- A directory that is there, with nothing in it. -/
structure EmptyDirectory where
  disk : Disk
  names : List Text
  directory : disk names = some .directory
  empty : ∀ p, names <+: p → p ≠ names → disk p = none

namespace CompressionUtil

/-- The destination is a directory, and there is no directory in it. -/
structure OnlyFiles (dest : List Text) (d : Disk) : Prop where
  directory : d dest = some .directory
  none_in : ∀ p, dest <+: p → p ≠ dest → d p ≠ some .directory

variable {dest : List Text} {d : Disk} {ls : List (List Text × Content)}

theorem onlyFiles_of_empty (e : EmptyDirectory) : OnlyFiles e.names e.disk :=
  ⟨e.directory, fun p hp hne => by rw [e.empty p hp hne]; simp⟩

/-- Another file in it changes nothing about that. -/
theorem OnlyFiles.put (h : OnlyFiles dest d) (n : Text) (content : Content) :
    OnlyFiles dest (d.put (dest ++ [n]) (.file content)) := by
  refine ⟨?_, fun p hp hne => ?_⟩
  · rw [Disk.put_of_ne _ _ (by simp)]
    exact h.directory
  · by_cases heq : p = dest ++ [n]
    · rw [heq, Disk.put_self]
      simp
    · rw [Disk.put_of_ne _ _ heq]
      exact h.none_in p hp hne

/-! ## One entry -/

/-- The entry of a regular file is not one of a directory. -/
theorem isDirectory_entryOf {l : List Text × Content} (hne : l.1 ≠ [])
    (hl : ∀ n ∈ l.1, FileName n) : (entryOf l).isDirectory = false := by
  rw [ZipEntry.isDirectory, entryOf]
  exact decide_eq_false (getLast?_relativeName hne hl)

/-- Its target has its names. -/
theorem targetOf_entryOf {l : List Text × Content} (hne : l.1 ≠ [])
    (hl : ∀ n ∈ l.1, FileName n) : targetOf dest (entryOf l).name = ⟨dest, l.1⟩ := by
  rw [targetOf, entryOf, names_relativeName hne hl]

/-- **A file right in the destination is written.** -/
theorem run_unzipEntry_of_single {n : Text} (content : Content) (hn : FileName n)
    (hd : OnlyFiles dest d) :
    (unzipEntry dest (entryOf ([n], content))).run d =
      (.ok ⟨⟩, d.put (dest ++ [n]) (.file content)) := by
  have hne : ([n] : List Text) ≠ [] := by simp
  have hl : ∀ m ∈ [n], FileName m := by simpa using hn
  have hlocate : ∀ d', d' dest = some .directory → Disk.locate d' dest [n] = some (dest ++ [n]) :=
    fun d' hd' => by rw [Disk.locate_of_directory hd' hn]; rfl
  -- no directory has the name, so the file can be opened
  have hopens : ∀ d', d' dest = some .directory → d' (dest ++ [n]) ≠ some .directory →
      TargetFile.opens ⟨dest, [n]⟩ d' = .ok (dest ++ [n]) :=
    fun d' hd' hitem => TargetFile.opens_of_locate (hlocate d' hd') (by simpa using hd') hitem
  -- it is created first, if it is not there
  have hcreate : ∃ d', (TargetFile.createNewFile ⟨dest, [n]⟩).run d = (.ok ⟨⟩, d') ∧
      d' dest = some .directory ∧ d' (dest ++ [n]) ≠ some .directory ∧
      d'.put (dest ++ [n]) (.file content) = d.put (dest ++ [n]) (.file content) := by
    have hitem := hd.none_in (dest ++ [n]) (List.prefix_append _ _) (by simp)
    cases hthere : TargetFile.fileExists ⟨dest, [n]⟩ d with
    | true => exact ⟨d, TargetFile.run_createNewFile_of_exists hthere, hd.directory, hitem, rfl⟩
    | false =>
        refine ⟨_, TargetFile.run_createNewFile hthere (hopens d hd.directory hitem),
          (hd.put n []).directory, by simp, Disk.put_put _ _ _ _⟩
  obtain ⟨d', hrun, hdir, hitem, hput⟩ := hcreate
  have hwrite := TargetFile.run_write content (hopens d' hdir hitem)
  rw [unzipEntry, isDirectory_entryOf hne hl, targetOf_entryOf hne hl]
  dsimp only
  rw [if_neg Bool.false_ne_true, Eff.run_bind_of_ok hrun, ← hput]
  exact hwrite

/-- **A file below a directory of the archive cannot be created.** -/
theorem run_unzipEntry_of_nested {n m : Text} {ns : List Text} (content : Content)
    (hl : ∀ x ∈ n :: m :: ns, FileName x) (hd : OnlyFiles dest d) :
    (unzipEntry dest (entryOf (n :: m :: ns, content))).run d =
      (.error (ioException "No such file or directory"), d) := by
  have hne : n :: m :: ns ≠ [] := by simp
  -- the directory `n` is not there
  have hlocate : d.locate dest (n :: m :: ns) = none := by
    rw [Disk.locate_of_directory hd.directory (hl n List.mem_cons_self)]
    refine Disk.locate_of_not_directory (hd.none_in _ (List.prefix_append _ _) (by simp)) m ns
  have hcreate : (TargetFile.createNewFile ⟨dest, n :: m :: ns⟩).run d =
      (.error (ioException "No such file or directory"), d) :=
    TargetFile.run_createNewFile_of_error (TargetFile.not_fileExists_of_locate hlocate)
      (TargetFile.opens_of_locate_eq_none hlocate)
  rw [unzipEntry, isDirectory_entryOf hne hl, targetOf_entryOf hne hl]
  dsimp only
  rw [if_neg Bool.false_ne_true, Eff.run_bind_of_error hcreate]

/-! ## The loop -/

/-- The names of what is zipped are file names. -/
def Legal (ls : List (List Text × Content)) : Prop :=
  ∀ l ∈ ls, l.1 ≠ [] ∧ ∀ n ∈ l.1, FileName n

/-- Every file has one name below the root of the archive. -/
def Flat (ls : List (List Text × Content)) : Prop := ∀ l ∈ ls, ∃ n, l.1 = [n]

/-- **Files right in the destination are all written**, each over what was
there under its name. -/
theorem run_unzipLoop_of_flat (hlegal : Legal ls) (hflat : Flat ls) (hd : OnlyFiles dest d) :
    ∃ d', (unzipLoop dest (ls.map entryOf)).run d = (.ok ⟨⟩, d') ∧
      (∀ p, (∀ l ∈ ls, p ≠ dest ++ l.1) → d' p = d p) ∧
      ((ls.map Prod.fst).Nodup → ∀ l ∈ ls, d' (dest ++ l.1) = some (.file l.2)) := by
  induction ls generalizing d with
  | nil => exact ⟨d, rfl, fun _ _ => rfl, fun _ l hl => absurd hl (by simp)⟩
  | cons l ls ih =>
      obtain ⟨⟨ns, content⟩, hl⟩ : ∃ l', l' = l := ⟨l, rfl⟩
      subst hl
      obtain ⟨n, rfl⟩ : ∃ n, ns = [n] := hflat _ List.mem_cons_self
      have hn : FileName n := (hlegal _ List.mem_cons_self).2 n List.mem_cons_self
      obtain ⟨d', hrun, hframe, hwritten⟩ := ih
        (fun l hl => hlegal l (List.mem_cons_of_mem _ hl))
        (fun l hl => hflat l (List.mem_cons_of_mem _ hl)) (hd.put n content)
      refine ⟨d', ?_, fun p hp => ?_, fun hnodup l hl => ?_⟩
      · rw [List.map_cons, unzipLoop,
          Eff.run_bind_of_ok (run_unzipEntry_of_single content hn hd)]
        exact hrun
      · rw [hframe p fun l hl => hp l (List.mem_cons_of_mem _ hl)]
        exact Disk.put_of_ne _ _ (hp _ List.mem_cons_self)
      · rw [List.map_cons, List.nodup_cons] at hnodup
        rcases List.mem_cons.1 hl with rfl | hl
        · -- no later file has the name
          rw [hframe, Disk.put_self]
          intro l hl heq
          refine hnodup.1 (List.mem_map.2 ⟨l, hl, ?_⟩)
          exact (List.append_cancel_left heq).symm
        · exact hwritten hnodup.2 l hl

/-- **The loop returns only when every file is right in the destination.** -/
theorem flat_of_run_unzipLoop {d' : Disk} (hlegal : Legal ls) (hd : OnlyFiles dest d)
    (h : (unzipLoop dest (ls.map entryOf)).run d = (.ok ⟨⟩, d')) : Flat ls := by
  induction ls generalizing d with
  | nil => exact fun l hl => absurd hl (by simp)
  | cons l ls ih =>
      obtain ⟨⟨ns, content⟩, hl⟩ : ∃ l', l' = l := ⟨l, rfl⟩
      subst hl
      obtain ⟨hne, hns⟩ := hlegal _ List.mem_cons_self
      rw [List.map_cons, unzipLoop] at h
      -- the first file has one name, or its entry has thrown
      rcases ns with _ | ⟨n, _ | ⟨m, ns⟩⟩
      · exact absurd rfl hne
      · rw [Eff.run_bind_of_ok (run_unzipEntry_of_single content (hns n (by simp)) hd)] at h
        intro l hl
        rcases List.mem_cons.1 hl with rfl | hl
        · exact ⟨n, rfl⟩
        · exact ih (fun l hl => hlegal l (List.mem_cons_of_mem _ hl)) (hd.put n content) h l hl
      · rw [Eff.run_bind_of_error (run_unzipEntry_of_nested content hns hd)] at h
        simp at h

/-- `unzip` returns when its loop does. -/
theorem run_unzip_eq_ok {entries : List ZipEntry} {d' : Disk} :
    (unzip entries dest).run d = (.ok ⟨⟩, d') ↔ (unzipLoop dest entries).run d = (.ok ⟨⟩, d') := by
  rw [unzip, Eff.run_tryCatch_eq_ok]
  refine or_iff_left ?_
  rintro ⟨e, d₁, -, h⟩
  simp at h

/-! ## The result -/

/-- Zipping and unzipping into the directory succeed, and every regular
file is there again under its names. -/
def RoundTrips (src : Source) (includeSrc : Bool) (dest : EmptyDirectory) : Prop :=
  ∃ entries d', zip src.file includeSrc = .ok entries ∧
    (unzip entries dest.names).run dest.disk = (.ok ⟨⟩, d') ∧
      ∀ l ∈ regularFiles src includeSrc, d' (dest.names ++ l.1) = some (.file l.2)

/-- **A tree comes back from its archive exactly when every regular file
has one name below the root of the archive.** -/
theorem roundTrips_iff (src : Source) (includeSrc : Bool) (dest : EmptyDirectory) :
    RoundTrips src includeSrc dest ↔ Flat (regularFiles src includeSrc) := by
  obtain ⟨ls, hzip, hperm⟩ := zip_perm src includeSrc
  have hlegal : Legal ls := fun l hl => legal_of_mem_regularFiles (hperm.subset hl)
  have hd := onlyFiles_of_empty dest
  constructor
  · rintro ⟨entries, d', hentries, hunzip, -⟩
    obtain rfl : ls.map entryOf = entries := by
      rw [hzip] at hentries
      exact Except.ok.inj hentries
    have hflat := flat_of_run_unzipLoop hlegal hd (run_unzip_eq_ok.1 hunzip)
    exact fun l hl => hflat l (hperm.mem_iff.2 hl)
  · intro hflat
    obtain ⟨d', hrun, -, hwritten⟩ :=
      run_unzipLoop_of_flat hlegal (fun l hl => hflat l (hperm.subset hl)) hd
    have hnodup : (ls.map Prod.fst).Nodup :=
      (hperm.map Prod.fst).nodup_iff.2 (LabelledTree.nodup_leaves src.tree_distinct _)
    exact ⟨_, d', hzip, run_unzip_eq_ok.2 hrun, fun l hl => hwritten hnodup l (hperm.mem_iff.2 hl)⟩

/-- A directory `src` with a directory `a` that has a file `b`. -/
def nestedSource : Source where
  parent := []
  name := "src".toList
  tree := .node [("a".toList, .node [("b".toList, .leaf [1])])]
  name_legal := ⟨by decide, by decide, by decide, by decide⟩
  tree_distinct :=
    ⟨⟨⟨by decide, by decide, by decide, by decide⟩, by simp⟩,
      ⟨⟨⟨by decide, by decide, by decide, by decide⟩, by simp⟩, trivial, trivial⟩, trivial⟩

/-- The directory `dest` on a disk that has nothing else. -/
def emptyDest : EmptyDirectory where
  disk p := if p = [] ∨ p = ["dest".toList] then some .directory else none
  names := ["dest".toList]
  directory := by simp
  empty p hp hne := by
    refine if_neg ?_
    rintro (rfl | rfl)
    · simp at hp
    · exact hne rfl

/-- **A nested file does not come back**: `unzip` throws. -/
theorem not_roundTrips_nestedSource : ¬RoundTrips nestedSource false emptyDest := by
  rintro ⟨entries, d', hzip, hunzip, -⟩
  have hentries : zip nestedSource.file false = .ok [⟨"a/b".toList, [1]⟩] := by rfl
  rw [hentries, Except.ok.injEq] at hzip
  subst hzip
  have hthrows : ((unzip [⟨"a/b".toList, [1]⟩] emptyDest.names).run emptyDest.disk).1 =
      .error ⟨.zoofficeRuntime, some "No such file or directory"⟩ := by rfl
  rw [hunzip] at hthrows
  simp at hthrows

end CompressionUtil

end Zooffice
