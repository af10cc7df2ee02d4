import Zooffice.Archive.Layout
import Zooffice.Archive.Model.Jar
import Zooffice.Archive.RoundTrip
/-!
# Zipping and extracting as a jar

Unlike `unzip`, `unjar` makes the parent of each file. What `zip` wrote
comes back from it whatever directories the tree has, with nothing else
made, unless a file is taken for the manifest. A jar is read with names in
UTF-8, so the names are to be written in it, or in ASCII.
-/


namespace Zooffice

open Zooffice.Path

namespace CompressionUtil

variable {dest : List Text} {d : Disk} {l : List Text × Content} {ls : List (List Text × Content)}

/-! ## The entries -/

/-- `unjar` leaves the name of a regular file as it is. -/
theorem unjarFileName_entryOf (hne : l.1 ≠ []) (hl : ∀ n ∈ l.1, FileName n) :
    unjarFileName (entryOf l).name = .ok (entryOf l).name := by
  have hlast := getLast?_relativeName hne hl
  have hhead := head?_relativeName hne hl
  rw [unjarFileName, entryOf]
  dsimp only
  obtain ⟨n, ns, heq⟩ := List.exists_cons_of_ne_nil hne
  obtain ⟨c, rest, hname⟩ : ∃ c rest, relativeName l.1 = c :: rest := by
    obtain ⟨c, rest, hn⟩ := List.exists_cons_of_ne_nil (hl n (heq ▸ List.mem_cons_self)).ne_nil
    exact ⟨c, rest ++ rooted '/' ns, by rw [heq, relativeName_cons, hn]; rfl⟩
  rw [hname] at hlast hhead ⊢
  rw [List.getLast?_eq_some_getLast (List.cons_ne_nil c rest)] at hlast ⊢
  dsimp only
  rw [if_neg fun h => hlast (congrArg some h), List.head?_cons]
  dsimp only
  rw [if_neg fun h => hhead (congrArg some h)]

/-- **The entry of a regular file lays it out.** -/
theorem run_unjarEntry_entryOf (hd : d.WellFormed) (hdir : d dest = some .directory)
    (hdest : ∀ n ∈ dest, FileName n) (hne : l.1 ≠ []) (hl : ∀ n ∈ l.1, FileName n)
    (hfree : Free dest d l) :
    ∃ d', (unjarEntry dest (entryOf l)).run d = (.ok ⟨⟩, d') ∧ d'.WellFormed ∧
      LaidOut dest [l] d d' := by
  obtain ⟨d', hrun, hd', hlaid⟩ := run_writeFile_below hd hdir hdest hne hl hfree
  refine ⟨d', ?_, hd', hlaid⟩
  have hparent : TargetFile.getParentFile ⟨dest, l.1⟩ = some ⟨dest, l.1.dropLast⟩ := by
    rw [TargetFile.getParentFile, if_pos hne]
  rw [unjarEntry, unjarFileName_entryOf hne hl, Eff.run_ofExcept_bind]
  dsimp only
  rw [targetOf_entryOf hne hl, isDirectory_entryOf hne hl, if_neg Bool.false_ne_true,
    run_unjarFile, hparent]
  exact hrun

/-- **The loop lays all the files out**, when no one is on the way to
another. -/
theorem run_unjarLoop (hdest : ∀ n ∈ dest, FileName n) (hlegal : Legal ls) (hapart : Apart ls)
    (hready : Ready dest ls d) :
    ∃ d', (unjarLoop dest (ls.map entryOf)).run d = (.ok ⟨⟩, d') ∧ LaidOut dest ls d d' := by
  induction ls generalizing d with
  | nil => exact ⟨d, rfl, nofun, nofun, fun _ _ => rfl⟩
  | cons l ls ih =>
      obtain ⟨hapart, hrest⟩ := List.pairwise_cons.1 hapart
      obtain ⟨hne, hl⟩ := hlegal l List.mem_cons_self
      obtain ⟨d₁, hrun, hd₁, hlaid⟩ := run_unjarEntry_entryOf hready.wellFormed hready.directory
        hdest hne hl (hready.free l List.mem_cons_self)
      have hready₁ : Ready dest ls d₁ := ⟨hd₁, hlaid.directory_self hne, fun l' hl' =>
        (hready.free l' (List.mem_cons_of_mem _ hl')).of_laidOut hlaid (hapart l' hl')⟩
      obtain ⟨d', hloop, hlater⟩ := ih (fun l' hl' => hlegal l' (List.mem_cons_of_mem _ hl'))
        hrest hready₁
      refine ⟨d', ?_, hlaid.cons hlater hapart⟩
      rw [List.map_cons, unjarLoop, Eff.run_bind_of_ok hrun]
      exact hloop

/-! ## The manifest -/

/-- No regular file is taken for the manifest. -/
def NoManifest (ls : List (List Text × Content)) : Prop :=
  ∀ l ∈ ls, equalsIgnoreCase (relativeName l.1) manifestName = false

/-- Only a separator is folded to one. -/
theorem eq_of_foldCase_eq_slash {c : Char} (h : foldCase c = '/') : c = '/' := by
  unfold foldCase at h
  split at h
  · exact absurd h (by decide)
  split at h
  · exact absurd h (by decide)
  split at h
  · exact absurd h (by decide)
  · unfold Char.toLower at h
    split at h
    · next hletter =>
        -- a letter goes to a letter
        have hlow : 65 ≤ c.toNat := UInt32.le_iff_toNat_le.1 hletter.1
        have hhigh : c.toNat ≤ 90 := UInt32.le_iff_toNat_le.1 hletter.2
        have hval := congrArg Char.toNat h
        change (c.val + 32).toNat = 47 at hval
        rw [UInt32.toNat_add] at hval
        change (c.toNat + 32) % 2 ^ 32 = 47 at hval
        omega
    · exact h
/-- The name of a regular file is not that of the directory of the
manifest: it has no separator at its end. -/
theorem equalsIgnoreCase_metaInfName (hne : l.1 ≠ []) (hl : ∀ n ∈ l.1, FileName n) :
    equalsIgnoreCase (relativeName l.1) metaInfName = false := by
  refine decide_eq_false fun heq => getLast?_relativeName hne hl ?_
  have hlast := congrArg List.getLast? heq
  rw [List.getLast?_map, (by decide : (metaInfName.map foldCase).getLast? = some '/')] at hlast
  obtain ⟨c, hc, hfold⟩ := Option.map_eq_some_iff.1 hlast
  rw [hc, eq_of_foldCase_eq_slash hfold]

/-- **All entries are given**, when no file is taken for the manifest. -/
theorem jarOf_map_entryOf (rewrite : Content → Content) (hlegal : Legal ls)
    (hmanifest : NoManifest ls) : jarOf rewrite (ls.map entryOf) = ⟨ls.map entryOf, none⟩ := by
  cases ls with
  | nil => rfl
  | cons l ls =>
      obtain ⟨hne, hl⟩ := hlegal l List.mem_cons_self
      have hmeta : equalsIgnoreCase (entryOf l).name metaInfName = false :=
        equalsIgnoreCase_metaInfName hne hl
      have hname : equalsIgnoreCase (entryOf l).name manifestName = false :=
        hmanifest l List.mem_cons_self
      rw [List.map_cons, jarOf]
      simp only [hmeta, hname, Bool.false_eq_true, if_false]

/-! ## The result -/

/-- The files of a tree are apart. -/
theorem apart_regularFiles (src : Source) (includeSrc : Bool) :
    Apart (regularFiles src includeSrc) := by
  have hnodup : (regularFiles src includeSrc).Pairwise fun l l' => l.1 ≠ l'.1 :=
    List.pairwise_map.1 (LabelledTree.nodup_leaves src.tree_distinct _)
  refine hnodup.imp_of_mem fun hl hl' hne => ⟨fun h => hne ?_, fun h => hne ?_⟩
  · exact LabelledTree.eq_of_isPrefix_of_mem_leaves src.tree_distinct hl hl' h
  · exact (LabelledTree.eq_of_isPrefix_of_mem_leaves src.tree_distinct hl' hl h).symm

/-- Whatever their order. -/
theorem Apart.perm {ls' : List (List Text × Content)} (h : Apart ls) (hperm : ls.Perm ls') :
    Apart ls' :=
  (hperm.pairwise_iff fun h => ⟨h.2, h.1⟩).1 h

/-- The same files are laid out, whatever their order. -/
theorem LaidOut.perm {ls' : List (List Text × Content)} {d' : Disk} (h : LaidOut dest ls d d')
    (hperm : ls.Perm ls') : LaidOut dest ls' d d' :=
  ⟨fun l hl => h.file l (hperm.mem_iff.2 hl), fun l hl => h.directory l (hperm.mem_iff.2 hl),
    fun p hp => h.frame p fun l hl => hp l (hperm.mem_iff.1 hl)⟩

/-- Nothing is in the way in an empty directory. -/
theorem ready_of_empty (e : EmptyDirectory) (hd : e.disk.WellFormed) (hlegal : Legal ls) :
    Ready e.names ls e.disk := by
  have hbelow : ∀ q, q ≠ [] → e.disk (e.names ++ q) = none := fun q hq =>
    e.empty _ (List.prefix_append _ _) fun heq => hq (List.append_right_eq_self.1 heq)
  refine ⟨hd, e.directory, fun l hl => ⟨fun q hq hne content => ?_, ?_⟩⟩
  · rcases eq_or_ne q [] with rfl | hq
    · rw [List.append_nil, e.directory]
      simp
    · rw [hbelow q hq]
      simp
  · rw [hbelow l.1 (hlegal l hl).1]
    simp

/-- The destination is a directory. -/
theorem run_unjarDestination (hdir : d dest = some .directory) :
    (unjarDestination dest).run d = (.ok ⟨⟩, d) := by
  have hthere : TargetFile.fileExists ⟨dest, []⟩ d = true :=
    TargetFile.fileExists_eq_true.2 ⟨dest, rfl, by rw [hdir]; simp⟩
  have hdirectory : TargetFile.isDirectory ⟨dest, []⟩ d = true := decide_eq_true hdir
  rw [unjarDestination, mkdirsIfMissing, Eff.run_bind, Eff.run_get_bind, if_pos hthere]
  change (if TargetFile.isDirectory ⟨dest, []⟩ d = true then _ else _ : DiskEff PUnit).run d = _
  rw [if_pos hdirectory]
  rfl

/-- **Every tree comes back from its archive as a jar**: its regular files
and the directories on the way to them, and nothing else, unless a file is
taken for the manifest. -/
theorem unjar_zip (src : Source) (includeSrc : Bool) (rewrite : Content → Content)
    (dest : EmptyDirectory) (hd : dest.disk.WellFormed) (hdest : ∀ n ∈ dest.names, FileName n)
    (hmanifest : NoManifest (regularFiles src includeSrc)) :
    ∃ entries d', zip src.file includeSrc = .ok entries ∧
      (unjar (jarOf rewrite entries) dest.names).run dest.disk = (.ok ⟨⟩, d') ∧
      LaidOut dest.names (regularFiles src includeSrc) dest.disk d' := by
  obtain ⟨ls, hzip, hperm⟩ := zip_perm src includeSrc
  have hlegal : Legal ls := fun l hl => legal_of_mem_regularFiles (hperm.subset hl)
  have hnone : NoManifest ls := fun l hl => hmanifest l (hperm.subset hl)
  obtain ⟨d', hloop, hlaid⟩ := run_unjarLoop hdest hlegal
    ((apart_regularFiles src includeSrc).perm hperm.symm) (ready_of_empty dest hd hlegal)
  refine ⟨_, d', hzip, ?_, hlaid.perm hperm⟩
  rw [jarOf_map_entryOf rewrite hlegal hnone, unjar,
    Eff.run_bind_of_ok (run_unjarDestination dest.directory), Eff.run_bind_of_ok hloop]
  rfl

/-- The nested file that `unzip` cannot write. -/
theorem unjar_zip_nestedSource :
    ∃ entries d', zip nestedSource.file false = .ok entries ∧
      (unjar (jarOf id entries) emptyDest.names).run emptyDest.disk = (.ok ⟨⟩, d') ∧
      LaidOut emptyDest.names (regularFiles nestedSource false) emptyDest.disk d' :=
  unjar_zip nestedSource false id emptyDest
    ⟨rfl, fun p hp => by
      have hp : p = [] ∨ p = ["dest".toList] := by
        by_contra hne
        exact hp (if_neg hne)
      rcases hp with rfl | rfl <;> rfl⟩
    (fun n hn => by
      rw [List.mem_singleton.1 hn]
      exact ⟨by decide, by decide, by decide, by decide⟩)
    (fun l hl => by
      rw [List.mem_singleton.1 hl]
      decide)

end CompressionUtil

end Zooffice
