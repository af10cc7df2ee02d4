import Zooffice.Archive.Model.Disk
/-!
# What the operations on the disk do

A disk is well formed when whatever is on it is in a directory. A path is
located where its names lead to (`eq_resolve_of_locate`), and can be
opened only when its parent is there already (`parent_exists_of_opens`).
`mkdirs` makes what is missing on the way, and nothing at all when a file
is in the way (`run_mkdirs`).
-/


namespace Zooffice

open Zooffice.Path

namespace Disk

/-- The root is a directory, and what is there is in a directory. -/
structure WellFormed (d : Disk) : Prop where
  root : d [] = some .directory
  parent : ∀ p, d p ≠ none → d p.dropLast = some .directory

/-- No regular file is on the way to the location, or there. -/
def FreeWay (d : Disk) (location : List Text) : Prop :=
  ∀ q, q <+: location → ∀ content, d q ≠ some (.file content)

variable {d : Disk} {location p q : List Text} {n : Text} {ns : List Text}

@[simp] theorem put_put (d : Disk) (p : List Text) (item item' : DiskItem) :
    (d.put p item).put p item' = d.put p item' := by
  funext q
  unfold put
  split <;> rfl

/-- **Above what is there are directories.** The induction is on what
stands between the two. -/
theorem WellFormed.directory_of_prefix (hd : d.WellFormed) (hp : d p ≠ none) (hq : q <+: p)
    (hne : q ≠ p) : d q = some .directory := by
  obtain ⟨r, rfl⟩ := hq
  induction r using List.reverseRecOn with
  | nil => exact absurd (List.append_nil q).symm hne
  | append_singleton r n ih =>
      have hparent := hd.parent _ hp
      rw [← List.append_assoc, List.dropLast_concat] at hparent
      by_cases hr : q = q ++ r
      · rw [hr]
        exact hparent
      · exact ih (by rw [hparent]; simp) hr

/-- What is there has something at every location above it. -/
theorem WellFormed.ne_none_of_prefix (hd : d.WellFormed) (hp : d p ≠ none) (hq : q <+: p) :
    d q ≠ none := by
  by_cases hne : q = p
  · rw [hne]
    exact hp
  · rw [hd.directory_of_prefix hp hq hne]
    simp

/-- Above a directory are directories. -/
theorem WellFormed.directory_of_prefix_directory (hd : d.WellFormed) (hp : d p = some .directory)
    (hq : q <+: p) : d q = some .directory := by
  by_cases hne : q = p
  · rwa [hne]
  · exact hd.directory_of_prefix (by rw [hp]; simp) hq hne

/-- A file that is put into a directory, or over another, leaves the disk
well formed. -/
theorem WellFormed.put_file (hd : d.WellFormed) (hparent : d p.dropLast = some .directory)
    (hp : d p ≠ some .directory) (content : Content) : (d.put p (.file content)).WellFormed := by
  -- no directory is touched
  have hkeep : ∀ q, d q = some .directory → d.put p (.file content) q = some .directory := by
    intro q hq
    rwa [put_of_ne _ _ fun heq : q = p => hp (heq ▸ hq)]
  refine ⟨hkeep [] hd.root, fun q hq => hkeep _ ?_⟩
  by_cases heq : q = p
  · rwa [heq]
  · rw [put_of_ne _ _ heq] at hq
    exact hd.parent q hq

/-! ## Following a path -/

theorem locate_of_directory (hp : d p = some .directory) (hn : Proper '/' '.' n) (ns : List Text) :
    d.locate p (n :: ns) = d.locate (p ++ [n]) ns := by
  rw [locate, if_pos hp, enter_of_proper hn]

theorem locate_of_not_directory (hp : d p ≠ some .directory) (n : Text) (ns : List Text) :
    d.locate p (n :: ns) = none := by
  rw [locate, if_neg hp]

/-- **A path is located where its names lead to.** -/
theorem eq_resolve_of_locate (h : d.locate location ns = some p) : p = resolve '.' location ns := by
  induction ns generalizing location with
  | nil => exact (Option.some.inj h).symm
  | cons n ns ih =>
      rw [locate] at h
      split at h
      · exact ih h
      · exact absurd h (by simp)

/-- A path is followed to its last name, which is looked up in a
directory. -/
theorem locate_concat (d : Disk) (location ns : List Text) (n : Text) :
    d.locate location (ns ++ [n]) =
      (d.locate location ns).bind fun q =>
        if d q = some .directory then some (enter '.' q n) else none := by
  induction ns generalizing location with
  | nil => rfl
  | cons m ns ih =>
      rw [List.cons_append, locate, locate]
      split
      · exact ih _
      · rfl

/-- A regular file that is put where no directory was leads nowhere else. -/
theorem locate_put_file (hp : d p ≠ some .directory) (content : Content) (location ns : List Text) :
    (d.put p (.file content)).locate location ns = d.locate location ns := by
  induction ns generalizing location with
  | nil => rfl
  | cons n ns ih =>
      have hdir : d.put p (.file content) location = some .directory ↔
          d location = some .directory := by
        by_cases heq : location = p
        · rw [heq, put_self]
          exact iff_of_false (by simp) hp
        · rw [put_of_ne _ _ heq]
      rw [locate, locate, ih]
      simp only [hdir]

/-- **From a directory, one name leads into it, or to a directory.** -/
theorem WellFormed.isPrefix_enter (hd : d.WellFormed) (hp : d p = some .directory)
    (h : d (enter '.' p n) ≠ some .directory) : p <+: enter '.' p n := by
  unfold enter at h ⊢
  split
  · exact List.prefix_refl p
  · next hmove =>
      rw [if_neg hmove] at h
      split
      · next hdots =>
          rw [if_pos hdots] at h
          exact absurd (hd.directory_of_prefix_directory hp (List.dropLast_prefix p)) h
      · exact List.prefix_append _ _

/-! ## Making directories -/

/-- Directories above a directory, and one in it. -/
theorem directory_above_concat (habove : ∀ q, q <+: location → d q = some .directory)
    (hn : d (location ++ [n]) = some .directory) :
    ∀ q, q <+: location ++ [n] → d q = some .directory := by
  intro q hq
  rcases List.prefix_concat_iff.1 hq with rfl | hq
  · exact hn
  · exact habove q hq

/-- **With a free way, `mkdirs` makes every directory that is missing**,
and leaves the rest as it is. The induction is on the names that are left
on the way. -/
theorem mkdirs_of_freeWay (hns : ∀ n ∈ ns, Proper '/' '.' n)
    (habove : ∀ q, q <+: location → d q = some .directory) (hfree : d.FreeWay (location ++ ns))
    (q : List Text) :
    d.mkdirs location ns q =
      if q <+: location ++ ns ∧ d q = none then some .directory else d q := by
  induction ns generalizing d location with
  | nil =>
      refine (if_neg ?_).symm
      rintro ⟨hq, hnone⟩
      rw [List.append_nil] at hq
      rw [habove q hq] at hnone
      exact absurd hnone (by simp)
  | cons n ns ih =>
      have hns' : ∀ m ∈ ns, Proper '/' '.' m := fun m hm => hns m (List.mem_cons_of_mem _ hm)
      have hsplit : location ++ n :: ns = location ++ [n] ++ ns := by simp
      rw [hsplit] at hfree ⊢
      have hnext : location ++ [n] <+: location ++ [n] ++ ns := List.prefix_append _ _
      rw [mkdirs, enter_of_proper (hns n List.mem_cons_self)]
      cases hitem : d (location ++ [n]) with
      | none =>
          dsimp only
          rw [ih hns']
          · by_cases hq : q = location ++ [n]
            · rw [hq, put_self, if_neg (by simp), if_pos ⟨hnext, hitem⟩]
            · rw [put_of_ne _ _ hq]
          · refine directory_above_concat (fun q hq => ?_) (put_self _ _ _)
            by_cases heq : q = location ++ [n]
            · rw [heq, put_self]
            · rw [put_of_ne _ _ heq, habove q hq]
          · intro q hq content
            by_cases heq : q = location ++ [n]
            · rw [heq, put_self]
              simp
            · rw [put_of_ne _ _ heq]
              exact hfree q hq content
      | some item =>
          cases item with
          | directory => exact ih hns' (directory_above_concat habove hitem) hfree
          | file content => exact absurd hitem (hfree _ hnext content)

/-- **With a file in the way it makes nothing**: the file is in a directory,
so nothing is missing before it. -/
theorem mkdirs_of_not_freeWay (hd : d.WellFormed) (hns : ∀ n ∈ ns, Proper '/' '.' n)
    (habove : ∀ q, q <+: location → d q = some .directory)
    (hblocked : ¬d.FreeWay (location ++ ns)) : d.mkdirs location ns = d := by
  induction ns generalizing location with
  | nil => rfl
  | cons n ns ih =>
      have hsplit : location ++ n :: ns = location ++ [n] ++ ns := by simp
      rw [hsplit] at hblocked
      rw [mkdirs, enter_of_proper (hns n List.mem_cons_self)]
      cases hitem : d (location ++ [n]) with
      | none =>
          -- the file would be below what is not there
          refine absurd (fun q hq content hfile => ?_) hblocked
          have hq0 : d q ≠ none := by rw [hfile]; simp
          rcases List.prefix_or_prefix_of_prefix hq (List.prefix_append (location ++ [n]) ns) with
            hle | hle
          · rcases List.prefix_concat_iff.1 hle with rfl | hle
            · exact hq0 hitem
            · rw [habove q hle] at hfile
              exact absurd hfile (by simp)
          · exact hd.ne_none_of_prefix hq0 hle hitem
      | some item =>
          cases item with
          | directory =>
              exact ih (fun m hm => hns m (List.mem_cons_of_mem _ hm))
                (directory_above_concat habove hitem) hblocked
          | file content => rfl

/-- A disk that has got the directories missing on a free way is well
formed. -/
theorem WellFormed.of_made {d' : Disk} (hd : d.WellFormed) (hfree : d.FreeWay location)
    (h : ∀ q, d' q = if q <+: location ∧ d q = none then some .directory else d q) :
    d'.WellFormed := by
  -- what was a directory still is one
  have hkeep : ∀ q, d q = some .directory → d' q = some .directory := by
    intro q hq
    rw [h, if_neg (by rw [hq]; simp), hq]
  refine ⟨hkeep [] hd.root, fun q hq => ?_⟩
  rw [h] at hq
  by_cases hmade : q <+: location ∧ d q = none
  · -- above a new directory is a directory, or another new one
    have hparent : q.dropLast <+: location := (List.dropLast_prefix q).trans hmade.1
    cases hitem : d q.dropLast with
    | none => rw [h, if_pos ⟨hparent, hitem⟩]
    | some item =>
        cases item with
        | directory => exact hkeep _ hitem
        | file content => exact absurd hitem (hfree _ hparent content)
  · rw [if_neg hmade] at hq
    exact hkeep _ (hd.parent q hq)

end Disk

namespace TargetFile

variable {f : TargetFile} {d : Disk} {p : List Text} {content : Content}

/-! ## What a path names -/

theorem not_fileExists_of_locate (h : d.locate f.directory f.names = none) :
    f.fileExists d = false := by
  rw [fileExists, h]

/-- **A file is there when its path can be followed to something.** -/
theorem fileExists_eq_true :
    f.fileExists d = true ↔ ∃ p, d.locate f.directory f.names = some p ∧ d p ≠ none := by
  rw [fileExists]
  cases h : d.locate f.directory f.names with
  | none => simp
  | some p => simp [Option.isSome_iff_ne_none]

theorem opens_of_locate_eq_none (h : d.locate f.directory f.names = none) :
    f.opens d = .error (ioException "No such file or directory") := by
  rw [opens, h]

/-- A path into a directory can be opened where no directory is. -/
theorem opens_of_locate (h : d.locate f.directory f.names = some p)
    (hparent : d p.dropLast = some .directory) (hp : d p ≠ some .directory) :
    f.opens d = .ok p := by
  rw [opens, h]
  dsimp only
  cases hitem : d p with
  | none => rw [if_pos hparent]
  | some item =>
      cases item with
      | directory => exact absurd hitem hp
      | file content => rfl

/-- **And only there**, on a well-formed disk. -/
theorem of_opens (hd : d.WellFormed) (h : f.opens d = .ok p) :
    d.locate f.directory f.names = some p ∧ d p.dropLast = some .directory ∧
      d p ≠ some .directory := by
  rw [opens] at h
  cases hlocate : d.locate f.directory f.names with
  | none =>
      rw [hlocate] at h
      exact absurd h (by simp)
  | some q =>
      rw [hlocate] at h
      dsimp only at h
      cases hitem : d q with
      | none =>
          rw [hitem] at h
          dsimp only at h
          split at h
          · next hparent =>
              obtain rfl : q = p := Except.ok.inj h
              exact ⟨rfl, hparent, by rw [hitem]; simp⟩
          · exact absurd h (by simp)
      | some item =>
          rw [hitem] at h
          cases item with
          | directory => exact absurd h (by simp)
          | file content =>
              obtain rfl : q = p := Except.ok.inj h
              exact ⟨rfl, hd.parent q (by rw [hitem]; simp), by rw [hitem]; simp⟩

/-- It is where its names lead to. -/
theorem eq_getCanonicalFile_of_opens (hd : d.WellFormed) (h : f.opens d = .ok p) :
    p = f.getCanonicalFile :=
  Disk.eq_resolve_of_locate (of_opens hd h).1

/-- **What can be opened is looked up in a directory**, by the last name of
its path, or is the directory that the path begins with. -/
theorem cases_of_opens (hd : d.WellFormed) (h : f.opens d = .ok p) :
    f.names = [] ∧ p = f.directory ∨
      ∃ ns n q, f.names = ns ++ [n] ∧ d.locate f.directory ns = some q ∧
        d q = some .directory ∧ p = enter '.' q n := by
  obtain ⟨hlocate, -, -⟩ := of_opens hd h
  rcases List.eq_nil_or_concat' f.names with hnames | ⟨ns, n, hnames⟩
  · rw [hnames] at hlocate
    exact .inl ⟨hnames, (Option.some.inj hlocate).symm⟩
  · rw [hnames, Disk.locate_concat] at hlocate
    obtain ⟨q, hq, hlast⟩ := Option.bind_eq_some_iff.1 hlocate
    split at hlast
    · next hdir => exact .inr ⟨ns, n, q, hnames, hq, hdir, (Option.some.inj hlast).symm⟩
    · exact absurd hlast (by simp)

theorem getParentFile_concat {ns : List Text} {n : Text} (h : f.names = ns ++ [n]) :
    f.getParentFile = some ⟨f.directory, ns⟩ := by
  rw [getParentFile, if_pos (by simp [h]), h, List.dropLast_concat]

/-- **What can be opened has its parent there already.** -/
theorem parent_exists_of_opens (hd : d.WellFormed) (h : f.opens d = .ok p) {g : TargetFile}
    (hg : f.getParentFile = some g) : g.fileExists d = true := by
  rw [fileExists_eq_true]
  rcases cases_of_opens hd h with ⟨hnames, rfl⟩ | ⟨ns, n, q, hnames, hq, hdir, -⟩
  · -- the parent of the directory itself
    have hparent := (of_opens hd h).2.1
    rw [getParentFile, if_neg (by simp [hnames])] at hg
    split at hg
    · obtain rfl := Option.some.inj hg
      exact ⟨f.directory.dropLast, rfl, by rw [hparent]; simp⟩
    · exact absurd hg (by simp)
  · rw [getParentFile_concat hnames] at hg
    obtain rfl := Option.some.inj hg
    exact ⟨q, hq, by rw [hdir]; simp⟩

/-! ## Running the operations -/

/-- The directory that `mkdirs` makes there: it is missing on the way to a
file that is not there, and the way is free. -/
structure Makes (f : TargetFile) (d : Disk) (p : List Text) : Prop where
  missing : f.fileExists d = false
  free : d.FreeWay f.getCanonicalFile
  above : p <+: f.getCanonicalFile
  none : d p = none

theorem run_mkdirs_of_exists (h : f.fileExists d = true) : f.mkdirs.run d = (.ok false, d) := by
  rw [mkdirs, Eff.run_get_bind, if_pos h]
  rfl

theorem run_mkdirs_of_missing (h : f.fileExists d = false) :
    ∃ b, f.mkdirs.run d = (.ok b, d.mkdirs [] f.getCanonicalFile) := by
  rw [mkdirs, Eff.run_get_bind, if_neg (by simp [h])]
  exact ⟨_, rfl⟩

/-- **`mkdirs` returns**, and what it makes is all that changes. -/
theorem run_mkdirs (hd : d.WellFormed) (hf : ∀ n ∈ f.getCanonicalFile, Proper '/' '.' n) :
    ∃ b d', f.mkdirs.run d = (.ok b, d') ∧ d'.WellFormed ∧
      (∀ q, f.Makes d q → d' q = some .directory) ∧ ∀ q, ¬f.Makes d q → d' q = d q := by
  cases hthere : f.fileExists d with
  | true =>
      refine ⟨false, d, run_mkdirs_of_exists hthere, hd, fun q hq => ?_, fun _ _ => rfl⟩
      rw [hq.missing] at hthere
      exact absurd hthere (by simp)
  | false =>
      have habove : ∀ q, q <+: ([] : List Text) → d q = some .directory := by
        intro q hq
        rw [List.prefix_nil.1 hq]
        exact hd.root
      obtain ⟨b, hrun⟩ := run_mkdirs_of_missing hthere
      refine ⟨b, _, hrun, ?_⟩
      by_cases hfree : d.FreeWay f.getCanonicalFile
      · have hmade := Disk.mkdirs_of_freeWay hf habove hfree
        refine ⟨hd.of_made hfree hmade, fun q hq => ?_, fun q hq => ?_⟩
        · rw [hmade]
          exact if_pos ⟨hq.above, hq.none⟩
        · rw [hmade]
          exact if_neg fun h => hq ⟨hthere, hfree, h.1, h.2⟩
      · rw [Disk.mkdirs_of_not_freeWay hd hf habove hfree]
        exact ⟨hd, fun q hq => absurd hq.free hfree, fun _ _ => rfl⟩

theorem run_createNewFile_of_exists (h : f.fileExists d = true) :
    f.createNewFile.run d = (.ok ⟨⟩, d) := by
  rw [createNewFile, Eff.run_get_bind, if_pos h]
  rfl

theorem run_createNewFile (h : f.fileExists d = false) (hopens : f.opens d = .ok p) :
    f.createNewFile.run d = (.ok ⟨⟩, d.put p (.file [])) := by
  rw [createNewFile, Eff.run_get_bind, if_neg (by simp [h]), hopens]
  rfl

theorem run_createNewFile_of_error {e : Throwable} (h : f.fileExists d = false)
    (hopens : f.opens d = .error e) : f.createNewFile.run d = (.error e, d) := by
  rw [createNewFile, Eff.run_get_bind, if_neg (by simp [h]), hopens]
  rfl

theorem run_write (content : Content) (h : f.opens d = .ok p) :
    (f.write content).run d = (.ok ⟨⟩, d.put p (.file content)) := by
  rw [write, Eff.run_get_bind, h]
  rfl

theorem run_write_of_error {e : Throwable} (content : Content) (h : f.opens d = .error e) :
    (f.write content).run d = (.error e, d) := by
  rw [write, Eff.run_get_bind, h]
  rfl

/-- **A file that can be opened** is created or left as it is, and opened
where it was going to be. -/
theorem exists_run_createNewFile (hd : d.WellFormed) (hopens : f.opens d = .ok p) :
    ∃ d', f.createNewFile.run d = (.ok ⟨⟩, d') ∧ f.opens d' = .ok p ∧
      ∀ item, d'.put p item = d.put p item := by
  cases hthere : f.fileExists d with
  | true => exact ⟨d, run_createNewFile_of_exists hthere, hopens, fun _ => rfl⟩
  | false =>
      obtain ⟨hlocate, -, hfree⟩ := of_opens hd hopens
      refine ⟨_, run_createNewFile hthere hopens, ?_, Disk.put_put d p _⟩
      rw [opens, Disk.locate_put_file hfree, hlocate]
      dsimp only
      rw [Disk.put_self]

/-- One that cannot be opened is not opened after `createNewFile` either. -/
theorem run_createNewFile_bind_of_error {α : Type} {e : Throwable} {x : DiskEff α}
    (hopens : f.opens d = .error e) (hx : x.run d = (.error e, d)) :
    (f.createNewFile >>= fun _ => x).run d = (.error e, d) := by
  cases hthere : f.fileExists d with
  | true => rw [Eff.run_bind_of_ok (run_createNewFile_of_exists hthere), hx]
  | false => rw [Eff.run_bind_of_error (run_createNewFile_of_error hthere hopens)]

/-- **A file that is created first is written all the same.** -/
theorem run_createNewFile_write (hd : d.WellFormed) (f : TargetFile) (content : Content) :
    (f.createNewFile >>= fun _ => f.write content).run d = (f.write content).run d := by
  cases hopens : f.opens d with
  | error e =>
      rw [run_write_of_error content hopens]
      exact run_createNewFile_bind_of_error hopens (run_write_of_error content hopens)
  | ok p =>
      obtain ⟨d', hcreate, hagain, hput⟩ := exists_run_createNewFile hd hopens
      rw [Eff.run_bind_of_ok hcreate, run_write content hagain, run_write content hopens, hput]

/-- **A write changes what is opened**, and nothing else. -/
theorem snd_run_write_cases (f : TargetFile) (content : Content) (d : Disk) (q : List Text) :
    f.opens d = .ok q ∧ ((f.write content).run d).2 q = some (.file content) ∨
      f.opens d ≠ .ok q ∧ ((f.write content).run d).2 q = d q := by
  cases hopens : f.opens d with
  | error e =>
      rw [run_write_of_error content hopens]
      exact .inr ⟨by simp, rfl⟩
  | ok p =>
      rw [run_write content hopens]
      by_cases hq : q = p
      · subst hq
        exact .inl ⟨rfl, Disk.put_self _ _ _⟩
      · exact .inr ⟨fun h => hq (Except.ok.inj h).symm, Disk.put_of_ne _ _ hq⟩

/-- It returns only when the file was opened. -/
theorem opens_of_run_write (hd : d.WellFormed) {d' : Disk}
    (h : (f.write content).run d = (.ok ⟨⟩, d')) : f.opens d = .ok f.getCanonicalFile := by
  cases hopens : f.opens d with
  | error e =>
      rw [run_write_of_error content hopens] at h
      exact absurd h (by simp)
  | ok p => rw [eq_getCanonicalFile_of_opens hd hopens]

end TargetFile

end Zooffice
