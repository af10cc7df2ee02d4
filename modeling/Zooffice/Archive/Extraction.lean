import Zooffice.Archive.Disk
/-!
# One step of an extraction

A step of an extraction makes a directory, or writes a regular file whose
parent it may make first. What it touches is then at or below a directory
exactly when the directories it has to make are, and what it can open is
(`staysInside_iff`).
-/


namespace Zooffice

open Zooffice.Path

/-- A computation that is to write the file, if one is given, creates or
writes the location: what is there has changed, or the computation returns
and the names of the file lead there. -/
def Touches (x : DiskEff PUnit) (file : Option TargetFile) (d : Disk) (p : List Text) : Prop :=
  (x.run d).2 p ≠ d p ∨
    ∃ f d', file = some f ∧ x.run d = (.ok ⟨⟩, d') ∧ p = f.getCanonicalFile

/-- What a step of an extraction is to do. -/
inductive Extraction where
  | nothing
  | makeDirectory (f : TargetFile)
  | writeFile (parent : Option TargetFile) (f : TargetFile) (content : Content)

namespace Extraction

/-- Make the parent, if there is one to make. -/
def makeParent : Option TargetFile → DiskEff PUnit
  | none => pure ⟨⟩
  | some g => do
      let _ ← g.mkdirs
      return ⟨⟩

/-- Do it. -/
def run : Extraction → DiskEff PUnit
  | nothing => pure ⟨⟩
  | makeDirectory f => do
      let _ ← f.mkdirs
      return ⟨⟩
  | writeFile parent f content => do
      makeParent parent
      f.write content

/-- The regular file that is written. -/
def file : Extraction → Option TargetFile
  | writeFile _ f _ => some f
  | _ => none

/-- The directories that are to be made are at or below `dest`, and so is
what can be opened to be written. -/
def StaysInside (dest : List Text) (d : Disk) : Extraction → Prop
  | nothing => True
  | makeDirectory f => ∀ p, f.Makes d p → dest <+: p
  | writeFile parent f _ =>
      (∀ g, parent = some g → ∀ p, g.Makes d p → dest <+: p) ∧ ∀ p, f.opens d = .ok p → dest <+: p

/-- The names are made of file names once `.` and `..` are taken, the
directory being `dest`, and a parent is that of the file. -/
def Legal (dest : List Text) : Extraction → Prop
  | nothing => True
  | makeDirectory f => ∀ n ∈ f.getCanonicalFile, Proper '/' '.' n
  | writeFile parent f _ => f.directory = dest ∧ ∀ g, parent = some g →
      f.getParentFile = some g ∧ ∀ n ∈ g.getCanonicalFile, Proper '/' '.' n

variable {dest : List Text} {d d' : Disk} {e : Extraction} {f g : TargetFile} {p : List Text}
variable {parent : Option TargetFile} {content : Content}

/-! ## Making the parent -/

/-- What `makeParent` leaves: every directory that the parent was missing,
and the rest as it was. -/
theorem run_makeParent (hd : d.WellFormed)
    (hlegal : ∀ g, parent = some g → ∀ n ∈ g.getCanonicalFile, Proper '/' '.' n) :
    ∃ d', (makeParent parent).run d = (.ok ⟨⟩, d') ∧ d'.WellFormed ∧
      (∀ g, parent = some g → ∀ q, g.Makes d q → d' q = some .directory) ∧
      ∀ q, (∀ g, parent = some g → ¬g.Makes d q) → d' q = d q := by
  cases parent with
  | none => exact ⟨d, rfl, hd, by simp, fun _ _ => rfl⟩
  | some g =>
      obtain ⟨b, d', hrun, hd', hmade, hframe⟩ := TargetFile.run_mkdirs hd (hlegal g rfl)
      refine ⟨d', ?_, hd', ?_, fun q hq => hframe q (hq g rfl)⟩
      · rw [makeParent, Eff.run_bind_of_ok hrun]
        rfl
      · rintro _ ⟨rfl⟩ q hq
        exact hmade q hq

/-- **A parent that is there is left alone.** -/
theorem run_makeParent_of_opens (hd : d.WellFormed)
    (hlegal : (writeFile parent f content).Legal dest) (hopens : f.opens d = .ok p) :
    (makeParent parent).run d = (.ok ⟨⟩, d) := by
  obtain ⟨d', hrun, -, -, hframe⟩ := run_makeParent hd fun g hg => (hlegal.2 g hg).2
  obtain rfl : d' = d := by
    funext q
    refine hframe q fun g hg hmakes => ?_
    have hthere := TargetFile.parent_exists_of_opens hd hopens (hlegal.2 g hg).1
    rw [hmakes.missing] at hthere
    exact absurd hthere (by simp)
  exact hrun

/-- **A file can be opened below `dest` only**, once the parent is made,
when the parent had to make directories there only. Its last name is then
a proper one, and the last directory made is its parent. -/
theorem isPrefix_of_opens_makeParent (hd : d.WellFormed)
    (hlegal : (writeFile parent f content).Legal dest)
    (hinside : (writeFile parent f content).StaysInside dest d)
    (hrun : (makeParent parent).run d = (.ok ⟨⟩, d')) (hd' : d'.WellFormed)
    (hopens : f.opens d' = .ok p) : dest <+: p := by
  obtain ⟨d₁, hrun₁, -, hmade, hframe⟩ := run_makeParent hd fun g hg => (hlegal.2 g hg).2
  obtain rfl : d' = d₁ := by
    rw [hrun, Prod.mk.injEq] at hrun₁
    exact hrun₁.2
  by_cases hmakes : ∃ g q, parent = some g ∧ g.Makes d q
  · obtain ⟨g, r, rfl, hr⟩ := hmakes
    obtain ⟨hparent, -⟩ := hlegal.2 g rfl
    rcases TargetFile.cases_of_opens hd' hopens with ⟨-, rfl⟩ | ⟨ns, n, q, hnames, hq, hdir, rfl⟩
    · -- the file would be the directory itself
      rw [hlegal.1]
    · rw [TargetFile.getParentFile_concat hnames] at hparent
      obtain rfl := Option.some.inj hparent
      obtain rfl : q = resolve '.' f.directory ns := Disk.eq_resolve_of_locate hq
      -- the parent was missing, as the directory made above it was
      have hnone : d (resolve '.' f.directory ns) = none := by
        refine Classical.byContradiction fun hq0 => ?_
        exact hd.ne_none_of_prefix hq0 hr.above hr.none
      have hbelow : dest <+: resolve '.' f.directory ns :=
        hinside.1 _ rfl _ ⟨hr.missing, hr.free, List.prefix_rfl, hnone⟩
      exact hbelow.trans (hd'.isPrefix_enter hdir (TargetFile.of_opens hd' hopens).2.2)
  · -- nothing was made
    obtain rfl : d' = d := by
      funext q
      exact hframe q fun g hg h => hmakes ⟨g, q, hg, h⟩
    exact hinside.2 p hopens

/-! ## What a step touches -/

theorem run_makeDirectory {b : Bool} (h : f.mkdirs.run d = (.ok b, d')) :
    (makeDirectory f).run.run d = (.ok ⟨⟩, d') := by
  rw [run, Eff.run_bind_of_ok h]
  rfl

/-- **A step leaves the disk well formed**, whether it returns or throws. -/
theorem wellFormed_of_run (hd : d.WellFormed) (hlegal : e.Legal dest) :
    (e.run.run d).2.WellFormed := by
  cases e with
  | nothing => exact hd
  | makeDirectory f =>
      obtain ⟨b, d', hrun, hd', -⟩ := TargetFile.run_mkdirs hd hlegal
      rw [run_makeDirectory hrun]
      exact hd'
  | writeFile parent f content =>
      obtain ⟨d', hrun, hd', -⟩ := run_makeParent hd fun g hg => (hlegal.2 g hg).2
      rw [run, Eff.run_bind_of_ok hrun]
      cases hopens : f.opens d' with
      | error err =>
          rw [TargetFile.run_write_of_error content hopens]
          exact hd'
      | ok p =>
          obtain ⟨-, hparent, hfree⟩ := TargetFile.of_opens hd' hopens
          rw [TargetFile.run_write content hopens]
          exact hd'.put_file hparent hfree content

/-- Making a directory touches what is missing on the way to it. -/
theorem touches_makeDirectory (hd : d.WellFormed) (hlegal : (makeDirectory f).Legal dest) :
    Touches (makeDirectory f).run none d p ↔ f.Makes d p := by
  obtain ⟨b, d', hrun, -, hmade, hframe⟩ := TargetFile.run_mkdirs hd hlegal
  rw [Touches, run_makeDirectory hrun]
  constructor
  · rintro (h | ⟨f, d', hfile, -⟩)
    · exact Classical.byContradiction fun hp => h (hframe p hp)
    · exact absurd hfile (by simp)
  · intro hp
    refine .inl fun heq => ?_
    rw [hp.none] at heq
    exact absurd ((hmade p hp).symm.trans heq) (by simp)

/-- Writing a file touches what its parent is missing: a directory that was
made is not taken away again. -/
theorem touches_of_makes (hd : d.WellFormed) (hlegal : (writeFile parent f content).Legal dest)
    (hg : parent = some g) (hp : g.Makes d p) :
    Touches (writeFile parent f content).run (some f) d p := by
  obtain ⟨d', hrun, -, hmade, -⟩ := run_makeParent hd fun g hg => (hlegal.2 g hg).2
  refine .inl ?_
  rw [run, Eff.run_bind_of_ok hrun, hp.none]
  rcases TargetFile.snd_run_write_cases f content d' p with ⟨-, hp'⟩ | ⟨-, hp'⟩
  · rw [hp']
    simp
  · rw [hp', hmade g hg p hp]
    simp

/-- It touches what can be opened, the parent of that being there. -/
theorem touches_of_opens (hd : d.WellFormed) (hlegal : (writeFile parent f content).Legal dest)
    (hp : f.opens d = .ok p) : Touches (writeFile parent f content).run (some f) d p := by
  refine .inr ⟨f, d.put p (.file content), rfl, ?_, TargetFile.eq_getCanonicalFile_of_opens hd hp⟩
  rw [run, Eff.run_bind_of_ok (run_makeParent_of_opens hd hlegal hp),
    TargetFile.run_write content hp]

/-- **And nothing outside**, when it stays inside. -/
theorem isPrefix_of_touches_writeFile (hd : d.WellFormed)
    (hlegal : (writeFile parent f content).Legal dest)
    (hinside : (writeFile parent f content).StaysInside dest d)
    (h : Touches (writeFile parent f content).run (some f) d p) : dest <+: p := by
  obtain ⟨d', hrun, hd', -, hframe⟩ := run_makeParent hd fun g hg => (hlegal.2 g hg).2
  have hopened : f.opens d' = .ok p → dest <+: p :=
    isPrefix_of_opens_makeParent hd hlegal hinside hrun hd'
  rw [Touches, run, Eff.run_bind_of_ok hrun] at h
  rcases h with h | ⟨_, d'', ⟨rfl⟩, hwritten, rfl⟩
  · rcases TargetFile.snd_run_write_cases f content d' p with ⟨hp, -⟩ | ⟨-, hp⟩
    · exact hopened hp
    · -- the parent was made there
      rw [hp] at h
      refine Classical.byContradiction fun hout => h (hframe p fun g hg hmakes => ?_)
      exact hout (hinside.1 g hg p hmakes)
  · exact hopened (TargetFile.opens_of_run_write hd' hwritten)

/-- **What a step touches is at or below `dest` exactly when the step stays
inside.** -/
theorem staysInside_iff (hd : d.WellFormed) (hlegal : e.Legal dest) :
    (∀ p, Touches e.run e.file d p → dest <+: p) ↔ e.StaysInside dest d := by
  cases e with
  | nothing =>
      refine iff_of_true ?_ trivial
      rintro p (h | ⟨f, d', hfile, -⟩)
      · exact absurd rfl h
      · exact absurd hfile (by simp [file])
  | makeDirectory f =>
      exact forall_congr' fun p => imp_congr_left (touches_makeDirectory hd hlegal)
  | writeFile parent f content =>
      constructor
      · intro h
        exact ⟨fun g hg p hp => h p (touches_of_makes hd hlegal hg hp),
          fun p hp => h p (touches_of_opens hd hlegal hp)⟩
      · exact fun hinside p h => isPrefix_of_touches_writeFile hd hlegal hinside h

/-! ## Names that lead inside -/

/-- What is to be made or written. -/
def target : Extraction → Option TargetFile
  | nothing => none
  | makeDirectory f => some f
  | writeFile _ f _ => some f

/-- A way that leads to `dest` or below by its last name stays above `dest`
or below it. -/
theorem isPrefix_or_isPrefix_of_enter {q : List Text} {n : Text} (h : dest <+: enter '.' q n)
    (hp : p <+: q) : p <+: dest ∨ dest <+: p := by
  unfold enter at h
  split at h
  · exact List.prefix_or_prefix_of_prefix hp h
  · split at h
    · exact List.prefix_or_prefix_of_prefix hp (h.trans (List.dropLast_prefix q))
    · exact List.prefix_or_prefix_of_prefix (hp.trans (List.prefix_append q [n])) h

/-- **With the parent of `dest` there, names that lead to `dest` or below it
are enough.** -/
theorem staysInside_of_target (hd : d.WellFormed) (hparent : d dest.dropLast = some .directory)
    (hlegal : e.Legal dest) (h : ∀ f, e.target = some f → dest <+: f.getCanonicalFile) :
    e.StaysInside dest d := by
  -- nothing is missing above `dest`
  have hbelow : ∀ {p}, d p = none → p <+: dest ∨ dest <+: p → dest <+: p := by
    intro p hnone hp
    refine hp.elim (fun hle => ?_) id
    rcases List.eq_nil_or_concat' dest with hroot | ⟨above, n, hdest⟩
    · exact hroot ▸ List.nil_prefix
    · rw [hdest, List.dropLast_concat] at hparent
      rw [hdest] at hle ⊢
      rcases List.prefix_concat_iff.1 hle with rfl | hle
      · exact List.prefix_rfl
      · rw [hd.directory_of_prefix_directory hparent hle] at hnone
        exact absurd hnone (by simp)
  cases e with
  | nothing => trivial
  | makeDirectory f =>
      intro p hp
      exact hbelow hp.none (List.prefix_or_prefix_of_prefix hp.above (h f rfl))
  | writeFile parent f content =>
      have hf := h f rfl
      refine ⟨fun g hg p hp => hbelow hp.none ?_, fun p hp => ?_⟩
      · obtain ⟨hparentFile, -⟩ := hlegal.2 g hg
        have habove := hp.above
        rcases List.eq_nil_or_concat' f.names with hnames | ⟨ns, n, hnames⟩
        · -- the file would be `dest` itself
          rw [TargetFile.getParentFile, if_neg (by simp [hnames])] at hparentFile
          split at hparentFile
          · obtain rfl := Option.some.inj hparentFile
            rw [← hlegal.1]
            exact .inl (habove.trans (List.dropLast_prefix _))
          · exact absurd hparentFile (by simp)
        · -- the file has one name more than its parent
          rw [TargetFile.getParentFile_concat hnames] at hparentFile
          obtain rfl := Option.some.inj hparentFile
          rw [TargetFile.getCanonicalFile, hnames, resolve_append, resolve_cons, resolve_nil] at hf
          exact isPrefix_or_isPrefix_of_enter hf habove
      · rw [TargetFile.eq_getCanonicalFile_of_opens hd hp]
        exact hf

/-- A step takes no directory away. -/
theorem directory_of_run (hd : d.WellFormed) (hlegal : e.Legal dest) {q : List Text}
    (hq : d q = some .directory) : (e.run.run d).2 q = some .directory := by
  have hmakes : ∀ g : TargetFile, ¬g.Makes d q := by
    intro g h
    rw [h.none] at hq
    exact absurd hq (by simp)
  cases e with
  | nothing => exact hq
  | makeDirectory f =>
      obtain ⟨b, d', hrun, -, -, hframe⟩ := TargetFile.run_mkdirs hd hlegal
      rw [run_makeDirectory hrun]
      exact (hframe q (hmakes f)).trans hq
  | writeFile parent f content =>
      obtain ⟨d', hrun, hd', -, hframe⟩ := run_makeParent hd fun g hg => (hlegal.2 g hg).2
      have hq' : d' q = some .directory := (hframe q fun g _ => hmakes g).trans hq
      rw [run, Eff.run_bind_of_ok hrun]
      rcases TargetFile.snd_run_write_cases f content d' q with ⟨hopens, -⟩ | ⟨-, hkept⟩
      · exact absurd hq' (TargetFile.of_opens hd' hopens).2.2
      · exact hkept.trans hq'

end Extraction

end Zooffice
