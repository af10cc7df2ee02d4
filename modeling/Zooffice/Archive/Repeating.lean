import Zooffice.Archive.Containment
import Zooffice.Archive.RoundTrip
/-!
# Extracting an archive again

A step of an extraction takes nothing away: directories stay directories,
and files stay files (`Grows`). What it has to make is therefore there
when the extraction runs again, and the files are written over in the same
order. In between, each location has what the first run had there at that
point, or what it left in the end (`Follows`).
-/


namespace Zooffice

open Zooffice.Path

namespace Disk

/-- What is there is there afterwards, as the same kind of thing. -/
structure Grows (d d' : Disk) : Prop where
  directory : ∀ p, d p = some .directory → d' p = some .directory
  file : ∀ p content, d p = some (.file content) → ∃ content', d' p = some (.file content')

namespace Grows

variable {d d' d'' : Disk} {p location ns : List Text}

theorem refl (d : Disk) : Grows d d := ⟨fun _ h => h, fun _ content h => ⟨content, h⟩⟩

theorem trans (h : Grows d d') (h' : Grows d' d'') : Grows d d'' :=
  ⟨fun p hp => h'.directory p (h.directory p hp), fun p content hp => by
    obtain ⟨content', hp'⟩ := h.file p content hp
    exact h'.file p content' hp'⟩

theorem ne_none (h : Grows d d') (hp : d p ≠ none) : d' p ≠ none := by
  obtain ⟨item, hitem⟩ := Option.ne_none_iff_exists'.1 hp
  cases item with
  | directory =>
      rw [h.directory p hitem]
      simp
  | file content =>
      obtain ⟨content', hp'⟩ := h.file p content hitem
      rw [hp']
      simp

/-- A path that could be followed can still be. -/
theorem locate (h : Grows d d') (hp : d.locate location ns = some p) :
    d'.locate location ns = some p := by
  induction ns generalizing location with
  | nil => exact hp
  | cons n ns ih =>
      rw [Disk.locate] at hp ⊢
      split at hp
      · next hdir =>
          rw [if_pos (h.directory _ hdir)]
          exact ih hp
      · cases hp

/-- Directories that are only made where nothing was. -/
theorem of_made (h : ∀ p, d' p = d p ∨ d p = none) : Grows d d' :=
  ⟨fun p hp => ((h p).resolve_right (by rw [hp]; simp)).trans hp,
    fun p content hp => ⟨content, ((h p).resolve_right (by rw [hp]; simp)).trans hp⟩⟩

/-- A file that is put where no directory is. -/
theorem put_file (hp : d p ≠ some .directory) (content : Content) :
    Grows d (d.put p (.file content)) := by
  refine ⟨fun q hq => ?_, fun q content' hq => ?_⟩
  · rwa [put_of_ne _ _ fun heq : q = p => hp (heq ▸ hq)]
  · by_cases heq : q = p
    · rw [heq, put_self]
      exact ⟨content, rfl⟩
    · rw [put_of_ne _ _ heq]
      exact ⟨content', hq⟩

/-- **What is missing was missing before.** -/
theorem makes {f : TargetFile} (h : Grows d d') (hp : f.Makes d' p) : f.Makes d p := by
  refine ⟨Bool.eq_false_iff.2 fun hthere => ?_, fun q hq content hfile => ?_, hp.above, ?_⟩
  · obtain ⟨q, hq, hq0⟩ := TargetFile.fileExists_eq_true.1 hthere
    have hthere' := TargetFile.fileExists_eq_true.2 ⟨q, h.locate hq, h.ne_none hq0⟩
    rw [hp.missing] at hthere'
    cases hthere'
  · obtain ⟨content', hfile'⟩ := h.file q content hfile
    exact hp.free q hq content' hfile'
  · by_contra hne
    exact h.ne_none hne hp.none

end Grows

end Disk

open Disk (Grows)

namespace Extraction

variable {dest : List Text} {d d' d₁ e D : Disk} {x : Extraction} {f : TargetFile}
  {parent : Option TargetFile} {p : List Text}

/-- The directories that a parent is missing are made, and none is missing
afterwards. -/
theorem exists_run_makeParent (hd : d.WellFormed)
    (hlegal : ∀ g, parent = some g → ∀ n ∈ g.getCanonicalFile, Proper '/' '.' n) :
    ∃ d', (makeParent parent).run d = (.ok ⟨⟩, d') ∧ d'.WellFormed ∧
      (∀ p, d' p = d p ∨ d p = none) ∧ ∀ g, parent = some g → ∀ p, ¬g.Makes d' p := by
  obtain ⟨d', hrun, hd', hmade, hkept⟩ := run_makeParent hd hlegal
  have hcases : ∀ p, d' p = d p ∨ d p = none := by
    intro p
    by_cases hmakes : ∃ g, parent = some g ∧ g.Makes d p
    · obtain ⟨g, -, hp⟩ := hmakes
      exact .inr hp.none
    · exact .inl (hkept p fun g hg hp => hmakes ⟨g, hg, hp⟩)
  refine ⟨d', hrun, hd', hcases, fun g hg p hp => ?_⟩
  have hbefore := (Grows.of_made hcases).makes hp
  exact absurd (hp.none.symm.trans (hmade g hg p hbefore)) (by simp)

/-- A parent that is missing nothing is left alone. -/
theorem run_makeParent_of_not_makes (hd : d.WellFormed)
    (hlegal : ∀ g, parent = some g → ∀ n ∈ g.getCanonicalFile, Proper '/' '.' n)
    (h : ∀ g, parent = some g → ∀ p, ¬g.Makes d p) : (makeParent parent).run d = (.ok ⟨⟩, d) := by
  obtain ⟨d', hrun, -, -, hkept⟩ := run_makeParent hd hlegal
  obtain rfl : d' = d := funext fun p => hkept p fun g hg => h g hg p
  exact hrun

/-- **A step takes nothing away.** -/
theorem grows_run (hd : d.WellFormed) (hlegal : x.Legal dest) : Grows d (x.run.run d).2 := by
  refine ⟨fun p hp => directory_of_run hd hlegal hp, fun p content hp => ?_⟩
  cases x with
  | nothing => exact ⟨content, hp⟩
  | makeDirectory f =>
      obtain ⟨b, d', hrun, -, -, hkept⟩ := TargetFile.run_mkdirs hd hlegal
      rw [run_makeDirectory hrun]
      exact ⟨content, (hkept p fun h => absurd (h.none.symm.trans hp) (by simp)).trans hp⟩
  | writeFile parent f content' =>
      obtain ⟨d', hrun, -, hcases, -⟩ := exists_run_makeParent hd fun g hg => (hlegal.2 g hg).2
      have hp' : d' p = some (.file content) :=
        ((hcases p).resolve_right (by rw [hp]; simp)).trans hp
      rw [run, Eff.run_bind_of_ok hrun]
      rcases TargetFile.snd_run_write_cases f content' d' p with ⟨-, hwritten⟩ | ⟨-, hkept⟩
      · exact ⟨content', hwritten⟩
      · exact ⟨content, hkept.trans hp'⟩

/-! ## The second run -/

/-- The disk `e` of a second run, when the first has come to `d` and ends
in `D`. -/
structure Follows (d D e : Disk) : Prop where
  wellFormed : e.WellFormed
  grows : Grows D e
  shrinks : Grows e D
  agrees : ∀ p, e p = d p ∨ e p = D p

/-- What the first run makes is there already. -/
theorem Follows.agrees_of_made (he : Follows d D e) (hD : Grows d₁ D)
    (hmade : ∀ p, d₁ p = d p ∨ d p = none) (p : List Text) : e p = d₁ p ∨ e p = D p := by
  refine (he.agrees p).imp_left fun hp => ?_
  rcases hmade p with hsame | hnone
  · exact hp.trans hsame.symm
  · -- nothing was there before, and nothing is
    rw [hp, hnone]
    by_contra hne
    exact (hD.trans he.grows).ne_none (Ne.symm hne) (hp.trans hnone)

/-- **A step that has returned returns again**, and the second run follows
the first. -/
theorem Follows.step (he : Follows d D e) (hd : d.WellFormed) (hlegal : x.Legal dest)
    (hrun : x.run.run d = (.ok ⟨⟩, d₁)) (hD : Grows d₁ D) :
    ∃ e₁, x.run.run e = (.ok ⟨⟩, e₁) ∧ Follows d₁ D e₁ := by
  cases x with
  | nothing =>
      obtain rfl : d = d₁ := (Prod.ext_iff.1 hrun).2
      exact ⟨e, rfl, he⟩
  | makeDirectory f =>
      have hparent : ∀ g, some f = some g → ∀ n ∈ g.getCanonicalFile, Proper '/' '.' n := by
        rintro _ ⟨rfl⟩
        exact hlegal
      obtain ⟨d', hmake, -, hmade, hnone⟩ := exists_run_makeParent hd hparent
      obtain rfl : d' = d₁ := (Prod.ext_iff.1 (hmake.symm.trans hrun)).2
      refine ⟨e, run_makeParent_of_not_makes he.wellFormed hparent fun g hg p hp => ?_,
        he.wellFormed, he.grows, he.shrinks, he.agrees_of_made hD hmade⟩
      exact hnone g hg p ((hD.trans he.grows).makes hp)
  | writeFile parent f content =>
      have hparent : ∀ g, parent = some g → ∀ n ∈ g.getCanonicalFile, Proper '/' '.' n :=
        fun g hg => (hlegal.2 g hg).2
      obtain ⟨d', hmake, hd', hmade, hnone⟩ := exists_run_makeParent hd hparent
      rw [run, Eff.run_bind_of_ok hmake] at hrun
      have hopens := TargetFile.opens_of_run_write hd' hrun
      obtain ⟨hlocate, habove, hfree⟩ := TargetFile.of_opens hd' hopens
      obtain rfl : d'.put f.getCanonicalFile (.file content) = d₁ :=
        (Prod.ext_iff.1 ((TargetFile.run_write content hopens).symm.trans hrun)).2
      have hD' : Grows d' D := (Grows.put_file hfree content).trans hD
      have hE : Grows d' e := hD'.trans he.grows
      -- there is a file where the first run has written one
      obtain ⟨content', hfile⟩ := (hD.trans he.grows).file _ content (Disk.put_self d' _ _)
      have hopens' : f.opens e = .ok f.getCanonicalFile :=
        TargetFile.opens_of_locate (hE.locate hlocate) (hE.directory _ habove) (by rw [hfile]; simp)
      obtain ⟨contentD, hfileD⟩ := he.shrinks.file _ content' hfile
      refine ⟨e.put f.getCanonicalFile (.file content), ?_, ?_, ?_, ?_, fun p => ?_⟩
      · rw [run, Eff.run_bind_of_ok (run_makeParent_of_not_makes he.wellFormed hparent
          fun g hg p hp => hnone g hg p (hE.makes hp))]
        exact TargetFile.run_write content hopens'
      · exact he.wellFormed.put_file (hE.directory _ habove) (by rw [hfile]; simp) content
      · exact he.grows.trans (Grows.put_file (by rw [hfile]; simp) content)
      · refine ⟨fun p hp => ?_, fun p content'' hp => ?_⟩
        · rw [Disk.put_of_ne _ _ fun heq => by rw [heq, Disk.put_self] at hp; cases hp] at hp
          exact he.shrinks.directory p hp
        · by_cases heq : p = f.getCanonicalFile
          · exact ⟨contentD, heq ▸ hfileD⟩
          · rw [Disk.put_of_ne _ _ heq] at hp
            exact he.shrinks.file p content'' hp
      · by_cases heq : p = f.getCanonicalFile
        · rw [heq, Disk.put_self, Disk.put_self]
          exact .inl rfl
        · rw [Disk.put_of_ne _ _ heq, Disk.put_of_ne _ _ heq]
          exact he.agrees_of_made hD' hmade p

end Extraction

namespace CompressionUtil

open Extraction

variable {dest : List Text} {d d' d₁ e D : Disk} {s : ExtractStep} {ss : List ExtractStep}

/-! ## Steps of `unzip` and `unjar` -/

/-- A step of `unzip` or `unjar`. `untar` throws where a directory is there
under another path. -/
def Repeats : ExtractStep → Prop
  | .untarEntry _ => False
  | _ => True

/-- A step that gets past its name is what it does. -/
theorem run_runStep (hd : d.WellFormed) (hs : Repeats s) (hdestination : s ≠ .unjarDestination)
    (hname : ∀ entry, s = .unjarEntry entry → ∃ fileName, unjarFileName entry.name = .ok fileName) :
    (runStep dest s).run d = (extractionOf dest s).run.run d := by
  cases s with
  | unzipEntry entry =>
      unfold runStep extractionOf unzipEntry
      dsimp only
      split
      · rfl
      · exact TargetFile.run_createNewFile_write hd _ _
  | untarEntry entry => exact hs.elim
  | unjarDestination => exact absurd rfl hdestination
  | unjarEntry entry =>
      obtain ⟨fileName, hname⟩ := hname entry rfl
      rw [runStep, extractionOf, unjarEntry, hname, Eff.run_ofExcept_bind]
      dsimp only
      split
      · rfl
      · exact run_unjarFile _ _ d
  | unjarManifest mf =>
      have hparent : (targetOf dest manifestName).getParentFile =
          some ⟨dest, (names '/' manifestName).dropLast⟩ :=
        if_pos (by decide : names '/' manifestName ≠ [])
      have h := does_fileWithParent (targetOf dest manifestName) mf d
      rw [Does, fileWithParent, hparent] at h
      rw [runStep, extractionOf, fileWithParent, hparent]
      exact h.resolve_right fun h => absurd h.1 (by simp [Extraction.file])

/-- The destination of `unjar` is a directory afterwards. -/
theorem run_unjarDestination_eq_ok :
    (unjarDestination dest).run d = (.ok ⟨⟩, d') ↔
      (makeDirectory ⟨dest, []⟩).run.run d = (.ok ⟨⟩, d') ∧ d' dest = some .directory := by
  have hmake : (mkdirsIfMissing ⟨dest, []⟩).run d = (makeDirectory ⟨dest, []⟩).run.run d :=
    run_mkdirsIfMissing _ d
  rw [unjarDestination, Eff.run_bind, hmake]
  rcases (makeDirectory ⟨dest, []⟩).run.run d with ⟨e | _, d₂⟩
  · simp
  · have hdirectory : TargetFile.isDirectory ⟨dest, []⟩ d₂ = true ↔ d₂ dest = some .directory :=
      decide_eq_true_iff
    dsimp only
    rw [Eff.run_get_bind]
    by_cases hdir : d₂ dest = some .directory
    · rw [if_pos (hdirectory.2 hdir)]
      constructor
      · intro h
        obtain rfl : d₂ = d' := (Prod.ext_iff.1 h).2
        exact ⟨h, hdir⟩
      · exact And.left
    · rw [if_neg fun h => hdir (hdirectory.1 h)]
      constructor
      · intro h
        exact absurd (Prod.ext_iff.1 h).1 (by simp [Eff.run_throw])
      · rintro ⟨h, hdir'⟩
        obtain rfl : d₂ = d' := (Prod.ext_iff.1 h).2
        exact absurd hdir' hdir

/-- **A step that has returned returns again.** -/
theorem run_runStep_again (hdest : ∀ n ∈ dest, FileName n) (hs : Repeats s) (he : Follows d D e)
    (hd : d.WellFormed) (hrun : (runStep dest s).run d = (.ok ⟨⟩, d₁)) (hD : Grows d₁ D) :
    ∃ e₁, (runStep dest s).run e = (.ok ⟨⟩, e₁) ∧ Follows d₁ D e₁ := by
  have hlegal := legal_extractionOf hdest s
  by_cases hdestination : s = .unjarDestination
  · subst hdestination
    obtain ⟨hmake, hdir⟩ := run_unjarDestination_eq_ok.1 hrun
    obtain ⟨e₁, hrun', he₁⟩ := he.step hd hlegal hmake hD
    exact ⟨e₁, run_unjarDestination_eq_ok.2
      ⟨hrun', he₁.grows.directory _ (hD.directory _ hdir)⟩, he₁⟩
  · have hname : ∀ entry, s = .unjarEntry entry →
        ∃ fileName, unjarFileName entry.name = .ok fileName := by
      rintro entry rfl
      obtain ⟨fileName, hname, -⟩ := Eff.run_ofExcept_bind_eq_ok.1 hrun
      exact ⟨fileName, hname⟩
    rw [run_runStep hd hs hdestination hname] at hrun
    rw [run_runStep he.wellFormed hs hdestination hname]
    exact he.step hd hlegal hrun hD

/-- What the steps leave has grown. -/
theorem grows_forEach (hdest : ∀ n ∈ dest, FileName n) (hd : d.WellFormed)
    (hrun : (Eff.forEach (runStep dest) ss).run d = (.ok ⟨⟩, D)) : D.WellFormed ∧ Grows d D := by
  induction ss generalizing d with
  | nil =>
      obtain rfl := (Prod.ext_iff.1 hrun).2
      exact ⟨hd, Grows.refl _⟩
  | cons s ss ih =>
      obtain ⟨_, d₁, hfirst, hrest⟩ := Eff.run_bind_eq_ok.1 hrun
      have hnext : Eff.next (runStep dest) d s = some d₁ := Eff.next_eq_some.2 hfirst
      have hgrows : Grows d d₁ := by
        rw [← snd_run_of_next hd hnext]
        exact grows_run hd (legal_extractionOf hdest s)
      obtain ⟨hD, hlater⟩ := ih (wellFormed_of_next hdest hd hnext) hrest
      exact ⟨hD, hgrows.trans hlater⟩

/-- **Steps that have returned return again**, and leave what they have
left. The induction is on the steps, for any disk that follows. -/
theorem run_forEach_again (hdest : ∀ n ∈ dest, FileName n) (hs : ∀ s ∈ ss, Repeats s)
    (hd : d.WellFormed) (he : Follows d D e)
    (hrun : (Eff.forEach (runStep dest) ss).run d = (.ok ⟨⟩, D)) :
    (Eff.forEach (runStep dest) ss).run e = (.ok ⟨⟩, D) := by
  induction ss generalizing d e with
  | nil =>
      obtain rfl := (Prod.ext_iff.1 hrun).2
      obtain rfl : e = d := funext fun p => (he.agrees p).elim id id
      rfl
  | cons s ss ih =>
      obtain ⟨_, d₁, hfirst, hrest⟩ := Eff.run_bind_eq_ok.1 hrun
      have hd₁ := wellFormed_of_next hdest hd (Eff.next_eq_some.2 hfirst)
      obtain ⟨e₁, hagain, he₁⟩ := run_runStep_again hdest (hs s List.mem_cons_self) he hd hfirst
        (grows_forEach hdest hd₁ hrest).2
      rw [Eff.forEach, Eff.run_bind_of_ok hagain]
      exact ih (fun s hs' => hs s (List.mem_cons_of_mem _ hs')) hd₁ he₁ hrest

/-! ## The result -/

/-- An extraction returns when its steps do. -/
theorem run_unzip_eq_ok_iff (entries : List ZipEntry) :
    (unzip entries dest).run d = (.ok ⟨⟩, d') ↔
      (Eff.forEach (runStep dest) (steps (.zip entries))).run d = (.ok ⟨⟩, d') := by
  rw [run_unzip_eq_ok, unzipLoop_eq]
  rfl

theorem run_unjar_eq_ok_iff (jar : JarArchive) :
    (unjar jar dest).run d = (.ok ⟨⟩, d') ↔
      (Eff.forEach (runStep dest) (steps (.jar jar))).run d = (.ok ⟨⟩, d') := by
  rw [unjar, steps, Eff.forEach, Eff.run_bind, Eff.run_bind, runStep]
  rcases (unjarDestination dest).run d with ⟨e | _, d₁⟩
  · rfl
  · dsimp only
    rw [Eff.forEach_append, ← unjarLoop_eq, Eff.run_bind, Eff.run_bind]
    rcases (unjarLoop dest jar.entries).run d₁ with ⟨e | _, d₂⟩
    · rfl
    · dsimp only
      cases jar.manifest with
      | none => rfl
      | some mf =>
          rw [Option.toList_some, List.map_singleton, Eff.forEach, Eff.run_bind, runStep]
          rcases (unjarManifest dest mf).run d₂ with ⟨e | _, d₃⟩ <;> rfl

/-- **An extraction that has returned can be run again**: it returns, and
leaves the disk as it is. -/
theorem extract_again (dest : Destination) (d' : Disk) :
    (∀ entries, (unzip entries dest.names).run dest.disk = (.ok ⟨⟩, d') →
      (unzip entries dest.names).run d' = (.ok ⟨⟩, d')) ∧
    ∀ jar, (unjar jar dest.names).run dest.disk = (.ok ⟨⟩, d') →
      (unjar jar dest.names).run d' = (.ok ⟨⟩, d') := by
  have hagain : ∀ ss, (∀ s ∈ ss, Repeats s) →
      (Eff.forEach (runStep dest.names) ss).run dest.disk = (.ok ⟨⟩, d') →
      (Eff.forEach (runStep dest.names) ss).run d' = (.ok ⟨⟩, d') := by
    intro ss hs hrun
    have hd' := (grows_forEach dest.legal dest.wellFormed hrun).1
    exact run_forEach_again dest.legal hs dest.wellFormed
      ⟨hd', Grows.refl d', Grows.refl d', fun _ => .inr rfl⟩ hrun
  constructor
  · intro entries hrun
    rw [run_unzip_eq_ok_iff] at hrun ⊢
    refine hagain _ (fun s hs => ?_) hrun
    obtain ⟨entry, -, rfl⟩ := List.mem_map.1 hs
    trivial
  · intro jar hrun
    rw [run_unjar_eq_ok_iff] at hrun ⊢
    refine hagain _ (fun s hs => ?_) hrun
    rw [steps, List.mem_cons, List.mem_append] at hs
    rcases hs with rfl | hs | hs
    · trivial
    · obtain ⟨entry, -, rfl⟩ := List.mem_map.1 hs
      trivial
    · obtain ⟨mf, -, rfl⟩ := List.mem_map.1 hs
      trivial

/-- A file that the archive has twice. -/
def twiceWritten : List ZipEntry := [⟨"b".toList, [1]⟩, ⟨"b".toList, [2]⟩]

/-- What it leaves in the empty destination. -/
def afterTwiceWritten : Disk :=
  ((unzip twiceWritten emptyDestination.names).run emptyDestination.disk).2

theorem extract_again_twiceWritten :
    afterTwiceWritten ["dest".toList, "b".toList] = some (.file [2]) ∧
      (unzip twiceWritten emptyDestination.names).run afterTwiceWritten =
        (.ok ⟨⟩, afterTwiceWritten) :=
  ⟨by decide +kernel,
    (extract_again emptyDestination afterTwiceWritten).1 twiceWritten (Prod.ext (by rfl) rfl)⟩

end CompressionUtil

end Zooffice
