import Zooffice.Archive.Containment
/-!
# Files that are laid out below a directory

What a method leaves that makes the parent of each file before it writes
it. The ways to the files are free when the destination is empty, and they
stay free while no file is on the way to another (`run_layLoop`).
-/


namespace Zooffice

open Zooffice.Path

namespace Disk

variable {d : Disk} {location ns : List Text}

/-- A path through directories is followed to its end. -/
theorem locate_of_directories (hns : ∀ n ∈ ns, Proper '/' '.' n)
    (h : ∀ q, q <+: ns → q ≠ ns → d (location ++ q) = some .directory) :
    d.locate location ns = some (location ++ ns) := by
  induction ns generalizing location with
  | nil => rw [List.append_nil]; rfl
  | cons n ns ih =>
      have hdir : d location = some .directory := by
        have := h [] (List.nil_prefix) (List.cons_ne_nil n ns).symm
        rwa [List.append_nil] at this
      rw [locate_of_directory hdir (hns n List.mem_cons_self),
        ih fun m hm => hns m (List.mem_cons_of_mem _ hm)]
      · rw [List.append_assoc]
        rfl
      · intro q hq hne
        have hnext := h (n :: q) (List.cons_prefix_cons.2 ⟨rfl, hq⟩) fun heq =>
          hne (List.cons.inj heq).2
        rwa [List.append_assoc]

end Disk

namespace CompressionUtil

variable {dest : List Text} {d d' d'' : Disk} {l : List Text × Content}
  {ls : List (List Text × Content)}

/-- The files are below the directory, with the directories on the way to
them, and the rest of the disk is as it was. -/
structure LaidOut (dest : List Text) (ls : List (List Text × Content)) (d d' : Disk) : Prop where
  file : ∀ l ∈ ls, d' (dest ++ l.1) = some (.file l.2)
  directory : ∀ l ∈ ls, ∀ q, q <+: l.1 → q ≠ l.1 → d' (dest ++ q) = some .directory
  frame : ∀ p, (∀ l ∈ ls, ∀ q, q <+: l.1 → p ≠ dest ++ q) → d' p = d p

/-- No file is on the way to another. -/
def Apart (ls : List (List Text × Content)) : Prop :=
  ls.Pairwise fun l l' => ¬l.1 <+: l'.1 ∧ ¬l'.1 <+: l.1

/-- Nothing is in the way of the file. -/
structure Free (dest : List Text) (d : Disk) (l : List Text × Content) : Prop where
  way : ∀ q, q <+: l.1 → q ≠ l.1 → ∀ content, d (dest ++ q) ≠ some (.file content)
  target : d (dest ++ l.1) ≠ some .directory

/-! ## One file -/

/-- What stands at or above a directory below the destination. -/
theorem cases_of_prefix_append (hd : d.WellFormed) (hdir : d dest = some .directory)
    {p init : List Text} (hp : p <+: dest ++ init) :
    (∃ r, r <+: init ∧ p = dest ++ r) ∨ d p = some .directory := by
  rcases List.prefix_or_prefix_of_prefix hp (List.prefix_append dest init) with hle | ⟨r, rfl⟩
  · exact .inr (hd.directory_of_prefix_directory hdir hle)
  · exact .inl ⟨r, (List.prefix_append_right_inj dest).1 hp, rfl⟩

/-- **The parent is made**, with what is missing on the way to it below
the destination. -/
theorem run_mkdirs_below (hd : d.WellFormed) (hdir : d dest = some .directory)
    (hdest : ∀ n ∈ dest, FileName n) {init : List Text} (hinit : ∀ n ∈ init, FileName n)
    (hfree : ∀ q, q <+: init → ∀ content, d (dest ++ q) ≠ some (.file content)) :
    ∃ b d', (TargetFile.mkdirs ⟨dest, init⟩).run d = (.ok b, d') ∧ d'.WellFormed ∧
      (∀ q, q <+: init → d' (dest ++ q) = some .directory) ∧
      ∀ p, (∀ q, q <+: init → p ≠ dest ++ q) → d' p = d p := by
  have hcanonical : TargetFile.getCanonicalFile ⟨dest, init⟩ = dest ++ init :=
    resolve_of_proper hinit dest
  have hproper : ∀ m ∈ TargetFile.getCanonicalFile ⟨dest, init⟩, Proper '/' '.' m := by
    rw [hcanonical]
    exact fun m hm => (List.mem_append.1 hm).elim (hdest m) (hinit m)
  obtain ⟨b, d', hrun, hd', hmade, hkept⟩ := TargetFile.run_mkdirs hd hproper
  have hfreeWay : d.FreeWay (TargetFile.getCanonicalFile ⟨dest, init⟩) := by
    rw [hcanonical]
    intro p hp content
    rcases cases_of_prefix_append hd hdir hp with ⟨q, hq, rfl⟩ | hitem
    · exact hfree q hq content
    · rw [hitem]
      simp
  refine ⟨b, d', hrun, hd', fun q hq => ?_, fun p hp => hkept p fun hmakes => ?_⟩
  · have habove : dest ++ q <+: TargetFile.getCanonicalFile ⟨dest, init⟩ := by
      rw [hcanonical]
      exact (List.prefix_append_right_inj dest).2 hq
    cases hitem : d (dest ++ q) with
    | none =>
        refine hmade _ ⟨?_, hfreeWay, habove, hitem⟩
        -- the last directory is not there, as one above it is missing
        refine Bool.eq_false_iff.2 fun hthere => ?_
        obtain ⟨p, hp, hp0⟩ := TargetFile.fileExists_eq_true.1 hthere
        have hlast : p = TargetFile.getCanonicalFile ⟨dest, init⟩ := Disk.eq_resolve_of_locate hp
        exact hd.ne_none_of_prefix (hlast ▸ hp0) habove hitem
    | some item =>
        rw [hkept _ fun h => absurd (h.none.symm.trans hitem) (Option.some_ne_none item).symm]
        cases item with
        | directory => exact hitem
        | file content => exact absurd hitem (hfreeWay _ habove content)
  · rcases cases_of_prefix_append hd hdir (hcanonical ▸ hmakes.above) with ⟨q, hq, rfl⟩ | hitem
    · exact hp q hq rfl
    · rw [hmakes.none] at hitem
      cases hitem

/-- A way that ends before the last name is one to the parent. -/
theorem prefix_init_iff {q init : List Text} {n : Text} :
    q <+: init ↔ q <+: init ++ [n] ∧ q ≠ init ++ [n] := by
  refine ⟨fun h => ⟨h.trans (List.prefix_append _ _), fun heq => ?_⟩, fun h =>
    (List.prefix_concat_iff.1 h.1).resolve_left h.2⟩
  have hle := h.length_le
  rw [heq, List.length_append, List.length_singleton] at hle
  omega

/-- **A file is written, and its parent made.** -/
theorem run_writeFile_below (hd : d.WellFormed) (hdir : d dest = some .directory)
    (hdest : ∀ n ∈ dest, FileName n) (hne : l.1 ≠ []) (hl : ∀ n ∈ l.1, FileName n)
    (hfree : Free dest d l) :
    ∃ d', (Extraction.writeFile (some ⟨dest, l.1.dropLast⟩) ⟨dest, l.1⟩ l.2).run.run d =
        (.ok ⟨⟩, d') ∧ d'.WellFormed ∧ LaidOut dest [l] d d' := by
  obtain ⟨ns, content⟩ := l
  dsimp only at hne hl ⊢
  obtain ⟨init, n, rfl⟩ := (List.eq_nil_or_concat' ns).resolve_left hne
  rw [List.dropLast_concat]
  obtain ⟨b, d₁, hmkdirs, hd₁, hdirectories, hkept⟩ := run_mkdirs_below hd hdir hdest
    (fun m hm => hl m (List.mem_append_left _ hm))
    (fun q hq => hfree.way q (prefix_init_iff.1 hq).1 (prefix_init_iff.1 hq).2)
  have htarget : d₁ (dest ++ (init ++ [n])) ≠ some .directory := by
    rw [hkept _ fun q hq heq => (prefix_init_iff.1 hq).2 (List.append_cancel_left heq).symm]
    exact hfree.target
  have hparent : d₁ (dest ++ (init ++ [n])).dropLast = some .directory := by
    rw [← List.append_assoc, List.dropLast_concat]
    exact hdirectories init List.prefix_rfl
  have hopens : TargetFile.opens ⟨dest, init ++ [n]⟩ d₁ = .ok (dest ++ (init ++ [n])) :=
    TargetFile.opens_of_locate (Disk.locate_of_directories hl fun q hq hne =>
      hdirectories q (prefix_init_iff.2 ⟨hq, hne⟩)) hparent htarget
  refine ⟨d₁.put (dest ++ (init ++ [n])) (.file content), ?_,
    hd₁.put_file hparent htarget content, ?_, ?_, ?_⟩
  · rw [Extraction.run, Extraction.makeParent, Eff.run_bind, Eff.run_bind_of_ok hmkdirs]
    exact TargetFile.run_write content hopens
  · intro l hl
    rw [List.mem_singleton.1 hl]
    exact Disk.put_self _ _ _
  · intro l hl q hq hne
    rw [List.mem_singleton.1 hl] at hq hne
    rw [Disk.put_of_ne _ _ fun heq => hne (List.append_cancel_left heq)]
    exact hdirectories q (prefix_init_iff.2 ⟨hq, hne⟩)
  · intro p hp
    have hp := hp _ (List.mem_singleton_self _)
    rw [Disk.put_of_ne _ _ (hp _ List.prefix_rfl)]
    exact hkept p fun q hq => hp q (prefix_init_iff.1 hq).1

/-! ## One file after the other -/

/-- A directory that the files can be laid out in. -/
structure Ready (dest : List Text) (ls : List (List Text × Content)) (d : Disk) : Prop where
  wellFormed : d.WellFormed
  directory : d dest = some .directory
  free : ∀ l ∈ ls, Free dest d l

/-- **What is free stays free** when another file is laid out. -/
theorem Free.of_laidOut {l' : List Text × Content} (h : Free dest d l')
    (hd' : LaidOut dest [l] d d') (hapart : ¬l.1 <+: l'.1 ∧ ¬l'.1 <+: l.1) : Free dest d' l' := by
  have hitem : ∀ q, q <+: l'.1 → (q <+: l.1 ∧ q ≠ l.1 ∧ d' (dest ++ q) = some .directory) ∨
      d' (dest ++ q) = d (dest ++ q) := by
    intro q hq
    by_cases hway : q <+: l.1
    · have hne : q ≠ l.1 := fun heq => hapart.1 (heq ▸ hq)
      exact .inl ⟨hway, hne, hd'.directory l (List.mem_singleton_self l) q hway hne⟩
    · refine .inr (hd'.frame _ fun m hm r hr heq => hway ?_)
      rw [List.mem_singleton.1 hm] at hr
      exact (List.append_cancel_left heq) ▸ hr
  constructor
  · intro q hq hne content
    rcases hitem q hq with ⟨-, -, hdir⟩ | hsame
    · rw [hdir]
      simp
    · rw [hsame]
      exact h.way q hq hne content
  · rcases hitem l'.1 List.prefix_rfl with ⟨hle, -⟩ | hsame
    · exact absurd hle hapart.2
    · rw [hsame]
      exact h.target

/-- The files of a list are laid out one after the other. -/
theorem LaidOut.cons (h : LaidOut dest [l] d d') (h' : LaidOut dest ls d' d'')
    (hapart : ∀ l' ∈ ls, ¬l.1 <+: l'.1 ∧ ¬l'.1 <+: l.1) : LaidOut dest (l :: ls) d d'' := by
  have hl := List.mem_singleton_self l
  refine ⟨fun m hm => ?_, fun m hm q hq hne => ?_, fun p hp => ?_⟩
  · rcases List.mem_cons.1 hm with rfl | hm
    · -- no later file is at or below it
      rw [h'.frame _ fun l' hl' q hq heq =>
        (hapart l' hl').1 (by rw [List.append_cancel_left heq]; exact hq)]
      exact h.file m hl
    · exact h'.file m hm
  · rcases List.mem_cons.1 hm with rfl | hm
    · by_cases hlater : ∃ l' ∈ ls, q <+: l'.1
      · obtain ⟨l', hl', hq'⟩ := hlater
        exact h'.directory l' hl' q hq' fun heq => (hapart l' hl').2 (heq ▸ hq)
      · rw [h'.frame _ fun l' hl' r hr heq =>
          hlater ⟨l', hl', by rw [List.append_cancel_left heq]; exact hr⟩]
        exact h.directory m hl q hq hne
    · exact h'.directory m hm q hq hne
  · rw [h'.frame p fun l' hl' => hp l' (List.mem_cons_of_mem _ hl'),
      h.frame p fun l' hl' => hp l' (List.mem_singleton.1 hl' ▸ List.mem_cons_self)]

/-- The destination stays a directory. -/
theorem LaidOut.directory_self (h : LaidOut dest [l] d d') (hne : l.1 ≠ []) :
    d' dest = some .directory := by
  have hself := h.directory l (List.mem_singleton_self l) [] List.nil_prefix hne.symm
  rwa [List.append_nil] at hself

end CompressionUtil

end Zooffice
