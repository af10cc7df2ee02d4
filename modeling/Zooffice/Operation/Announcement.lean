import Zooffice.Common.Run
import Zooffice.Operation.Model.Announcement
/-!
# The announcement and its file

Several administrators may save an announcement at the same time. Because
`loadAnnouncement` is synchronized the announcement never goes back to an
older state of the file, and whoever has saved one has it loaded, or a
later one, when the save is answered. Once all are done the announcement
is the text of the file, unless the last change of the file is one that
nobody has loaded: one that broke off, or one by hand that the watch dog
has not seen yet.
-/


namespace Zooffice

namespace AnnouncementPc

/-- In `loadAnnouncement`. -/
def inMonitor : AnnouncementPc → Bool
  | entered | reading _ | loaded _ _ => true
  | _ => false

/-- The number of changes when the read began. -/
def since : AnnouncementPc → Option Nat
  | reading n | loaded _ n => some n
  | _ => none

/-- Who reads is in `loadAnnouncement`. -/
theorem inMonitor_of_since {pc : AnnouncementPc} {n : Nat} (h : pc.since = some n) :
    pc.inMonitor = true := by
  cases pc with
  | reading | loaded => rfl
  | _ => cases h

/-- A thread that will set the announcement to what the file has after so
many changes. -/
def Brings (changes : Nat) (pc : AnnouncementPc) : Prop :=
  (∃ content, pc = opened content) ∨ pc = changed ∨ pc = entered ∨ pc.since = some changes

/-- Who reads brings the state in which the read began. -/
theorem eq_of_brings {pc : AnnouncementPc} {n changes : Nat} (h : pc.Brings changes)
    (hsince : pc.since = some n) : n = changes := by
  rcases h with ⟨content, rfl⟩ | rfl | rfl | h
  · cases hsince
  · cases hsince
  · cases hsince
  · exact Option.some.inj (hsince.symm.trans h)

/-- A thread that will load the file as it is from the change on. -/
def LoadsFrom (change : Nat) (pc : AnnouncementPc) : Prop :=
  pc = changed ∨ pc = entered ∨ ∃ n, pc.since = some n ∧ change ≤ n

end AnnouncementPc

namespace Announcing

open AnnouncementPc

variable {ι : Type} [DecidableEq ι] {charsets : Charsets} {S S' : Announcing ι} {i j : ι}
  {pc : AnnouncementPc}

@[simp] theorem move_pc_self (S : Announcing ι) (i : ι) (pc : AnnouncementPc) :
    (S.move i pc).pc i = pc := Function.update_self ..

theorem move_pc_of_ne (h : j ≠ i) (pc : AnnouncementPc) : (S.move i pc).pc j = S.pc j :=
  Function.update_of_ne h ..

/-- What every reached state satisfies: one thread at most is in the
monitor, a read that is going on began after the one that was loaded last,
and what was read of the file as it is now is its text. -/
structure Inv (charsets : Charsets) (S : Announcing ι) : Prop where
  monitor : ∀ i, (S.pc i).inMonitor = true → S.monitor = some i
  since : ∀ i n, (S.pc i).since = some n → S.loadedAt ≤ n ∧ n ≤ S.changes
  loaded : ∀ i a, S.pc i = .loaded a S.changes → a = textOf charsets S.file
  le : S.loadedAt ≤ S.changes
  current : S.loadedAt = S.changes → S.announcement = some (textOf charsets S.file)

omit [DecidableEq ι] in
theorem inv_start (file : Option Content) : Inv charsets (start file : Announcing ι) :=
  ⟨nofun, nofun, nofun, Nat.zero_le 1, nofun⟩

omit [DecidableEq ι] in
/-- Only the thread that holds the monitor is in it. -/
theorem eq_of_inMonitor (hI : Inv charsets S) (hi : (S.pc i).inMonitor = true)
    (hj : (S.pc j).inMonitor = true) : j = i :=
  Option.some.inj ((hI.monitor j hj).symm.trans (hI.monitor i hi))

omit [DecidableEq ι] in
/-- A change of the file. No read has seen it yet. -/
theorem inv_change (hI : Inv charsets S) (file : Option Content) (owed : Bool) :
    Inv charsets (S.change file owed) := by
  refine ⟨hI.monitor, fun i n hn => ?_, fun i a ha => ?_, Nat.le_succ_of_le hI.le, fun h => ?_⟩
  · obtain ⟨hloaded, hchanges⟩ := hI.since i n hn
    exact ⟨hloaded, Nat.le_succ_of_le hchanges⟩
  · have hle := (hI.since i (S.changes + 1) (congrArg AnnouncementPc.since ha)).2
    omega
  · have hle := hI.le
    change S.loadedAt = S.changes + 1 at h
    omega

/-- A thread that goes where it does not read. -/
theorem inv_move (hI : Inv charsets S) (hpc : pc.inMonitor = true → S.monitor = some i)
    (hsince : ∀ n, pc.since = some n → S.loadedAt ≤ n ∧ n ≤ S.changes)
    (hloaded : ∀ a, pc = .loaded a S.changes → a = textOf charsets S.file) :
    Inv charsets (S.move i pc) := by
  refine ⟨fun j hj => ?_, fun j n hn => ?_, fun j a ha => ?_, hI.le, hI.current⟩
  all_goals by_cases hji : j = i
  · subst hji
    rw [move_pc_self] at hj
    exact hpc hj
  · rw [move_pc_of_ne hji] at hj
    exact hI.monitor j hj
  · subst hji
    rw [move_pc_self] at hn
    exact hsince n hn
  · rw [move_pc_of_ne hji] at hn
    exact hI.since j n hn
  · subst hji
    rw [move_pc_self] at ha
    exact hloaded a ha
  · rw [move_pc_of_ne hji] at ha
    exact hI.loaded j a ha

/-- And one that does not load at all. -/
theorem inv_move_outside (hI : Inv charsets S) (hmonitor : pc.inMonitor = false)
    (hsince : pc.since = none) : Inv charsets (S.move i pc) :=
  inv_move hI (fun h => absurd (hmonitor.symm.trans h) Bool.false_ne_true)
    (fun _ h => absurd (hsince.symm.trans h) nofun)
    fun _ h => absurd (hsince.symm.trans (congrArg AnnouncementPc.since h)) nofun

/-- A read that goes on, or ends. What it gives is the text of the file,
if the file is as it was at its beginning. -/
def Reads (charsets : Charsets) (S : Announcing ι) (before after : AnnouncementPc) : Prop :=
  ∃ n, (before = .entered ∧ n = S.changes ∨ before.since = some n) ∧ after.since = some n ∧
    ∀ a, after = .loaded a S.changes → a = textOf charsets S.file

/-- **What a step does**, unless a read fails: the thread works on the
file, outside the monitor, or somebody does by hand; or the watch dog has
the file loaded; or the thread is in `loadAnnouncement`. -/
theorem step_cases {action : AnnouncementAction} (hreads : action ≠ .readFails)
    (h : step charsets S (i, action) = some S') :
    (∃ file owed pc, (S.pc i = .idle ∨ ∃ content, S.pc i = .opened content) ∧
      (pc = .idle ∧ owed = true ∨ pc = .changed ∨ ∃ content, pc = .opened content) ∧
      S' = (S.change file owed).move i pc) ∨
    (∃ file, S' = S.change file true) ∨
    (S.pc i = .idle ∧ S' = { S with owed := false }.move i .changed) ∨
    (S.pc i = .changed ∧ S.monitor = none ∧ S' = { S with monitor := some i }.move i .entered) ∨
    (∃ pc, Reads charsets S (S.pc i) pc ∧ S' = S.move i pc) ∨
    ∃ a n, S.pc i = .loaded a n ∧
      S' = { S with announcement := some a, loadedAt := n, monitor := none }.move i .idle := by
  unfold step at h
  dsimp only at h
  split at h
  · next content hpc =>
      exact .inl ⟨_, _, _, .inl hpc, .inr (.inr ⟨content, rfl⟩), (Option.some.inj h).symm⟩
  · next content hpc =>
      exact .inl ⟨_, _, _, .inr ⟨content, hpc⟩, .inr (.inl rfl), (Option.some.inj h).symm⟩
  · next written content hpc =>
      exact .inl ⟨_, _, _, .inr ⟨content, hpc⟩, .inl ⟨rfl, rfl⟩, (Option.some.inj h).symm⟩
  · next hpc => exact .inr (.inr (.inl ⟨hpc, (Option.some.inj h).symm⟩))
  · exact .inr (.inl ⟨_, (Option.some.inj h).symm⟩)
  · next hpc =>
      split at h
      · next hfree => exact .inr (.inr (.inr (.inl ⟨hpc, hfree, (Option.some.inj h).symm⟩)))
      · cases h
  · next hpc =>
      refine .inr (.inr (.inr (.inr (.inl ⟨_, ⟨S.changes, .inl ⟨hpc, rfl⟩, ?_, fun a ha => ?_⟩,
        (Option.some.inj h).symm⟩))))
      · split <;> rfl
      · split at ha
        · next hfile =>
            rw [hfile]
            exact (AnnouncementPc.loaded.inj ha).1.symm
        · cases ha
  · next interrupted since hpc =>
      refine .inr (.inr (.inr (.inr (.inl ⟨_, ⟨since, .inr (hpc ▸ rfl), rfl, fun a ha => ?_⟩,
        (Option.some.inj h).symm⟩))))
      obtain ⟨rfl, hsince⟩ := AnnouncementPc.loaded.inj ha
      rw [if_pos hsince.symm]
  · exact absurd rfl hreads
  · next a n hpc =>
      exact .inr (.inr (.inr (.inr (.inr ⟨a, n, hpc, (Option.some.inj h).symm⟩))))
  · cases h

/-- The announcement is set, and the monitor is free. -/
theorem inv_set {a : Text} {n : Nat} (hI : Inv charsets S) (hpc : S.pc i = .loaded a n) :
    Inv charsets ({ S with announcement := some a, loadedAt := n, monitor := none }.move i
      .idle) := by
  have hi : (S.pc i).inMonitor = true := by
    rw [hpc]
    rfl
  -- there is nobody else in it
  have houtside : ∀ j, (Function.update S.pc i .idle j).inMonitor = false := fun j => by
    by_cases hji : j = i
    · rw [hji, Function.update_self]
      rfl
    · rw [Function.update_of_ne hji]
      exact Bool.eq_false_iff.2 fun hj => hji (eq_of_inMonitor hI hi hj)
  refine ⟨fun j hj => ?_, fun j m hm => ?_, fun j b hb => ?_, ?_, fun h => ?_⟩
  · exact absurd ((houtside j).symm.trans hj) Bool.false_ne_true
  · exact absurd ((houtside j).symm.trans (inMonitor_of_since hm)) Bool.false_ne_true
  · exact absurd ((houtside j).symm.trans (inMonitor_of_since (congrArg since hb)))
      Bool.false_ne_true
  · exact (hI.since i n (congrArg since hpc)).2
  · change n = S.changes at h
    subst h
    exact congrArg some (hI.loaded i a hpc)

/-- **A step keeps the invariant**, unless a read fails. -/
theorem inv_of_step {action : AnnouncementAction} (hI : Inv charsets S)
    (hreads : action ≠ .readFails) (h : step charsets S (i, action) = some S') :
    Inv charsets S' := by
  rcases step_cases hreads h with ⟨file, owed, pc, -, hpc, rfl⟩ | ⟨file, rfl⟩ | ⟨-, rfl⟩ |
    ⟨-, hfree, rfl⟩ | ⟨pc, ⟨n, hbefore, hafter, htext⟩, rfl⟩ | ⟨a, n, hpc, rfl⟩
  · have hchange := inv_change hI file owed
    rcases hpc with ⟨rfl, -⟩ | rfl | ⟨content, rfl⟩
    all_goals exact inv_move_outside hchange rfl rfl
  · exact inv_change hI file true
  · exact inv_move_outside (S := { S with owed := false })
      ⟨hI.monitor, hI.since, hI.loaded, hI.le, hI.current⟩ rfl rfl
  · -- nobody was in the monitor
    refine inv_move (S := { S with monitor := some i })
      ⟨fun j hj => ?_, hI.since, hI.loaded, hI.le, hI.current⟩ (fun _ => rfl) nofun nofun
    exact absurd ((hI.monitor j hj).symm.trans hfree) nofun
  · have hmonitor : (S.pc i).inMonitor = true := by
      rcases hbefore with ⟨hpc, -⟩ | hsince
      · rw [hpc]
        rfl
      · exact inMonitor_of_since hsince
    refine inv_move hI (fun _ => hI.monitor i hmonitor) (fun m hm => ?_) htext
    obtain rfl := Option.some.inj (hafter.symm.trans hm)
    rcases hbefore with ⟨-, rfl⟩ | hsince
    · exact ⟨hI.le, Nat.le_refl _⟩
    · exact hI.since i n hsince
  · exact inv_set hI hpc

/-! ## At rest -/

/-- Whoever has changed the file last, or has seen it change, has loaded it
or will. -/
def Served (S : Announcing ι) : Prop :=
  S.owed = true ∨ S.loadedAt = S.changes ∨ ∃ i, (S.pc i).Brings S.changes

/-- A thread that brings the file as it is serves it. -/
theorem served_move (S : Announcing ι) (i : ι) {pc : AnnouncementPc} (h : pc.Brings S.changes) :
    Served (S.move i pc) := .inr (.inr ⟨i, by rwa [move_pc_self]⟩)

/-- **A step keeps the file served.** The announcement cannot become older,
since a read that began before the last one was over has been in the
monitor all the time. -/
theorem served_of_step {action : AnnouncementAction} (hI : Inv charsets S) (hS : Served S)
    (hreads : action ≠ .readFails) (h : step charsets S (i, action) = some S') : Served S' := by
  rcases step_cases hreads h with ⟨file, owed, pc, -, hpc, rfl⟩ | ⟨file, rfl⟩ | ⟨-, rfl⟩ |
    ⟨-, -, rfl⟩ | ⟨pc, ⟨n, hbefore, hafter, -⟩, rfl⟩ | ⟨a, n, hpc, rfl⟩
  · rcases hpc with ⟨rfl, rfl⟩ | rfl | ⟨content, rfl⟩
    · exact .inl rfl
    · exact served_move _ i (.inr (.inl rfl))
    · exact served_move _ i (.inl ⟨content, rfl⟩)
  · exact .inl rfl
  · exact served_move _ i (.inr (.inl rfl))
  · exact served_move _ i (.inr (.inr (.inl rfl)))
  · by_cases hn : n = S.changes
    · exact served_move _ i (.inr (.inr (.inr (hn ▸ hafter))))
    · -- the read is of an older state, so another thread brings the file
      refine hS.imp_right (Or.imp_right ?_)
      rintro ⟨j, hj⟩
      have hji : j ≠ i := by
        rintro rfl
        rcases hbefore with ⟨-, heq⟩ | hsince
        · exact hn heq
        · exact hn (eq_of_brings hj hsince)
      exact ⟨j, by rwa [move_pc_of_ne hji]⟩
  · obtain ⟨hloaded, hchanges⟩ := hI.since i n (congrArg since hpc)
    by_cases hn : n = S.changes
    · exact .inr (.inl hn)
    · refine hS.imp_right fun hS => .inr ?_
      obtain ⟨j, hj⟩ := hS.resolve_left (by omega)
      have hji : j ≠ i := by
        rintro rfl
        exact hn (eq_of_brings hj (congrArg since hpc))
      exact ⟨j, by rwa [move_pc_of_ne hji]⟩

/-- No read of the run fails. -/
def NoReadFails (steps : List (ι × AnnouncementAction)) : Prop :=
  ∀ a ∈ steps, a.2 ≠ .readFails

instance (steps : List (ι × AnnouncementAction)) : Decidable (NoReadFails steps) :=
  List.decidableBAll _ _

/-- What every state satisfies that a run without a failed read has led
to. -/
theorem reached_of_perform {steps : List (ι × AnnouncementAction)} (hreads : NoReadFails steps)
    (hI : Inv charsets S) (hS : Served S) (hrun : perform (step charsets) S steps = some S') :
    Inv charsets S' ∧ Served S' :=
  perform_invariant (I := fun S => Inv charsets S ∧ Served S) (G := fun _ a => a.2 ≠ .readFails)
    (fun _ _ _ h hread hstep =>
      ⟨inv_of_step h.1 hread hstep, served_of_step h.1 h.2 hread hstep⟩)
    ⟨hI, hS⟩ (along_of_forall (fun a ha _ => hreads a ha) S) hrun

/-- **When all threads are at rest, the announcement is the text of the
file**, whatever interleaving of saves, of loads by the watch dog and of
changes by hand has led there, unless the last change of the file is one
that broke off or was made by hand and the watch dog has not seen it. -/
theorem announcement_of_idle (charsets : Charsets) (file : Option Content)
    (steps : List (ι × AnnouncementAction)) (S : Announcing ι) (hreads : NoReadFails steps)
    (hrun : perform (step charsets) (start file) steps = some S)
    (hidle : ∀ i, S.pc i = .idle) (howed : S.owed = false) :
    S.announcement = some (textOf charsets S.file) := by
  obtain ⟨hI, hS⟩ := reached_of_perform hreads (inv_start file) (.inl rfl) hrun
  refine hI.current ?_
  rcases hS with h | h | ⟨i, h⟩
  · exact absurd (howed.symm.trans h) Bool.false_ne_true
  · exact h
  · rw [hidle i] at h
    rcases h with ⟨content, h⟩ | h | h | h
    all_goals cases h

/-- Two threads save. The second opens the file before the first has read
it, so that the first loads an empty file, and the second what it has
written. -/
def twoSaves : List (Bool × AnnouncementAction) :=
  [(false, .save "a".toList), (false, .write), (true, .save "b".toList), (false, .enter),
    (false, .beginRead), (true, .write), (false, .read []), (false, .set), (true, .enter),
    (true, .beginRead), (true, .read []), (true, .set)]

/-- The state they have reached. -/
def afterTwoSaves : Announcing Bool :=
  (perform (step asciiCharsets) (start none) twoSaves).getD (start none)

theorem announcement_of_idle_twoSaves :
    afterTwoSaves.announcement = some (textOf asciiCharsets afterTwoSaves.file) :=
  announcement_of_idle asciiCharsets none twoSaves afterTwoSaves (by decide) rfl
    (fun i => by cases i <;> rfl) rfl

/-! ## Whoever has saved -/

/-- The thread `i` has left the file as in `T`. The announcement is not
older than that, or the thread will load one that is not. -/
structure Follows (i : ι) (T S : Announcing ι) : Prop where
  le : T.changes ≤ S.changes
  file : S.changes = T.changes → S.file = T.file
  loads : T.changes ≤ S.loadedAt ∨ (S.pc i).LoadsFrom T.changes

/-- **The announcement never goes back**, and neither does the file. -/
theorem loadedAt_of_step {a : ι × AnnouncementAction} (hI : Inv charsets S)
    (hreads : a.2 ≠ .readFails) (h : step charsets S a = some S') :
    S.loadedAt ≤ S'.loadedAt ∧ S.changes ≤ S'.changes ∧
      (S'.changes = S.changes → S'.file = S.file) := by
  rcases step_cases hreads h with ⟨file, owed, pc, -, -, rfl⟩ | ⟨file, rfl⟩ | ⟨-, rfl⟩ |
    ⟨-, -, rfl⟩ | ⟨pc, -, rfl⟩ | ⟨b, n, hpc, rfl⟩
  · exact ⟨Nat.le_refl _, Nat.le_succ _, fun h => absurd h (Nat.succ_ne_self _)⟩
  · exact ⟨Nat.le_refl _, Nat.le_succ _, fun h => absurd h (Nat.succ_ne_self _)⟩
  · exact ⟨Nat.le_refl _, Nat.le_refl _, fun _ => rfl⟩
  · exact ⟨Nat.le_refl _, Nat.le_refl _, fun _ => rfl⟩
  · exact ⟨Nat.le_refl _, Nat.le_refl _, fun _ => rfl⟩
  · exact ⟨(hI.since _ n (congrArg since hpc)).1, Nat.le_refl _, fun _ => rfl⟩

/-- A thread that is to load the file goes on to load it. -/
theorem loads_of_step {a : ι × AnnouncementAction} {change : Nat} (hchange : change ≤ S.changes)
    (hpc : (S.pc j).LoadsFrom change) (hreads : a.2 ≠ .readFails)
    (h : step charsets S a = some S') : change ≤ S'.loadedAt ∨ (S'.pc j).LoadsFrom change := by
  obtain ⟨i, action⟩ := a
  by_cases hji : j = i
  · subst hji
    rcases step_cases hreads h with ⟨file, owed, pc, hidle, -, rfl⟩ | ⟨file, rfl⟩ | ⟨hidle, rfl⟩ |
      ⟨-, -, rfl⟩ | ⟨pc, ⟨n, hbefore, hafter, -⟩, rfl⟩ | ⟨b, n, hloaded, rfl⟩
    · -- it works on the file only before and after
      rcases hidle with hidle | ⟨content, hidle⟩
      all_goals
        rw [hidle] at hpc
        rcases hpc with h | h | ⟨n, h, -⟩
        all_goals cases h
    · exact .inr hpc
    · rw [hidle] at hpc
      rcases hpc with h | h | ⟨n, h, -⟩
      all_goals cases h
    · exact .inr (.inr (.inl (move_pc_self _ _ _)))
    · refine .inr (.inr (.inr ⟨n, by rwa [move_pc_self], ?_⟩))
      rcases hbefore with ⟨-, rfl⟩ | hsince
      · exact hchange
      · rcases hpc with h | h | ⟨m, hm, hle⟩
        · rw [h] at hsince
          cases hsince
        · rw [h] at hsince
          cases hsince
        · obtain rfl := Option.some.inj (hm.symm.trans hsince)
          exact hle
    · rw [hloaded] at hpc
      rcases hpc with h | h | ⟨m, hm, hle⟩
      · cases h
      · cases h
      · obtain rfl := Option.some.inj hm
        exact .inl hle
  · have hsame : S'.pc j = S.pc j := by
      rcases step_cases hreads h with ⟨file, owed, pc, -, -, rfl⟩ | ⟨file, rfl⟩ | ⟨-, rfl⟩ |
        ⟨-, -, rfl⟩ | ⟨pc, -, rfl⟩ | ⟨b, n, -, rfl⟩
      · exact move_pc_of_ne hji _
      · rfl
      all_goals exact move_pc_of_ne hji _
    exact .inr (hsame ▸ hpc)

theorem follows_of_step {T : Announcing ι} {a : ι × AnnouncementAction} (hI : Inv charsets S)
    (hS : Follows i T S) (hreads : a.2 ≠ .readFails) (h : step charsets S a = some S') :
    Follows i T S' := by
  obtain ⟨hloadedAt, hchanges, hfile⟩ := loadedAt_of_step hI hreads h
  refine ⟨Nat.le_trans hS.le hchanges, fun heq => ?_, ?_⟩
  · have hsame : S.changes = T.changes := Nat.le_antisymm (heq ▸ hchanges) hS.le
    exact (hfile (heq.trans hsame.symm)).trans (hS.file hsame)
  · rcases hS.loads with hold | hpc
    · exact .inl (Nat.le_trans hold hloadedAt)
    · exact loads_of_step hS.le hpc hreads h

/-- Who has written has still to load. -/
theorem follows_of_write (h : step charsets S (i, .write) = some S') : Follows i S' S' := by
  refine ⟨Nat.le_refl _, fun _ => rfl, .inr (.inl ?_)⟩
  cases hpc : S.pc i with
  | opened content =>
      simp only [step, hpc, Option.some.injEq] at h
      exact h ▸ move_pc_self ..
  | _ => simp [step, hpc] at h

/-- **Whoever has saved an announcement has it loaded, or a later one.** In
every state in which the save is over the announcement was read when the
file had been written or after that, and it is the text that was left there
as long as the file has not been changed since. -/
theorem announcement_of_saved (charsets : Charsets) (file : Option Content)
    (before after : List (ι × AnnouncementAction)) (i : ι) (S₁ S₂ S₃ : Announcing ι)
    (hreads : NoReadFails (before ++ after))
    (hbefore : perform (step charsets) (start file) before = some S₁)
    (hwrite : step charsets S₁ (i, .write) = some S₂)
    (hafter : perform (step charsets) S₂ after = some S₃) (hover : S₃.pc i = .idle) :
    S₂.changes ≤ S₃.loadedAt ∧ S₃.loadedAt ≤ S₃.changes ∧
      (S₃.changes = S₂.changes → S₃.announcement = some (textOf charsets S₂.file)) := by
  have hreadsBefore : NoReadFails before := fun a ha => hreads a (List.mem_append_left _ ha)
  have hreadsAfter : NoReadFails after := fun a ha => hreads a (List.mem_append_right _ ha)
  have hI₁ := (reached_of_perform hreadsBefore (inv_start file) (.inl rfl) hbefore).1
  have hI₂ := inv_of_step hI₁ (by decide : AnnouncementAction.write ≠ .readFails) hwrite
  obtain ⟨hI₃, hfollows⟩ := perform_invariant (I := fun S => Inv charsets S ∧ Follows i S₂ S)
    (G := fun _ a => a.2 ≠ .readFails)
    (fun _ _ _ h hread hstep =>
      ⟨inv_of_step h.1 hread hstep, follows_of_step h.1 h.2 hread hstep⟩)
    ⟨hI₂, follows_of_write hwrite⟩ (along_of_forall (fun a ha _ => hreadsAfter a ha) S₂) hafter
  have hloaded : S₂.changes ≤ S₃.loadedAt := by
    rcases hfollows.loads with h | h
    · exact h
    · rw [hover] at h
      rcases h with h | h | ⟨n, h, -⟩
      all_goals cases h
  refine ⟨hloaded, hI₃.le, fun heq => ?_⟩
  rw [hI₃.current (Nat.le_antisymm hI₃.le (heq ▸ hloaded)), hfollows.file heq]

theorem announcement_of_saved_twoSaves :
    5 ≤ afterTwoSaves.loadedAt ∧ afterTwoSaves.loadedAt ≤ afterTwoSaves.changes := by
  have h := announcement_of_saved asciiCharsets none (twoSaves.take 5) (twoSaves.drop 6) true
    ((perform (step asciiCharsets) (start none) (twoSaves.take 5)).getD (start none))
    ((perform (step asciiCharsets) (start none) (twoSaves.take 6)).getD (start none))
    afterTwoSaves (by decide) rfl rfl rfl rfl
  exact ⟨h.1, h.2.1⟩

end Announcing

end Zooffice
