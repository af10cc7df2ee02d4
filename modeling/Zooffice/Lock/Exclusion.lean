import Zooffice.Common.Run
import Zooffice.Lock.Model.LockService
/-!
# One node at a time between the lock and its release

The flag of a node stands for the committed row: while a node has it, the
row is `'T'` and no other node has it. The flag is taken by the commit of
a conditional write, which is judged on a committed `'F'` and keeps other
writers out until then; it is given back by the commit of the unlock
write, which only a node with the flag makes. `Inv` says this of the row,
the open write and every node, and each step keeps it, whichever call
throws and whichever node stops.
-/


namespace Zooffice

open TrueOrFalseBooleanType

variable {ι : Type} [DecidableEq ι]

/-! ## The row -/

namespace LockTable

variable {t t' : LockTable ι} {i j : ι} {v w : Locked}

@[simp] theorem rollback_locked : (t.rollback i).locked = t.locked := by
  unfold rollback
  split <;> rfl

/-- A rollback takes back the write of its own connection. -/
theorem rollback_uncommitted :
    (t.rollback i).uncommitted = some (j, w) ↔ t.uncommitted = some (j, w) ∧ j ≠ i := by
  unfold rollback isWriter
  rcases hunc : t.uncommitted with _ | ⟨k, v⟩
  · simp [hunc]
  · by_cases hk : k = i
    · subst hk
      simp only [decide_true, if_true, reduceCtorEq, false_iff, not_and, not_not]
      intro h
      exact (congrArg Prod.fst (Option.some.inj h)).symm
    · simp only [hk, decide_false, Bool.false_eq_true, if_false, hunc]
      constructor
      · intro h
        have hkj : k = j := congrArg Prod.fst (Option.some.inj h)
        exact ⟨h, hkj ▸ hk⟩
      · exact And.left

/-- A commit of the writer's connection makes the write the content. -/
theorem commit_of_uncommitted (h : t.uncommitted = some (i, v)) : t.commit i = ⟨v, none⟩ := by
  unfold commit
  rw [h]
  simp

/-- A commit of another connection leaves the row. -/
theorem commit_of_not_isWriter (h : t.isWriter i = false) : t.commit i = t := by
  unfold isWriter at h
  unfold commit
  rcases hunc : t.uncommitted with _ | ⟨j, w⟩
  · rfl
  · rw [hunc] at h
    dsimp only at h ⊢
    rw [if_neg (of_decide_eq_false h)]

/-- A write gets through when no other connection has an open one. -/
theorem write_eq_some (h : t.write i v = some t') :
    t' = { t with uncommitted := some (i, v) } ∧ ∀ j w, t.uncommitted = some (j, w) → j = i := by
  unfold write at h
  rcases hunc : t.uncommitted with _ | ⟨k, w⟩
  · rw [hunc] at h
    exact ⟨(Option.some.inj h).symm, fun _ _ hnone => by cases hnone⟩
  · rw [hunc] at h
    dsimp only at h
    split at h
    · next hk =>
        refine ⟨(Option.some.inj h).symm, fun j w' hj => ?_⟩
        have hkj : k = j := congrArg Prod.fst (Option.some.inj hj)
        exact hkj ▸ hk
    · cases h

end LockTable

/-! ## The invariant -/

namespace Pc

/-- Where a node has the lock: from the commit of `acquireLock` to that of
`releaseLock`. -/
def hasLock : Pc → Bool
  | acquireFinally .locked | changeLog => true
  | releaseTable | releaseRollback | releaseUnlock | releaseCommit => true
  | releaseFinally released => !released
  | _ => false

/-- Where the map of instances has the service of the node. -/
def inMap : Pc → Bool
  | idle => false
  | releaseFinally released => !released
  | _ => true

/-- A node may go from `pc` to `pc'` whatever the row says: it does not get
the lock, nor an entry in the map, and is not about to commit. -/
def Quiet (pc pc' : Pc) : Prop :=
  (pc'.inMap = true → pc.inMap = true) ∧ (pc'.hasLock = true → pc.hasLock = true) ∧
    pc' ≠ acquireCommit ∧ pc' ≠ releaseCommit

instance (pc pc' : Pc) : Decidable (Quiet pc pc') := inferInstanceAs (Decidable (_ ∧ _))

/-- A call that throws takes a node nowhere else. -/
theorem quiet_of_afterFailure {pc pc' : Pc} {isDatabaseException : Bool}
    (h : pc.afterFailure isDatabaseException = some pc') : pc.Quiet pc' := by
  cases pc with
  | acquireFinally result => cases result <;> cases isDatabaseException <;> cases h <;> decide
  | releaseFinally released => cases released <;> cases h <;> decide
  | _ => cases h <;> decide

/-- Nor does what the select returned. -/
theorem quiet_afterSelect (x : Except Throwable Bool) : acquireSelect.Quiet (afterSelect x) := by
  rcases x with e | locked
  · exact (by decide : acquireSelect.Quiet (acquireFinally .threw))
  · cases locked <;> decide

/-- Nor the end of an `acquireLock`, which has the lock already. -/
theorem quiet_afterAcquire (result : Acquired) :
    (acquireFinally result).Quiet (afterAcquire result) := by
  cases result <;> decide

/-- Nor the end of a `releaseLock`. -/
theorem quiet_releaseFinally (released : Bool) : (releaseFinally released).Quiet idle := by
  cases released <;> decide

end Pc

/-- What is true of the node `i` beside the row. -/
structure NodeInv (t : LockTable ι) (i : ι) (n : Node) : Prop where
  registered : n.hasChangeLogLock = true → n.registered = true
  inMap : n.pc.inMap = true → n.registered = true
  hasLock : n.pc.hasLock = true → n.hasChangeLogLock = true
  acquireCommit : n.stopped = false → n.pc = .acquireCommit →
    t.uncommitted = some (i, some trueBooleanValue)
  releaseCommit : n.stopped = false → n.pc = .releaseCommit →
    t.uncommitted = some (i, some falseBooleanValue)

/-- **The invariant of the cluster.** -/
structure Inv (S : Cluster ι) : Prop where
  content : S.table.locked = some trueBooleanValue ∨ S.table.locked = some falseBooleanValue
  held : ∀ i, (S.node i).hasChangeLogLock = true → S.table.locked = some trueBooleanValue
  unique : ∀ i j, (S.node i).hasChangeLogLock = true → (S.node j).hasChangeLogLock = true → i = j
  /-- An open write is that of an acquisition on an unlocked row, or that
  of a release by the node that has the lock. -/
  open_write : ∀ i v, S.table.uncommitted = some (i, v) →
    (v = some trueBooleanValue ∧ S.table.locked = some falseBooleanValue) ∨
      (v = some falseBooleanValue ∧ (S.node i).hasChangeLogLock = true)
  node : ∀ i, NodeInv S.table i (S.node i)

omit [DecidableEq ι] in
theorem inv_start (locked : Bool) : Inv (Cluster.start locked : Cluster ι) where
  content := by cases locked <;> simp [Cluster.start]
  held := fun i h => by simp [Cluster.start, Node.fresh] at h
  unique := fun i j h => by simp [Cluster.start, Node.fresh] at h
  open_write := fun i v h => by simp [Cluster.start] at h
  node := fun i => ⟨fun h => by simp [Cluster.start, Node.fresh] at h,
    fun h => by simp [Cluster.start, Node.fresh, Pc.inMap] at h,
    fun h => by simp [Cluster.start, Node.fresh, Pc.hasLock] at h,
    fun _ h => by simp [Cluster.start, Node.fresh] at h,
    fun _ h => by simp [Cluster.start, Node.fresh] at h⟩

omit [DecidableEq ι] in
/-- A node that is not about to commit has no part in the open write. -/
theorem nodeInv_of_ne_commit {t : LockTable ι} {i : ι} {n : Node}
    (hreg : n.hasChangeLogLock = true → n.registered = true)
    (hmap : n.pc.inMap = true → n.registered = true)
    (hlock : n.pc.hasLock = true → n.hasChangeLogLock = true)
    (hne : n.pc ≠ .acquireCommit ∧ n.pc ≠ .releaseCommit) : NodeInv t i n :=
  ⟨hreg, hmap, hlock, fun _ h => absurd h hne.1, fun _ h => absurd h hne.2⟩

omit [DecidableEq ι] in
/-- A quiet move of a node keeps what is true of it, whatever becomes of
the row. -/
theorem NodeInv.move {t t' : LockTable ι} {i : ι} {n : Node} {pc : Pc} (h : NodeInv t i n)
    (hquiet : n.pc.Quiet pc) : NodeInv t' i { n with pc } :=
  nodeInv_of_ne_commit h.registered (fun hp => h.inMap (hquiet.1 hp))
    (fun hp => h.hasLock (hquiet.2.1 hp)) hquiet.2.2

variable {S S' : Cluster ι} {i : ι} {n : Node} {kind : DatabaseKind}

/-- The flags after a node has changed and kept its flag. -/
theorem flag_update (hflag : n.hasChangeLogLock = (S.node i).hasChangeLogLock) (j : ι) :
    (Function.update S.node i n j).hasChangeLogLock = (S.node j).hasChangeLogLock := by
  by_cases hj : j = i
  · subst hj
    rw [Function.update_self, hflag]
  · rw [Function.update_of_ne hj]

/-- What is true of each node after one of them has changed. -/
theorem nodeInv_update {t : LockTable ι} (hn : NodeInv t i n)
    (hothers : ∀ j, j ≠ i → NodeInv t j (S.node j)) (j : ι) :
    NodeInv t j (Function.update S.node i n j) := by
  by_cases hj : j = i
  · subst hj
    rwa [Function.update_self]
  · rw [Function.update_of_ne hj]
    exact hothers j hj

/-- **A step of one node that leaves its flag and the content of the row**
keeps the invariant, when the open write it leaves is allowed and the
other nodes still have theirs. -/
theorem inv_of_same_flag {t : LockTable ι} (hS : Inv S)
    (hflag : n.hasChangeLogLock = (S.node i).hasChangeLogLock)
    (hlocked : t.locked = S.table.locked)
    (hopen : ∀ j v, t.uncommitted = some (j, v) →
      (v = some trueBooleanValue ∧ S.table.locked = some falseBooleanValue) ∨
        (v = some falseBooleanValue ∧ (S.node j).hasChangeLogLock = true))
    (hothers : ∀ j v, j ≠ i → S.table.uncommitted = some (j, v) → t.uncommitted = some (j, v))
    (hn : NodeInv t i n) : Inv (({ S with table := t } : Cluster ι).setNode i n) where
  content := by
    change t.locked = _ ∨ t.locked = _
    rw [hlocked]
    exact hS.content
  held := fun j hj => by
    change t.locked = _
    rw [hlocked]
    exact hS.held j ((flag_update hflag j).symm.trans hj)
  unique := fun j k hj hk =>
    hS.unique j k ((flag_update hflag j).symm.trans hj) ((flag_update hflag k).symm.trans hk)
  open_write := fun j v hj => by
    change (_ ∧ t.locked = _) ∨ (_ ∧ (Function.update S.node i n j).hasChangeLogLock = true)
    rw [hlocked, flag_update hflag j]
    exact hopen j v hj
  node := nodeInv_update hn fun j hj => by
    have hold := hS.node j
    exact ⟨hold.registered, hold.inMap, hold.hasLock,
      fun hs hpc => hothers j _ hj (hold.acquireCommit hs hpc),
      fun hs hpc => hothers j _ hj (hold.releaseCommit hs hpc)⟩

/-- A step that leaves the row altogether. -/
theorem inv_of_same_table (hS : Inv S) (hflag : n.hasChangeLogLock = (S.node i).hasChangeLogLock)
    (hn : NodeInv S.table i n) : Inv (S.setNode i n) :=
  inv_of_same_flag hS hflag rfl hS.open_write (fun _ _ _ h => h) hn

/-- A rollback of the node. -/
theorem inv_of_rollback (hS : Inv S) (hflag : n.hasChangeLogLock = (S.node i).hasChangeLogLock)
    (hn : NodeInv (S.table.rollback i) i n) :
    Inv (({ S with table := S.table.rollback i } : Cluster ι).setNode i n) :=
  inv_of_same_flag hS hflag LockTable.rollback_locked
    (fun j v hj => hS.open_write j v (LockTable.rollback_uncommitted.1 hj).1)
    (fun _ _ hj h => LockTable.rollback_uncommitted.2 ⟨h, hj⟩) hn

/-- A quiet move. -/
theorem inv_of_move {pc : Pc} (hS : Inv S) (hquiet : (S.node i).pc.Quiet pc) :
    Inv (S.setNode i { S.node i with pc }) :=
  inv_of_same_table hS rfl ((hS.node i).move hquiet)

/-- A quiet move with a rollback. -/
theorem inv_of_move_rollback {pc : Pc} (hS : Inv S) (hquiet : (S.node i).pc.Quiet pc) :
    Inv (({ S with table := S.table.rollback i } : Cluster ι).setNode i { S.node i with pc }) :=
  inv_of_rollback hS rfl ((hS.node i).move hquiet)

/-- A write of the node: that of an acquisition on an unlocked row, or
that of a release. -/
theorem inv_of_write {v : Locked} {t : LockTable ι} (hS : Inv S)
    (hflag : n.hasChangeLogLock = (S.node i).hasChangeLogLock) (hwrite : S.table.write i v = some t)
    (hv : (v = some trueBooleanValue ∧ S.table.locked = some falseBooleanValue) ∨
      (v = some falseBooleanValue ∧ (S.node i).hasChangeLogLock = true))
    (hn : NodeInv t i n) : Inv (({ S with table := t } : Cluster ι).setNode i n) := by
  obtain ⟨rfl, halone⟩ := LockTable.write_eq_some hwrite
  refine inv_of_same_flag hS hflag rfl (fun j w hj => ?_) (fun j w hj h => ?_) hn
  · rw [Option.some.injEq, Prod.mk.injEq] at hj
    obtain ⟨rfl, rfl⟩ := hj
    exact hv
  · exact absurd (halone j w h) hj

omit [DecidableEq ι] in
/-- A node is not about to commit while the open write is another's. -/
theorem nodeInv_of_other_writer {t : LockTable ι} {j : ι} {v : Locked} (hS : Inv S)
    (hopen : S.table.uncommitted = some (i, v)) (hji : j ≠ i) : NodeInv t j (S.node j) := by
  have hold := hS.node j
  refine ⟨hold.registered, hold.inMap, hold.hasLock, fun hs hpc => ?_, fun hs hpc => ?_⟩
  · have hother := hold.acquireCommit hs hpc
    rw [hopen, Option.some.injEq, Prod.mk.injEq] at hother
    exact absurd hother.1.symm hji
  · have hother := hold.releaseCommit hs hpc
    rw [hopen, Option.some.injEq, Prod.mk.injEq] at hother
    exact absurd hother.1.symm hji

/-- While no node has the flag, one may take it with its commit. -/
theorem inv_of_acquireCommit (hS : Inv S) (hs : (S.node i).stopped = false)
    (hpc : (S.node i).pc = .acquireCommit) (hreg : n.registered = true)
    (hflag : n.hasChangeLogLock = true) (hlock : n.pc = .acquireFinally .locked) :
    Inv (({ S with table := S.table.commit i } : Cluster ι).setNode i n) := by
  have hopen := (hS.node i).acquireCommit hs hpc
  rw [LockTable.commit_of_uncommitted hopen]
  have hfree : S.table.locked = some falseBooleanValue := by
    rcases hS.open_write i _ hopen with ⟨-, hF⟩ | ⟨hne, -⟩
    · exact hF
    · exact absurd hne (by decide)
  -- the committed row was unlocked, so nobody had the flag
  have hnone : ∀ j, (S.node j).hasChangeLogLock = true → j = i := by
    intro j hj
    have hT := hS.held j hj
    rw [hfree] at hT
    exact absurd hT (by decide)
  have honly : ∀ j, (Function.update S.node i n j).hasChangeLogLock = true → j = i := by
    intro j hj
    by_cases hji : j = i
    · exact hji
    · rw [Function.update_of_ne hji] at hj
      exact hnone j hj
  refine ⟨Or.inl rfl, fun _ _ => rfl, fun j k hj hk => (honly j hj).trans (honly k hk).symm,
    fun j v hj => (nomatch hj), ?_⟩
  refine nodeInv_update (S := S) ?_ fun j hji => nodeInv_of_other_writer hS hopen hji
  exact nodeInv_of_ne_commit (fun _ => hreg) (fun _ => hreg) (fun _ => hflag)
    (by rw [hlock]; decide)

/-- The node that has the flag gives it back with its commit. -/
theorem inv_of_releaseCommit (hS : Inv S) (hs : (S.node i).stopped = false)
    (hpc : (S.node i).pc = .releaseCommit) (hflag : n.hasChangeLogLock = false)
    (hlock : n.pc = .releaseFinally true) :
    Inv (({ S with table := S.table.commit i } : Cluster ι).setNode i n) := by
  have hopen := (hS.node i).releaseCommit hs hpc
  rw [LockTable.commit_of_uncommitted hopen]
  have hhas : (S.node i).hasChangeLogLock = true :=
    (hS.node i).hasLock (by rw [hpc]; rfl)
  -- the node was the only one with the flag
  have hfree : ∀ j, (Function.update S.node i n j).hasChangeLogLock = true → False := by
    intro j hj
    by_cases hji : j = i
    · subst hji
      rw [Function.update_self, hflag] at hj
      cases hj
    · rw [Function.update_of_ne hji] at hj
      exact hji (hS.unique j i hj hhas)
  refine ⟨Or.inr rfl, fun j hj => (hfree j hj).elim, fun j k hj => (hfree j hj).elim,
    fun j v hj => (nomatch hj), ?_⟩
  refine nodeInv_update (S := S) ?_ fun j hji => nodeInv_of_other_writer hS hopen hji
  refine nodeInv_of_ne_commit (fun h => ?_) (fun h => ?_) (fun h => ?_) (by rw [hlock]; decide)
  · rw [hflag] at h
    cases h
  · rw [hlock] at h
    cases h
  · rw [hlock] at h
    cases h

/-! ## The steps -/

omit [DecidableEq ι] in
/-- The clause takes only an unlocked row. -/
theorem locked_of_whereMatches (hS : Inv S) (h : whereMatches kind S.table.locked = true) :
    S.table.locked = some falseBooleanValue := by
  rcases hS.content with hT | hF
  · rw [hT] at h
    cases kind <;> exact absurd h (by decide)
  · exact hF

/-- The write of an acquisition: it is judged on a committed `'F'`. -/
theorem inv_of_acquireUpdate (hS : Inv S) (hpc : (S.node i).pc = .acquireUpdate)
    (hmatch : whereMatches kind S.table.locked = true) {t : LockTable ι}
    (hwrite : S.table.write i (some trueBooleanValue) = some t) :
    Inv (({ S with table := t } : Cluster ι).setNode i
      { S.node i with pc := .acquireCommit }) := by
  have hnode := hS.node i
  refine inv_of_write hS rfl hwrite (Or.inl ⟨rfl, locked_of_whereMatches hS hmatch⟩) ?_
  obtain ⟨rfl, -⟩ := LockTable.write_eq_some hwrite
  exact ⟨hnode.registered, fun _ => hnode.inMap (by rw [hpc]; rfl), fun hp => (nomatch hp),
    fun _ _ => rfl, fun _ hp => (nomatch hp)⟩

/-- The write of a release: the node has the lock. -/
theorem inv_of_releaseUnlock (hS : Inv S) (hpc : (S.node i).pc = .releaseUnlock)
    {t : LockTable ι} (hwrite : S.table.write i (some falseBooleanValue) = some t) :
    Inv (({ S with table := t } : Cluster ι).setNode i
      { S.node i with pc := .releaseCommit }) := by
  have hnode := hS.node i
  have hhas : (S.node i).hasChangeLogLock = true := hnode.hasLock (by rw [hpc]; rfl)
  refine inv_of_write hS rfl hwrite (Or.inr ⟨rfl, hhas⟩) ?_
  obtain ⟨rfl, -⟩ := LockTable.write_eq_some hwrite
  exact ⟨hnode.registered, fun _ => hnode.inMap (by rw [hpc]; rfl), fun _ => hhas,
    fun _ hp => (nomatch hp), fun _ _ => rfl⟩

/-- **A database call that returns.** -/
theorem inv_of_returns (hS : Inv S) (hs : (S.node i).stopped = false)
    (h : S.returns kind i = some S') : Inv S' := by
  unfold Cluster.returns at h
  cases hpc : (S.node i).pc with
  | acquireRollback =>
      simp only [hpc, Option.some.injEq] at h
      exact h ▸ inv_of_move_rollback hS (by rw [hpc]; decide)
  | acquireTable =>
      simp only [hpc, Option.some.injEq] at h
      exact h ▸ inv_of_move hS (by rw [hpc]; decide)
  | acquireUpdate =>
      simp only [hpc] at h
      split at h
      · next hmatch =>
          obtain ⟨t, hwrite, rfl⟩ := Option.map_eq_some_iff.1 h
          exact inv_of_acquireUpdate hS hpc hmatch hwrite
      · -- another node was faster
        rw [Option.some.injEq] at h
        exact h ▸ inv_of_move hS (by rw [hpc]; decide)
  | acquireCommit =>
      simp only [hpc, Option.some.injEq] at h
      exact h ▸ inv_of_acquireCommit hS hs hpc ((hS.node i).inMap (by rw [hpc]; rfl)) rfl rfl
  | acquireFinally result =>
      simp only [hpc, Option.some.injEq] at h
      exact h ▸ inv_of_move_rollback hS (hpc ▸ Pc.quiet_afterAcquire result)
  | releaseTable =>
      simp only [hpc, Option.some.injEq] at h
      exact h ▸ inv_of_move hS (by rw [hpc]; decide)
  | releaseRollback =>
      simp only [hpc, Option.some.injEq] at h
      exact h ▸ inv_of_move_rollback hS (by rw [hpc]; decide)
  | releaseUnlock =>
      simp only [hpc] at h
      obtain ⟨t, hwrite, rfl⟩ := Option.map_eq_some_iff.1 h
      exact inv_of_releaseUnlock hS hpc hwrite
  | releaseCommit =>
      simp only [hpc, Option.some.injEq] at h
      exact h ▸ inv_of_releaseCommit hS hs hpc rfl rfl
  | releaseFinally released =>
      simp only [hpc, Option.some.injEq] at h
      exact h ▸ inv_of_move_rollback hS (hpc ▸ Pc.quiet_releaseFinally released)
  | idle => simp [hpc] at h
  | waiting => simp [hpc] at h
  | acquireSelect => simp [hpc] at h
  | changeLog => simp [hpc] at h

/-- A node that stops: what it has written stays open. -/
theorem inv_of_stop (hS : Inv S) : Inv (S.setNode i { S.node i with stopped := true }) := by
  have hnode := hS.node i
  exact inv_of_same_table hS rfl
    ⟨hnode.registered, hnode.inMap, hnode.hasLock, fun hs => (nomatch hs), fun hs => (nomatch hs)⟩

/-- A rollback that leaves the node where it is. -/
theorem inv_of_rollback_only (hS : Inv S) (hn : NodeInv (S.table.rollback i) i (S.node i)) :
    Inv (⟨S.table.rollback i, S.node⟩ : Cluster ι) := by
  have hsame : S.node = Function.update S.node i (S.node i) := (Function.update_eq_self i _).symm
  have hinv : Inv (({ S with table := S.table.rollback i } : Cluster ι).setNode i (S.node i)) :=
    inv_of_rollback hS rfl hn
  rwa [Cluster.setNode, ← hsame] at hinv

/-- The database takes back the transaction of a node that has stopped. -/
theorem inv_of_disconnect (hS : Inv S) (hs : (S.node i).stopped = true) :
    Inv (⟨S.table.rollback i, S.node⟩ : Cluster ι) := by
  have hnode := hS.node i
  exact inv_of_rollback_only hS ⟨hnode.registered, hnode.inMap, hnode.hasLock,
    fun hrun => by simp [hs] at hrun, fun hrun => by simp [hs] at hrun⟩

/-- The change log takes back what its connection has written. -/
theorem inv_of_rollsBack (hS : Inv S) (hpc : (S.node i).pc = .changeLog) :
    Inv (⟨S.table.rollback i, S.node⟩ : Cluster ι) := by
  have hnode := hS.node i
  exact inv_of_rollback_only hS (nodeInv_of_ne_commit hnode.registered hnode.inMap hnode.hasLock
    (by rw [hpc]; decide))

/-- A commit without a write of its connection leaves the row. -/
theorem inv_of_commits (hS : Inv S) (hwriter : S.table.isWriter i = false) :
    Inv (⟨S.table.commit i, S.node⟩ : Cluster ι) := by
  rwa [LockTable.commit_of_not_isWriter hwriter]

/-- A call of `update`: the service of the node is taken from the map of
instances, or made. -/
theorem inv_of_update (hS : Inv S) :
    Inv (S.setNode i { S.node i with
      pc := .waiting
      hasChangeLogLock := (S.node i).registered && (S.node i).hasChangeLogLock
      registered := true }) := by
  -- the flag is never set without an entry in the map
  have hflag : ((S.node i).registered && (S.node i).hasChangeLogLock) =
      (S.node i).hasChangeLogLock := by
    cases hh : (S.node i).hasChangeLogLock with
    | true => rw [(hS.node i).registered hh]; rfl
    | false => rw [Bool.and_false]
  exact inv_of_same_table hS hflag
    (nodeInv_of_ne_commit (fun _ => rfl) (fun _ => rfl) (fun hp => by cases hp) (by simp))

/-- A round of `waitForLock`: only a service that has the lock comes to
the change log. -/
theorem inv_of_attempt (hS : Inv S) (hpc : (S.node i).pc = .waiting) :
    Inv (S.setNode i { S.node i with
      pc := if (S.node i).hasChangeLogLock then .changeLog else .acquireRollback }) := by
  have hnode := hS.node i
  refine inv_of_same_table hS rfl (nodeInv_of_ne_commit hnode.registered
    (fun _ => hnode.inMap (by rw [hpc]; rfl)) (fun hp => ?_) ?_)
  · cases hh : (S.node i).hasChangeLogLock with
    | true => rfl
    | false => simp [hh, Pc.hasLock] at hp
  · split <;> simp

/-- The change log does not commit what its connection has written of the
row: a release may have left it open. -/
def LeavesRow (S : Cluster ι) (a : ι × NodeAction) : Prop :=
  a.2 = .commits → S.table.isWriter a.1 = false

instance (S : Cluster ι) (a : ι × NodeAction) : Decidable (LeavesRow S a) :=
  inferInstanceAs (Decidable (_ → _))

/-- A step of a node that has not stopped. -/
theorem inv_of_act {action : NodeAction} (hS : Inv S) (hs : (S.node i).stopped = false)
    (hleaves : LeavesRow S (i, action)) (h : S.act kind i action = some S') : Inv S' := by
  unfold Cluster.act at h
  dsimp only at h
  split at h
  · rw [← Option.some.inj h]
    exact inv_of_update hS
  · next hpc =>
      rw [← Option.some.inj h]
      exact inv_of_attempt hS hpc
  · next hpc =>
      rw [← Option.some.inj h]
      exact inv_of_move hS (by rw [hpc]; decide)
  · exact Option.some.inj h ▸ inv_of_commits hS (hleaves rfl)
  · next hpc => exact Option.some.inj h ▸ inv_of_rollsBack hS hpc
  · next hpc =>
      rw [← Option.some.inj h]
      exact inv_of_move hS (by rw [hpc]; decide)
  · next value hpc =>
      rw [← Option.some.inj h]
      exact inv_of_move hS (hpc ▸ Pc.quiet_afterSelect _)
  · -- the call throws
    obtain ⟨pc', hfail, rfl⟩ := Option.map_eq_some_iff.1 h
    exact inv_of_move hS (Pc.quiet_of_afterFailure hfail)
  · exact inv_of_returns hS hs h
  · cases h

/-- **Every step keeps the invariant** that leaves the row to the lock
service, whatever returns, throws or stops. -/
theorem inv_of_step {a : ι × NodeAction} (hS : Inv S) (hleaves : LeavesRow S a)
    (h : S.step kind a = some S') : Inv S' := by
  unfold Cluster.step at h
  split at h
  · split at h
    · next hs => exact Option.some.inj h ▸ inv_of_disconnect hS hs
    · cases h
  · exact Option.some.inj h ▸ inv_of_stop hS
  · split at h
    · cases h
    · next hs => exact inv_of_act hS (by simpa using hs) hleaves h

/-! ## Runs of the cluster -/

/-- `waitForLock` has returned at the node, and the commit of its
`releaseLock` has not: it is in the change log or in the release, or it
still has the lock because a release, or what stands behind the commit of
`acquireLock`, has failed. -/
def BetweenLockAndRelease (n : Node) : Prop :=
  n.pc.hasLock = true ∨ n.hasChangeLogLock = true

/-- No two nodes are. -/
def Exclusive (S : Cluster ι) : Prop :=
  ∀ i j, BetweenLockAndRelease (S.node i) → BetweenLockAndRelease (S.node j) → i = j

omit [DecidableEq ι] in
/-- A node there has the flag, and one node has it. -/
theorem exclusive_of_inv (hS : Inv S) : Exclusive S := by
  have hhas : ∀ k, BetweenLockAndRelease (S.node k) → (S.node k).hasChangeLogLock = true := by
    rintro k (hpc | hflag)
    · exact (hS.node k).hasLock hpc
    · exact hflag
  exact fun i j hi hj => hS.unique i j (hhas i hi) (hhas j hj)

/-- **No two nodes are between the lock and its release**, in any state
that any interleaving of their steps reaches, as long as no change log
commits the open unlock write of a release that has failed. -/
theorem exclusive_of_perform (kind : DatabaseKind) (locked : Bool) (steps : List (ι × NodeAction))
    (S : Cluster ι) (hleaves : Along (Cluster.step kind) LeavesRow (Cluster.start locked) steps)
    (hrun : perform (Cluster.step kind) (Cluster.start locked) steps = some S) :
    Exclusive S :=
  exclusive_of_inv (perform_invariant (fun _ _ _ hI hG hstep => inv_of_step hI hG hstep)
    (inv_start locked) hleaves hrun)

/-- A node gets the lock. -/
def getsLock (i : Bool) : List (Bool × NodeAction) :=
  [.update, .attempt, .returns, .returns, .selected (.string "F"), .returns, .returns,
    .returns].map fun action => (i, action)

/-- Two nodes find the row unlocked; one commits in its change log, the
other has updated no row. -/
def twoNodes : List (Bool × NodeAction) :=
  [(true, .update), (true, .attempt), (true, .returns), (true, .returns),
    (true, .selected (.string "F"))] ++ getsLock false ++
    [(true, .returns), (false, .commits), (true, .returns)]

/-- The cluster they have reached. -/
def afterTwoNodes : Cluster Bool :=
  (perform (Cluster.step .other) (Cluster.start false) twoNodes).getD (Cluster.start false)

theorem exclusive_of_perform_twoNodes :
    (afterTwoNodes.node false).pc = .changeLog ∧ (afterTwoNodes.node true).pc = .waiting ∧
      Exclusive afterTwoNodes :=
  ⟨rfl, rfl, exclusive_of_perform .other false twoNodes _ (by decide) rfl⟩

/-- A release of which the commit and the last rollback fail: its write of
the row stays open, and the flag stays set. The next update of the node
comes to its change log at once, which commits the write. -/
def failedRelease : List (Bool × NodeAction) :=
  getsLock false ++
    [.finish, .returns, .returns, .returns, .fails true, .fails true, .update, .attempt,
      .commits].map fun action => (false, action)

/-- **Two nodes run their change logs**: the row says unlocked while the
first one is in its own. -/
theorem not_exclusive_of_failedRelease :
    ∃ S, perform (Cluster.step .other) (Cluster.start false) (failedRelease ++ getsLock true) =
        some S ∧ (S.node false).pc = .changeLog ∧ (S.node true).pc = .changeLog ∧
      ¬ Exclusive S := by
  refine ⟨_, rfl, rfl, rfl, fun h => ?_⟩
  exact Bool.false_ne_true (h false true (Or.inl rfl) (Or.inl rfl))

end Zooffice
