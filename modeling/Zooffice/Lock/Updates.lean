import Mathlib.Data.List.Nodup
import Zooffice.Lock.Exclusion
import Zooffice.Lock.Model.Updates
/-!
# Updates of the schema happen one after the other

The operations of the change logs of all nodes come in any order the
nodes' steps allow. The lock makes the schema what it would be had the
updates run one at a time (`Serial`): an update whose change log runs is
the last of the order so far, since nobody else can be in a change log,
and it is not in the order before its first operation. A change log that
commits the open unlock write of a release that has failed would give the
lock away, so the runs are those without such a commit (`LeavesLock`).

The lock has no end of its own. A node that stops while it has it keeps
every other node out of its change log from then on.
-/


namespace Zooffice

namespace Pc

/-- Where an update is that has not come to its change log. -/
def entering : Pc → Bool
  | waiting | acquireRollback | acquireTable | acquireSelect | acquireUpdate | acquireCommit
  | acquireFinally _ => true
  | _ => false

/-- A node may go from `pc` to `pc'` without calling `update`: no update
begins, and the change log is only entered. -/
def Onward (pc pc' : Pc) : Prop :=
  (pc'.entering = true → pc.entering = true) ∧
    (pc' = changeLog → pc = changeLog ∨ pc.entering = true)

instance (pc pc' : Pc) : Decidable (Onward pc pc') := inferInstanceAs (Decidable (_ ∧ _))

theorem Onward.refl (pc : Pc) : pc.Onward pc := ⟨id, Or.inl⟩

theorem onward_of_afterFailure {pc pc' : Pc} {isDatabaseException : Bool}
    (h : pc.afterFailure isDatabaseException = some pc') : pc.Onward pc' := by
  cases pc with
  | acquireFinally result => cases result <;> cases isDatabaseException <;> cases h <;> decide
  | releaseFinally released => cases released <;> cases h <;> decide
  | _ => cases h <;> decide

theorem onward_afterSelect (x : Except Throwable Bool) : acquireSelect.Onward (afterSelect x) := by
  rcases x with e | locked
  · exact (by decide : acquireSelect.Onward (acquireFinally .threw))
  · cases locked <;> decide

theorem onward_afterAcquire (result : Acquired) :
    (acquireFinally result).Onward (afterAcquire result) := by
  cases result <;> decide

theorem onward_releaseFinally (released : Bool) : (releaseFinally released).Onward idle := by
  cases released <;> decide

end Pc

namespace Cluster

variable {ι : Type} [DecidableEq ι] {S S' : Cluster ι} {i : ι} {kind : DatabaseKind}

@[simp] theorem setNode_self (S : Cluster ι) (i : ι) (n : Node) : (S.setNode i n).node i = n :=
  Function.update_self ..

theorem setNode_of_ne {j : ι} (hj : j ≠ i) (n : Node) : (S.setNode i n).node j = S.node j :=
  Function.update_of_ne hj ..

/-- The node `i` has gone onward, and no other has moved. -/
def Advances (S S' : Cluster ι) (i : ι) : Prop :=
  (S.node i).pc.Onward (S'.node i).pc ∧ ∀ j, j ≠ i → S'.node j = S.node j

theorem advances_setNode {t : LockTable ι} {pc : Pc} {flag registered stopped : Bool}
    (h : (S.node i).pc.Onward pc) :
    S.Advances (({ S with table := t } : Cluster ι).setNode i ⟨pc, flag, registered, stopped⟩) i :=
  ⟨by rwa [setNode_self], fun _ hj => setNode_of_ne hj _⟩

/-- A database call that returns. -/
theorem advances_of_returns (h : S.returns kind i = some S') : S.Advances S' i := by
  unfold Cluster.returns at h
  cases hpc : (S.node i).pc with
  | acquireUpdate =>
      simp only [hpc] at h
      split at h
      · obtain ⟨t, -, rfl⟩ := Option.map_eq_some_iff.1 h
        exact advances_setNode (by rw [hpc]; decide)
      · exact Option.some.inj h ▸ advances_setNode (t := S.table) (by rw [hpc]; decide)
  | releaseUnlock =>
      simp only [hpc] at h
      obtain ⟨t, -, rfl⟩ := Option.map_eq_some_iff.1 h
      exact advances_setNode (by rw [hpc]; decide)
  | acquireFinally result =>
      simp only [hpc, Option.some.injEq] at h
      exact h ▸ advances_setNode (hpc ▸ Pc.onward_afterAcquire result)
  | releaseFinally released =>
      simp only [hpc, Option.some.injEq] at h
      exact h ▸ advances_setNode (hpc ▸ Pc.onward_releaseFinally released)
  | idle | waiting | acquireSelect | changeLog => simp [hpc] at h
  | _ =>
      simp only [hpc, Option.some.injEq] at h
      exact h ▸ advances_setNode (by rw [hpc]; decide)

/-- A step of a node that has not stopped, unless it calls `update`. -/
theorem advances_of_act {action : NodeAction} (hne : action ≠ .update)
    (h : S.act kind i action = some S') : S.Advances S' i := by
  unfold Cluster.act at h
  dsimp only at h
  split at h
  · exact absurd rfl hne
  · next hpc =>
      refine Option.some.inj h ▸ advances_setNode (t := S.table) ?_
      rw [hpc]
      split <;> decide
  · next hpc =>
      exact Option.some.inj h ▸ advances_setNode (t := S.table) (by rw [hpc]; decide)
  · exact Option.some.inj h ▸ ⟨Pc.Onward.refl _, fun _ _ => rfl⟩
  · exact Option.some.inj h ▸ ⟨Pc.Onward.refl _, fun _ _ => rfl⟩
  · next hpc =>
      exact Option.some.inj h ▸ advances_setNode (t := S.table) (by rw [hpc]; decide)
  · next value hpc =>
      exact Option.some.inj h ▸ advances_setNode (t := S.table) (hpc ▸ Pc.onward_afterSelect _)
  · obtain ⟨pc', hfail, rfl⟩ := Option.map_eq_some_iff.1 h
    exact advances_setNode (t := S.table) (Pc.onward_of_afterFailure hfail)
  · exact advances_of_returns h
  · cases h

/-- A call of `update`. -/
theorem node_of_update (h : S.act kind i .update = some S') :
    (S'.node i).pc = .waiting ∧ ∀ j, j ≠ i → S'.node j = S.node j := by
  cases hpc : (S.node i).pc with
  | idle =>
      simp only [Cluster.act, hpc, Option.some.injEq] at h
      subst h
      exact ⟨by rw [setNode_self], fun _ hj => setNode_of_ne hj _⟩
  | _ => simp [Cluster.act, hpc] at h

/-- **What a step does to the nodes.** Its own has called `update` and
waits, or has gone onward; the others are as before. -/
theorem node_of_step {a : ι × NodeAction} (h : S.step kind a = some S') :
    (a.2 = .update → (S'.node a.1).pc = .waiting ∧ ∀ j, j ≠ a.1 → S'.node j = S.node j) ∧
      (a.2 ≠ .update → S.Advances S' a.1) := by
  obtain ⟨i, action⟩ := a
  unfold Cluster.step at h
  dsimp only at h ⊢
  split at h
  · split at h
    · obtain rfl := Option.some.inj h
      exact ⟨nofun, fun _ => ⟨Pc.Onward.refl _, fun _ _ => rfl⟩⟩
    · cases h
  · exact ⟨nofun, fun _ =>
      Option.some.inj h ▸ advances_setNode (t := S.table) (Pc.Onward.refl _)⟩
  · split at h
    · cases h
    · refine ⟨fun hupdate => ?_, fun hne => advances_of_act hne h⟩
      subst hupdate
      exact node_of_update h

/-- The other nodes are as before in either case. -/
theorem node_of_step_of_ne {a : ι × NodeAction} {j : ι} (h : S.step kind a = some S')
    (hj : j ≠ a.1) : S'.node j = S.node j := by
  by_cases hupdate : a.2 = .update
  · exact ((node_of_step h).1 hupdate).2 j hj
  · exact ((node_of_step h).2 hupdate).2 j hj

/-- A commit of the change log leaves the nodes where they are. -/
theorem of_step_commits (h : S.step kind (i, .commits) = some S') :
    (S.node i).stopped = false ∧ (S.node i).pc = .changeLog ∧ S'.node = S.node := by
  simp only [Cluster.step, Option.ite_none_left_eq_some, Bool.not_eq_true] at h
  obtain ⟨hstopped, h⟩ := h
  cases hpc : (S.node i).pc with
  | changeLog =>
      simp only [Cluster.act, hpc, Option.some.injEq] at h
      exact ⟨hstopped, rfl, h ▸ rfl⟩
  | _ => simp [Cluster.act, hpc] at h

/-- A node that has stopped stays where it is. -/
theorem node_of_stopped {a : ι × NodeAction} {j : ι} (h : S.step kind a = some S')
    (hstopped : (S.node j).stopped = true) : S'.node j = S.node j := by
  by_cases hj : j = a.1
  · subst hj
    unfold Cluster.step at h
    split at h
    · rw [if_pos hstopped] at h
      exact (Option.some.inj h) ▸ rfl
    · obtain rfl := Option.some.inj h
      rw [setNode_self]
      cases hn : S.node a.1
      rw [hn] at hstopped
      simp only at hstopped
      subst hstopped
      rfl
    · rw [if_pos hstopped] at h
      cases h
  · exact node_of_step_of_ne h hj

end Cluster

/-! ## The order of the updates -/

namespace Updating

variable {ι σ β : Type}

/-- The schema after one operation more. -/
theorem executeAll_append_singleton (execute : β → σ → σ) (operations : List β) (operation : β)
    (s : σ) : executeAll execute (operations ++ [operation]) s =
      execute operation (executeAll execute operations s) := by
  simp [executeAll]

/-- The updates in this order, one after the other, make the schema. What
`entering` and `last` say of the node that may go on is what keeps the
order when it does. -/
structure Serial (execute : β → σ → σ) (schema : σ) (S : Updating ι σ β)
    (order : List (ι × Nat)) : Prop where
  schema : S.schema = executeAll execute (order.flatMap S.performed) schema
  mem : ∀ k, S.performed k ≠ [] → k ∈ order
  sorted : order.Pairwise fun k l => k.1 = l.1 → k.2 < l.2
  le : ∀ k ∈ order, k.2 ≤ S.started k.1
  entering : ∀ i, (S.cluster.node i).pc.entering = true → S.current i ∉ order
  last : ∀ i, (S.cluster.node i).pc = .changeLog → S.current i ∈ order →
    ∃ before, order = before ++ [S.current i]

/-- No update is twice in an order. -/
theorem nodup_of_sorted {order : List (ι × Nat)}
    (h : order.Pairwise fun k l => k.1 = l.1 → k.2 < l.2) : order.Nodup :=
  h.imp fun hlt heq => by
    subst heq
    exact absurd (hlt rfl) (Nat.lt_irrefl _)

variable [DecidableEq ι] {execute : β → σ → σ} {schema : σ} {S S' : Updating ι σ β}
  {order : List (ι × Nat)} {kind : DatabaseKind} {i : ι}

omit [DecidableEq ι] in
theorem serial_start (locked : Bool) :
    Serial execute schema (start locked schema : Updating ι σ β) [] where
  schema := rfl
  mem := fun _ h => absurd rfl h
  sorted := List.Pairwise.nil
  le := nofun
  entering := fun _ _ => List.not_mem_nil
  last := fun _ _ h => absurd h List.not_mem_nil

/-- A call of `update` makes a new update, which has performed nothing. -/
theorem serial_of_update {cluster : Cluster ι} (hS : Serial execute schema S order)
    (hwaits : (cluster.node i).pc = .waiting)
    (hothers : ∀ j, j ≠ i → cluster.node j = S.cluster.node j) :
    Serial execute schema
      { S with cluster, started := Function.update S.started i (S.started i + 1) } order := by
  -- its number is beyond those of all updates of its node
  have hfresh : (i, S.started i + 1) ∉ order := fun hmem => by
    have hle : S.started i + 1 ≤ S.started i := hS.le _ hmem
    omega
  refine ⟨hS.schema, hS.mem, hS.sorted, fun k hk => ?_, fun j hj => ?_, fun j hj hmem => ?_⟩
  · have hle := hS.le k hk
    change k.2 ≤ Function.update S.started i _ k.1
    by_cases hki : k.1 = i
    · rw [hki] at hle ⊢
      rw [Function.update_self]
      omega
    · rwa [Function.update_of_ne hki]
  · change (j, Function.update S.started i _ j) ∉ order
    by_cases hji : j = i
    · rw [hji, Function.update_self]
      exact hfresh
    · rw [Function.update_of_ne hji]
      exact hS.entering j (hothers j hji ▸ hj)
  · have hji : j ≠ i := by
      rintro rfl
      exact absurd (hwaits.symm.trans hj) (by decide)
    change (j, Function.update S.started i _ j) ∈ order at hmem
    change ∃ before, order = before ++ [(j, Function.update S.started i _ j)]
    rw [Function.update_of_ne hji] at hmem ⊢
    exact hS.last j (hothers j hji ▸ hj) hmem

/-- A node that goes onward begins no update. -/
theorem serial_of_advances {cluster : Cluster ι} (hS : Serial execute schema S order)
    (hadvances : S.cluster.Advances cluster i) :
    Serial execute schema { S with cluster } order := by
  obtain ⟨honward, hothers⟩ := hadvances
  refine ⟨hS.schema, hS.mem, hS.sorted, hS.le, fun j hj => ?_, fun j hj hmem => ?_⟩
  · by_cases hji : j = i
    · subst hji
      exact hS.entering j (honward.1 hj)
    · exact hS.entering j (hothers j hji ▸ hj)
  · by_cases hji : j = i
    · subst hji
      rcases honward.2 hj with hlog | hentering
      · exact hS.last j hlog hmem
      · exact absurd hmem (hS.entering j hentering)
    · exact hS.last j (hothers j hji ▸ hj) hmem

/-- **A step of the lock service keeps the order.** -/
theorem serial_of_lockService {action : NodeAction} (hS : Serial execute schema S order)
    (h : S.step kind execute (i, .lockService action) = some S') :
    Serial execute schema S' order := by
  obtain ⟨cluster, hstep, rfl⟩ := Option.map_eq_some_iff.1 h
  obtain ⟨hcalled, hadvances⟩ := Cluster.node_of_step hstep
  by_cases hupdate : action = .update
  · dsimp only
    rw [if_pos hupdate]
    exact serial_of_update hS (hcalled hupdate).1 (hcalled hupdate).2
  · dsimp only
    rw [if_neg hupdate]
    exact serial_of_advances hS (hadvances hupdate)

omit [DecidableEq ι] in
/-- Only the node whose change log runs may go on with its update. -/
theorem eq_of_changeLog (hI : Inv S.cluster) {j : ι} (hi : (S.cluster.node i).pc = .changeLog)
    (hj : (S.cluster.node j).pc = .changeLog) : j = i :=
  hI.unique j i ((hI.node j).hasLock (by rw [hj]; rfl)) ((hI.node i).hasLock (by rw [hi]; rfl))

theorem operate_performed_current (operation : β) :
    (S.operate execute i operation).performed (S.current i) =
      S.performed (S.current i) ++ [operation] :=
  Function.update_self ..

theorem operate_performed_of_ne {k : ι × Nat} (hk : k ≠ S.current i) (operation : β) :
    (S.operate execute i operation).performed k = S.performed k :=
  Function.update_of_ne hk ..

omit [DecidableEq ι] in
/-- The order may be read with the update that runs at `i` as its last: it
is there, or has performed nothing yet. -/
theorem exists_last (hS : Serial execute schema S order)
    (hpc : (S.cluster.node i).pc = .changeLog) :
    ∃ before, S.current i ∉ before ∧ (∀ k ∈ before, k ∈ order) ∧
      (∀ k ∈ order, k ∈ before ++ [S.current i]) ∧
      (before ++ [S.current i]).Pairwise (fun k l => k.1 = l.1 → k.2 < l.2) ∧
      (before ++ [S.current i]).flatMap S.performed = order.flatMap S.performed := by
  by_cases hin : S.current i ∈ order
  · obtain ⟨before, rfl⟩ := hS.last i hpc hin
    refine ⟨before, fun h => ?_, fun k h => List.mem_append_left _ h, fun _ h => h, hS.sorted, rfl⟩
    have hlt := (List.pairwise_append.1 hS.sorted).2.2 _ h _ (List.mem_singleton_self _) rfl
    exact absurd hlt (Nat.lt_irrefl _)
  · refine ⟨order, hin, fun _ h => h, fun _ h => List.mem_append_left _ h, ?_, ?_⟩
    · refine List.pairwise_append.2 ⟨hS.sorted, List.pairwise_singleton _ _, ?_⟩
      intro k hk l hl hnode
      obtain rfl := List.mem_singleton.1 hl
      have hle : k.2 ≤ S.started i := (congrArg S.started hnode) ▸ hS.le k hk
      refine Nat.lt_of_le_of_ne hle fun hnumber => hin ?_
      exact (Prod.ext hnode hnumber : k = S.current i) ▸ hk
    · have hnone : S.performed (S.current i) = [] := by
        by_contra hne
        exact hin (hS.mem _ hne)
      rw [List.flatMap_append, List.flatMap_singleton, hnone, List.append_nil]

/-- **An operation goes to the end of the order**, with its update. -/
theorem serial_of_operate (operation : β) (hI : Inv S.cluster)
    (hS : Serial execute schema S order) (hpc : (S.cluster.node i).pc = .changeLog) :
    ∃ order', Serial execute schema (S.operate execute i operation) order' := by
  obtain ⟨before, hnot, hle, hmem, hsorted, hkeep⟩ := exists_last hS hpc
  have hbefore : before.flatMap (S.operate execute i operation).performed =
      before.flatMap S.performed :=
    List.flatMap_congr fun _ hl => operate_performed_of_ne (ne_of_mem_of_not_mem hl hnot) _
  refine ⟨before ++ [S.current i], ?_, fun k hk => ?_, hsorted, fun k hk => ?_, fun j hj hin => ?_,
    fun j hj _ => ?_⟩
  · rw [List.flatMap_append, List.flatMap_singleton] at hkeep
    rw [List.flatMap_append, hbefore, List.flatMap_singleton, operate_performed_current,
      ← List.append_assoc, executeAll_append_singleton, hkeep, ← hS.schema]
    rfl
  · by_cases hki : k = S.current i
    · exact hki ▸ List.mem_append_right _ (List.mem_singleton_self _)
    · exact hmem k (hS.mem k (operate_performed_of_ne hki operation ▸ hk))
  · rcases List.mem_append.1 hk with hk | hk
    · exact hS.le k (hle k hk)
    · exact List.mem_singleton.1 hk ▸ Nat.le_refl _
  · rcases List.mem_append.1 hin with hin | hin
    · exact hS.entering j hj (hle _ hin)
    · -- the node `i` is in its change log
      have hji : j = i := congrArg Prod.fst (List.mem_singleton.1 hin)
      rw [hji] at hj
      change (S.cluster.node i).pc.entering = true at hj
      rw [hpc] at hj
      cases hj
  · exact ⟨before, eq_of_changeLog hI hpc hj ▸ rfl⟩

/-- No change log commits what its connection has written of the row. -/
def LeavesLock (S : Updating ι σ β) (a : ι × UpdateAction β) : Prop :=
  LeavesRow S.cluster (a.1, a.2.nodeAction)

instance (S : Updating ι σ β) (a : ι × UpdateAction β) : Decidable (LeavesLock S a) :=
  inferInstanceAs (Decidable (LeavesRow _ _))

/-- What every reached state satisfies. -/
def Reached (execute : β → σ → σ) (schema : σ) (S : Updating ι σ β) : Prop :=
  Inv S.cluster ∧ ∃ order, Serial execute schema S order

theorem reached_of_step {a : ι × UpdateAction β} (hS : Reached execute schema S)
    (hleaves : LeavesLock S a) (h : S.step kind execute a = some S') :
    Reached execute schema S' := by
  obtain ⟨hI, order, hserial⟩ := hS
  obtain ⟨i, action | operation⟩ := a
  · refine ⟨?_, order, serial_of_lockService hserial h⟩
    obtain ⟨cluster, hstep, rfl⟩ := Option.map_eq_some_iff.1 h
    exact inv_of_step hI hleaves hstep
  · obtain ⟨cluster, hstep, rfl⟩ := Option.map_eq_some_iff.1 h
    obtain ⟨-, hpc, hnode⟩ := Cluster.of_step_commits hstep
    obtain ⟨order', hserial'⟩ := serial_of_operate operation hI hserial hpc
    refine ⟨inv_of_step hI hleaves hstep, order', serial_of_advances (i := i) hserial' ?_⟩
    exact ⟨hnode ▸ Pc.Onward.refl _, fun j _ => congrFun hnode j⟩

theorem reached_of_perform {locked : Bool} {steps : List (ι × UpdateAction β)}
    (hleaves : Along (step kind execute) LeavesLock (start locked schema) steps)
    (hrun : perform (step kind execute) (start locked schema) steps = some S) :
    Reached execute schema S :=
  perform_invariant (fun _ _ _ hI hG hstep => reached_of_step hI hG hstep)
    ⟨inv_start locked, [], serial_start locked⟩ hleaves hrun

/-- **The nodes update the schema one after the other.** Whatever
interleaving of the nodes' steps has led to a state, with whatever calls
that threw and nodes that stopped, its schema is what the updates make of
the first one when each performs all its operations in one go; and the
updates of one node come in the order it has started them. -/
theorem schema_of_perform (kind : DatabaseKind) (execute : β → σ → σ) (locked : Bool) (schema : σ)
    (steps : List (ι × UpdateAction β)) (S : Updating ι σ β)
    (hleaves : Along (step kind execute) LeavesLock (start locked schema) steps)
    (hrun : perform (step kind execute) (start locked schema) steps = some S) :
    ∃ order : List (ι × Nat), order.Nodup ∧
      (∀ k, S.performed k ≠ [] → k ∈ order) ∧
      order.Pairwise (fun k l => k.1 = l.1 → k.2 < l.2) ∧
      S.schema = executeAll execute (order.flatMap S.performed) schema := by
  obtain ⟨-, order, hserial⟩ := reached_of_perform hleaves hrun
  exact ⟨order, nodup_of_sorted hserial.sorted, hserial.mem, hserial.sorted, hserial.schema⟩

/-! ## A run of two nodes -/

/-- The calls of an `acquireLock` that locks the row. -/
def acquisition (i : Bool) : List (Bool × UpdateAction Nat) :=
  [.attempt, .returns, .returns, .selected (.string "F"), .returns, .returns, .returns].map
    fun action => (i, .lockService action)

/-- The change log ends, and `releaseLock` unlocks the row. -/
def release (i : Bool) : List (Bool × UpdateAction Nat) :=
  [.finish, .returns, .returns, .returns, .returns, .returns].map
    fun action => (i, .lockService action)

/-- Both nodes start; the second comes to its change log when the first
has released the lock, and stops in it. -/
def twoUpdates : List (Bool × UpdateAction Nat) :=
  [(false, .lockService .update), (true, .lockService .update)] ++ acquisition false ++
    [(false, .operate 1), (true, .lockService .attempt), (false, .operate 2),
      (true, .lockService (.fails true)), (true, .lockService .returns),
      (true, .lockService .update)] ++
    release false ++ acquisition true ++ [(true, .operate 3), (true, .lockService .stop)]

/-- An operation is entered in the schema. -/
def enter (operation : Nat) (schema : List Nat) : List Nat := schema ++ [operation]

/-- The state they have reached. -/
def afterTwoUpdates : Updating Bool (List Nat) Nat :=
  (perform (step .other enter) (start false []) twoUpdates).getD (start false [])

theorem schema_of_perform_twoUpdates :
    afterTwoUpdates.schema = [1, 2, 3] ∧ afterTwoUpdates.performed (false, 1) = [1, 2] ∧
      ∃ order : List (Bool × Nat), order.Nodup ∧
        (∀ k, afterTwoUpdates.performed k ≠ [] → k ∈ order) ∧
        order.Pairwise (fun k l => k.1 = l.1 → k.2 < l.2) ∧
        afterTwoUpdates.schema = executeAll enter (order.flatMap afterTwoUpdates.performed) [] :=
  ⟨rfl, rfl, schema_of_perform .other enter false [] twoUpdates _ (by decide) rfl⟩

/-! ## A node that stops with the lock -/

/-- The node `i` has stopped and has the lock, and the schema is this. -/
def LockedOut (i : ι) (schema : σ) (S : Updating ι σ β) : Prop :=
  Inv S.cluster ∧ (S.cluster.node i).stopped = true ∧
    (S.cluster.node i).hasChangeLogLock = true ∧ S.schema = schema

omit [DecidableEq ι] in
/-- No node but one that has stopped could be in a change log. -/
theorem not_inChangeLog (hS : LockedOut i schema S) (j : ι) : S.inChangeLog j = false := by
  obtain ⟨hI, hstopped, hflag, -⟩ := hS
  by_contra hlog
  simp only [inChangeLog, Bool.not_eq_false, Bool.and_eq_true, Bool.not_eq_true',
    decide_eq_true_eq] at hlog
  have hj : (S.cluster.node j).hasChangeLogLock = true :=
    (hI.node j).hasLock (by rw [hlog.2]; rfl)
  obtain rfl := hI.unique j i hj hflag
  exact absurd (hlog.1.symm.trans hstopped) (by decide)

/-- So nothing is committed but by the lock service. -/
theorem leavesRow_of_lockedOut {a : ι × NodeAction} {cluster : Cluster ι}
    (hS : LockedOut i schema S) (h : S.cluster.step kind a = some cluster) :
    LeavesRow S.cluster a := by
  obtain ⟨j, action⟩ := a
  rintro ⟨⟩
  obtain ⟨hrun, hpc, -⟩ := Cluster.of_step_commits h
  have hlog : S.inChangeLog j = true := by simp [inChangeLog, hrun, hpc]
  exact absurd hlog (by simp [not_inChangeLog hS j])

theorem lockedOut_of_step {a : ι × UpdateAction β} (hS : LockedOut i schema S)
    (h : S.step kind execute a = some S') : LockedOut i schema S' := by
  obtain ⟨cluster, hstep, rfl⟩ := Option.map_eq_some_iff.1 h
  have hleaves := leavesRow_of_lockedOut hS hstep
  have hout := not_inChangeLog hS
  obtain ⟨hI, hstopped, hflag, hschema⟩ := hS
  obtain ⟨j, action | operation⟩ := a
  · have hsame := Cluster.node_of_stopped hstep hstopped
    exact ⟨inv_of_step hI hleaves hstep, by rw [← hstopped]; exact congrArg Node.stopped hsame,
      by rw [← hflag]; exact congrArg Node.hasChangeLogLock hsame, hschema⟩
  · obtain ⟨hrun, hpc, -⟩ := Cluster.of_step_commits hstep
    exact absurd (hout j) (by simp [inChangeLog, hrun, hpc])

/-- **A node that stops between the lock and its release keeps it**: from
any state it may be in then, no step of any node, nor of the database that
takes back its transaction, leads to one where a change log runs or the
schema has changed. -/
theorem schema_of_stopped (kind : DatabaseKind) (execute : β → σ → σ) (locked : Bool) (schema : σ)
    (steps later : List (ι × UpdateAction β)) (S S' : Updating ι σ β) (i : ι)
    (hleaves : Along (step kind execute) LeavesLock (start locked schema) steps)
    (hrun : perform (step kind execute) (start locked schema) steps = some S)
    (hstopped : (S.cluster.node i).stopped = true)
    (hlock : BetweenLockAndRelease (S.cluster.node i))
    (hlater : perform (step kind execute) S later = some S') :
    S'.schema = S.schema ∧ ∀ j, S'.inChangeLog j = false := by
  have hI : Inv S.cluster := (reached_of_perform hleaves hrun).1
  have hflag : (S.cluster.node i).hasChangeLogLock = true :=
    hlock.elim (hI.node i).hasLock id
  have hout : LockedOut i S.schema S' :=
    perform_invariant_of_step (fun _ _ _ hS hstep => lockedOut_of_step hS hstep)
      ⟨hI, hstopped, hflag, rfl⟩ hlater
  exact ⟨hout.2.2.2, not_inChangeLog hout⟩

/-- The other node tries again when the second has stopped. -/
def tryAgain : List (Bool × UpdateAction Nat) :=
  [(false, .lockService .update), (true, .lockService .disconnect), (false, .lockService .attempt),
    (false, .lockService .returns)]

theorem schema_of_stopped_twoUpdates :
    ((perform (step .other enter) afterTwoUpdates tryAgain).getD (start false [])).schema =
        afterTwoUpdates.schema ∧
      ∀ j, ((perform (step .other enter) afterTwoUpdates tryAgain).getD
        (start false [])).inChangeLog j = false :=
  schema_of_stopped .other enter false [] twoUpdates tryAgain afterTwoUpdates _ true (by decide)
    rfl rfl (Or.inl rfl) rfl

end Updating

end Zooffice
