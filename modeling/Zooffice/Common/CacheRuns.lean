import Mathlib.Data.List.Induction
import Zooffice.Common.CacheCluster
/-!
# What caches beside one store answer

An answer that was got before a commit may be put after the eviction. So
what the cache of a node answers stays current from some moment on exactly
when no call holds an older answer then (`current_iff`); and it is never
older than the time an entry lives and the time a call takes to put it
(`hit_recent`). Calls that do not overlap read through one cache and evict
from it.
-/


namespace Zooffice

namespace CacheCluster

variable {ι τ σ κ ν ω : Type*} [DecidableEq ι] [DecidableEq κ] [DecidableEq τ]
  {P : CacheSetup ι τ σ κ ν ω} {S S' : CacheCluster ι τ σ κ ν ω}
  {a : CacheAction ι τ κ ω} {t : τ} {j : ι} {k : κ} {v : ν}

/-! ## What stays current -/

/-- The action changes no answer, and no eviction of the call is lost. -/
def SparesAll (P : CacheSetup ι τ σ κ ν ω) (t : τ) (S : CacheCluster ι τ σ κ ν ω)
    (a : CacheAction ι τ κ ω) : Prop :=
  ∀ j k, Spares P t j k S a

omit [DecidableEq ι] [DecidableEq τ] in
theorem evicted_evicted (c : Cache κ ν) (keys : Evicted κ) :
    evicted (evicted c (some keys)) (some keys) = evicted c (some keys) := by
  cases keys with
  | key k => exact Cache.evict_evict c k
  | allEntries => rfl

/-- A call can tell its peers, whoever else waits. -/
theorem exists_run_tellRest (keys : Evicted κ) (write : Option ω) (rest : List ι)
    (S : CacheCluster ι τ σ κ ν ω) (hcall : S.call t = tellRest keys write rest) :
    ∃ as S', Along (step P) (SparesAll P t) S as ∧ perform (step P) S as = some S' ∧
      S'.call t = afterEviction write ∧ S'.store = S.store ∧ S'.now = S.now ∧
      (∀ t', t' ≠ t → S'.call t' = S.call t') ∧ ∀ i, answers P S' i =
        if i ∈ rest then evicted (answers P S i) (some keys) else answers P S i := by
  induction rest generalizing S with
  | nil =>
      exact ⟨[], S, trivial, rfl, hcall, rfl, rfl, fun _ _ => rfl,
        fun i => (if_neg List.not_mem_nil).symm⟩
  | cons i rest ih =>
      have hstep : step P S (.tell t) =
          some ((S.remove i keys).setCall t (tellRest keys write rest)) := by
        simp only [step, hcall, tellRest]
      obtain ⟨as, S', halong, hrun, hend, hstore, hnow, hothers, hanswers⟩ :=
        ih ((S.remove i keys).setCall t (tellRest keys write rest)) (call_setCall_self _)
      refine ⟨.tell t :: as, S', ⟨fun j k => ⟨fun S₁ h₁ => ?_, fun h => ?_⟩, fun S₁ h₁ => ?_⟩,
        perform_cons_eq_some.2 ⟨_, hstep, hrun⟩, hend, hstore, hnow,
        fun t' ht => (hothers t' ht).trans (call_setCall_of_ne ht _), fun i' => ?_⟩
      · obtain rfl := Option.some.inj (hstep.symm.trans h₁)
        rfl
      · cases h.1
      · obtain rfl := Option.some.inj (hstep.symm.trans h₁)
        exact halong
      · rw [hanswers i']
        change (if i' ∈ rest then evicted (answers P (S.remove i keys) i') (some keys)
          else answers P (S.remove i keys) i') = _
        by_cases hi : i' = i
        · subst hi
          rw [answers_remove_self, evicted_evicted, ite_self, if_pos List.mem_cons_self]
        · simp only [answers_remove_of_ne hi, List.mem_cons, hi, false_or]

/-- **A call can come to the end of its evictions**, whoever else waits,
and has then evicted at its node and at the peers. -/
theorem exists_run_evictNext (keys : Option (Evicted κ)) (write : Option ω)
    (S : CacheCluster ι τ σ κ ν ω) (hcall : S.call t = evictNext keys write) :
    ∃ as S', Along (step P) (SparesAll P t) S as ∧ perform (step P) S as = some S' ∧
      S'.call t = afterEviction write ∧ S'.store = S.store ∧ S'.now = S.now ∧
      (∀ t', t' ≠ t → S'.call t' = S.call t') ∧ ∀ i, answers P S' i =
        if i = P.node t ∨ i ∈ P.peers (P.node t) then evicted (answers P S i) keys
        else answers P S i := by
  cases keys with
  | none =>
      exact ⟨[], S, trivial, rfl, hcall, rfl, rfl, fun _ _ => rfl, fun i => (ite_self _).symm⟩
  | some keys =>
      have hstep : step P S (.evict t) = some ((S.remove (P.node t) keys).setCall t
          (tellRest keys write (P.peers (P.node t)))) := by
        simp only [step, hcall, evictNext]
      obtain ⟨as, S', halong, hrun, hend, hstore, hnow, hothers, hanswers⟩ :=
        exists_run_tellRest (P := P) keys write _ _
          (call_setCall_self (S := S.remove (P.node t) keys) (t := t) _)
      refine ⟨.evict t :: as, S', ⟨fun j k => ⟨fun S₁ h₁ => ?_, fun h => ?_⟩, fun S₁ h₁ => ?_⟩,
        perform_cons_eq_some.2 ⟨_, hstep, hrun⟩, hend, hstore, hnow,
        fun t' ht => (hothers t' ht).trans (call_setCall_of_ne ht _), fun i => ?_⟩
      · obtain rfl := Option.some.inj (hstep.symm.trans h₁)
        rfl
      · cases h.1
      · obtain rfl := Option.some.inj (hstep.symm.trans h₁)
        exact halong
      · rw [hanswers i]
        change (if i ∈ P.peers (P.node t) then
          evicted (answers P (S.remove (P.node t) keys) i) (some keys)
          else answers P (S.remove (P.node t) keys) i) = _
        by_cases hi : i = P.node t
        · subst hi
          rw [answers_remove_self, evicted_evicted, ite_self, if_pos (.inl rfl)]
        · simp only [answers_remove_of_ne hi, hi, false_or]

/-- So from any state there is a run behind which no eviction of the call
is on its way. -/
theorem exists_run_evictions (P : CacheSetup ι τ σ κ ν ω) (S : CacheCluster ι τ σ κ ν ω) (t : τ)
    (j : ι) (k : κ) :
    ∃ as S', Along (step P) (SparesAll P t) S as ∧ perform (step P) S as = some S' ∧
      ¬ Reaches P t j k (S'.call t) ∧ S'.store = S.store ∧
      ∀ t', t' ≠ t → S'.call t' = S.call t' := by
  cases hcall : S.call t with
  | evicting keys write =>
      obtain ⟨as, S', halong, hrun, hend, hstore, -, hothers, -⟩ :=
        exists_run_evictNext (P := P) (some keys) write S hcall
      exact ⟨as, S', halong, hrun, hend ▸ not_reaches_afterEviction write, hstore, hothers⟩
  | telling keys rest write =>
      cases rest with
      | nil =>
          refine ⟨[], S, trivial, rfl, fun h => ?_, rfl, fun _ _ => rfl⟩
          rw [hcall] at h
          exact List.not_mem_nil h.2
      | cons i rest =>
          obtain ⟨as, S', halong, hrun, hend, hstore, -, hothers, -⟩ :=
            exists_run_tellRest (P := P) keys write (i :: rest) S hcall
          exact ⟨as, S', halong, hrun, hend ▸ not_reaches_afterEviction write, hstore, hothers⟩
  | idle | missed _ | found _ _ _ | committing _ =>
      exact ⟨[], S, trivial, rfl, by rw [hcall]; exact id, rfl, fun _ _ => rfl⟩

/-- Whatever goes on and changes no answer for the key, what the cache of
the node answers is current once no eviction of the call is on its way. -/
def StaysCurrent (P : CacheSetup ι τ σ κ ν ω) (S : CacheCluster ι τ σ κ ν ω) (t : τ) (j : ι)
    (k : κ) : Prop :=
  ∀ as S', Along (step P) (Spares P t j k) S as → perform (step P) S as = some S' →
    ¬ Reaches P t j k (S'.call t) → Current P S' j k

/-- **What a cache answers stays current** from some moment on, whatever
overlaps, exactly when no call at the node holds an older answer and the
cache gives none, or an eviction is still to come. -/
theorem current_iff (P : CacheSetup ι τ σ κ ν ω) (S : CacheCluster ι τ σ κ ν ω) (t : τ) (j : ι)
    (k : κ) (hheld : held (S.call t) = none) :
    StaysCurrent P S t j k ↔
      HeldCurrent P S j k ∧ (Current P S j k ∨ Reaches P t j k (S.call t)) := by
  constructor
  · intro hall
    refine ⟨fun t' v since hnode ht' => ?_, ?_⟩
    · -- the older answer is put once the evictions of the call are over
      have hne : t' ≠ t := by
        rintro rfl
        rw [hheld] at ht'
        cases ht'
      obtain ⟨as, S', halong, hrun, hover, hstore, hothers⟩ := exists_run_evictions P S t j k
      have hcall : S'.call t' = .found k v since := by
        rw [hothers t' hne]
        cases hfound : S.call t' with
        | found k' v' since' =>
            rw [hfound] at ht'
            cases ht'
            rfl
        | _ =>
            rw [hfound] at ht'
            cases ht'
      have hstep : step P S' (.put t') = some ((S'.insert (P.node t') k v).setCall t'
          (if (S'.entry (P.node t') k).isSome then tellRest (.key k) none (P.peers (P.node t'))
          else .idle)) := by
        simp only [step, hcall]
      have hput := hall (as ++ [.put t']) _
        (along_concat.2 ⟨halong.imp fun _ _ h => h j k, fun S₁ h₁ => ?_⟩)
        (perform_concat_eq_some.2 ⟨S', hrun, hstep⟩) ?_
      · refine (hput v (hit_eq_some_iff.2 ⟨S'.now, ?_, Nat.le_add_right _ _⟩)).trans ?_
        · exact if_pos ⟨hnode.symm, rfl⟩
        · exact congrArg (P.lookup · k) hstore
      · obtain rfl := Option.some.inj (hrun.symm.trans h₁)
        refine ⟨fun S₂ h₂ => ?_, fun h => ?_⟩
        · obtain rfl := Option.some.inj (hstep.symm.trans h₂)
          rfl
        · cases h.1
      · rw [call_setCall_of_ne hne.symm]
        exact hover
    · by_cases hreaches : Reaches P t j k (S.call t)
      · exact .inr hreaches
      · exact .inl (hall [] S trivial rfl hreaches)
  · rintro ⟨hholds, hcached⟩ as S' halong hrun hover
    have hS : Settling P t j k (P.lookup S.store k) S := ⟨rfl, hholds, hcached⟩
    have hS' := perform_invariant (fun _ _ _ => settling_of_step) hS halong hrun
    intro v hv
    rw [hS'.stored]
    exact hS'.cached.resolve_right hover v hv

omit [DecidableEq ι] [DecidableEq κ] in
/-- What is held after a commit, by calls of which one that held nothing
goes on, is what was held before it. -/
theorem heldCurrent_of_commit {store : σ} {c : CacheCall ι κ ν ω} (hbefore : held (S.call t) = none)
    (hc : held c = none) :
    HeldCurrent P ({ S with store := store }.setCall t c) j k ↔
      ∀ t' v since, P.node t' = j → held (S.call t') = some (k, v, since) →
        v = P.lookup store k := by
  have hheld := held_setCall (S := { S with store := store }) (t := t) hbefore hc
  constructor
  · intro hholds t' v since hnode ht'
    exact hholds t' v since hnode ((hheld t').trans ht')
  · intro hholds t' v since hnode ht'
    exact hholds t' v since hnode ((hheld t').symm.trans ht')

/-- **What a cache answers is what a write has committed**, once the
eviction has come to it, exactly when no call at the node holds another
answer at the commit. -/
theorem current_of_write_iff {w : ω} {keys : Evicted κ} {store : σ}
    (horder : P.order = .commitFirst) (hevicts : P.evicts w = some keys) (hcovers : keys.Covers k)
    (htold : j = P.node t ∨ j ∈ P.peers (P.node t)) (hcommit : P.commit w S.store = some store)
    (hwrite : step P S (.write t w) = some S') :
    StaysCurrent P S' t j k ↔
      ∀ t' v since, P.node t' = j → held (S.call t') = some (k, v, since) →
        v = P.lookup store k := by
  obtain ⟨hidle, rfl⟩ := write_of_commitFirst horder hcommit hwrite
  have hbefore : held (S.call t) = none := by
    rw [hidle]
    rfl
  have hafter : held (evictNext (P.evicts w) none : CacheCall ι κ ν ω) = none := held_evictNext ..
  have hreaches : Reaches P t j k (evictNext (P.evicts w) none) := by
    rw [hevicts]
    exact ⟨hcovers, htold⟩
  have hheld := held_setCall (S := { S with store := store }) hbefore hafter t
  rw [current_iff _ _ _ _ _ (hheld.trans hbefore), heldCurrent_of_commit hbefore hafter,
    call_setCall_self, and_iff_left (.inr hreaches)]

/-- In the order that evicts first, what was put between the eviction and
the commit counts too. -/
theorem current_of_commit_iff (hstep : step P S (.commit t) = some S') :
    StaysCurrent P S' t j k ↔
      (∀ t' v since, P.node t' = j → held (S.call t') = some (k, v, since) →
        v = P.lookup S'.store k) ∧
      ∀ v, hit P S j k = some v → v = P.lookup S'.store k := by
  obtain ⟨w, hcall, rfl⟩ := commit_of_step hstep
  have hbefore : held (S.call t) = none := by
    rw [hcall]
    rfl
  let store := (P.commit w S.store).getD S.store
  have hheld := held_setCall (S := { S with store := store }) (c := .idle) hbefore rfl t
  have hover : ¬ Reaches P t j k (CacheCall.idle : CacheCall ι κ ν ω) := id
  rw [current_iff _ _ _ _ _ (hheld.trans hbefore), heldCurrent_of_commit hbefore rfl,
    call_setCall_self, or_iff_left hover]
  rfl

/-! ## How old an answer is -/

/-- The store has answered the key so at that time of the run. -/
def Was (P : CacheSetup ι τ σ κ ν ω) (S₀ : CacheCluster ι τ σ κ ν ω)
    (as : List (CacheAction ι τ κ ω)) (k : κ) (v : ν) (time : ℕ) : Prop :=
  ∃ before after S, as = before ++ after ∧ perform (step P) S₀ before = some S ∧
    P.lookup S.store k = v ∧ S.now = time

/-- A call puts an answer within that time. -/
def Prompt (delay : ℕ) (S : CacheCluster ι τ σ κ ν ω) (a : CacheAction ι τ κ ω) : Prop :=
  ∀ t k v since, a = .put t → held (S.call t) = some (k, v, since) → S.now ≤ since + delay

theorem Was.concat {S₀ : CacheCluster ι τ σ κ ν ω} {as : List (CacheAction ι τ κ ω)} {time : ℕ}
    (h : Was P S₀ as k v time) (a : CacheAction ι τ κ ω) : Was P S₀ (as ++ [a]) k v time := by
  obtain ⟨before, after, S, rfl, hrun, hv, htime⟩ := h
  exact ⟨before, after ++ [a], S, List.append_assoc .., hrun, hv, htime⟩

/-- **What is held and what is cached** the store has answered in the
run. -/
structure Sourced (P : CacheSetup ι τ σ κ ν ω) (S₀ : CacheCluster ι τ σ κ ν ω) (delay : ℕ)
    (as : List (CacheAction ι τ κ ω)) (S : CacheCluster ι τ σ κ ν ω) : Prop where
  held : ∀ t k v since, held (S.call t) = some (k, v, since) → Was P S₀ as k v since
  cached : ∀ j k e, S.entry j k = some e →
    ∃ time, Was P S₀ as k e.value time ∧ e.created ≤ time + delay

theorem sourced_of_step {S₀ : CacheCluster ι τ σ κ ν ω} {delay : ℕ}
    {as : List (CacheAction ι τ κ ω)} (hS : Sourced P S₀ delay as S)
    (hrun : perform (step P) S₀ as = some S) (hprompt : Prompt delay S a)
    (h : step P S a = some S') : Sourced P S₀ delay (as ++ [a]) S' where
  held t k v since hheld := by
    rcases held_of_step h hheld with hold | ⟨rfl, rfl⟩
    · exact (hS.held t k v since hold).concat a
    · exact ⟨as, [a], S, rfl, hrun, rfl, rfl⟩
  cached j k e he := by
    rcases entry_of_step h j k with hsame | hnone | ⟨t, v, since, hput, -, hcall, hnew⟩
    · obtain ⟨time, hwas, hle⟩ := hS.cached j k e (hsame ▸ he)
      exact ⟨time, hwas.concat a, hle⟩
    · rw [hnone] at he
      cases he
    · have hheld : CacheCluster.held (S.call t) = some (k, v, since) := hcall ▸ rfl
      rw [hnew] at he
      cases he
      exact ⟨since, (hS.held t k v since hheld).concat a, hprompt t k v since hput hheld⟩

theorem sourced_of_perform {store : σ} {delay : ℕ} (as : List (CacheAction ι τ κ ω))
    (hprompt : Along (step P) (Prompt delay) (start store) as)
    (hrun : perform (step P) (start store) as = some S) :
    Sourced P (start store) delay as S := by
  induction as using List.reverseRecOn generalizing S with
  | nil =>
      obtain rfl := Option.some.inj hrun
      exact ⟨fun _ _ _ _ h => (nomatch h), fun _ _ _ h => (nomatch h)⟩
  | append_singleton as a ih =>
      obtain ⟨hbefore, hlast⟩ := along_concat.1 hprompt
      obtain ⟨S₁, hrun₁, hstep⟩ := perform_concat_eq_some.1 hrun
      exact sourced_of_step (ih hbefore hrun₁) hrun₁ (hlast S₁ hrun₁) hstep

/-- **What a cache answers is not old**: the store has answered so no
longer ago than an entry lives and a call takes to put it. -/
theorem hit_recent {store : σ} {delay : ℕ} (as : List (CacheAction ι τ κ ω))
    (hprompt : Along (step P) (Prompt delay) (start store) as)
    (hrun : perform (step P) (start store) as = some S) (hhit : hit P S j k = some v) :
    ∃ time, Was P (start store) as k v time ∧ S.now ≤ time + delay + P.timeToLive := by
  obtain ⟨created, hentry, hnow⟩ := hit_eq_some_iff.1 hhit
  obtain ⟨time, hwas, hle⟩ := (sourced_of_perform as hprompt hrun).cached j k _ hentry
  exact ⟨time, hwas, Nat.le_trans hnow (Nat.add_le_add_right hle _)⟩

/-! ## One call after the other -/

/-- **A read with nothing else in between** reads through the cache of its
node. -/
theorem exists_run_read (S : CacheCluster ι τ σ κ ν ω) (k : κ) (hidle : S.call t = .idle) :
    ∃ as S', perform (step P) S as = some S' ∧ S'.store = S.store ∧ S'.call = S.call ∧
      S'.now = S.now ∧
      answers P S' (P.node t) = (answers P S (P.node t)).afterRead (P.lookup S.store) k ∧
      ∀ i, i ≠ P.node t → answers P S' i = answers P S i := by
  by_cases hhit : (hit P S (P.node t) k).isSome
  · have hstep : step P S (.read t k) = some S := by
      simp only [step, hidle, if_pos hhit]
    refine ⟨[.read t k], S, perform_cons_eq_some.2 ⟨S, hstep, rfl⟩, rfl, rfl, rfl, ?_,
      fun _ _ => rfl⟩
    obtain ⟨v, hv⟩ := Option.isSome_iff_exists.1 hhit
    rw [Cache.afterRead, get?_answers, hv]
  · let S₁ := (S.remove (P.node t) (.key k)).setCall t (.missed k)
    let S₂ := S₁.setCall t (.found k (P.lookup S.store k) S.now)
    have hread : step P S (.read t k) = some S₁ := by
      simp only [step, hidle, if_neg hhit]
      rfl
    have hquery : step P S₁ (.query t) = some S₂ := by
      have hcall : S₁.call t = .missed k := call_setCall_self _
      simp only [step, hcall]
      rfl
    have hentry : S₂.entry (P.node t) k = none := entry_remove_of_covers (.key k) rfl
    let S₃ := (S₂.insert (P.node t) k (P.lookup S.store k)).setCall t .idle
    have hput : step P S₂ (.put t) = some S₃ := by
      have hcall : S₂.call t = .found k (P.lookup S.store k) S.now := call_setCall_self _
      simp only [step, hcall, hentry]
      rfl
    refine ⟨[.read t k, .query t, .put t], S₃, perform_cons_eq_some.2 ⟨S₁, hread,
      perform_cons_eq_some.2 ⟨S₂, hquery, perform_cons_eq_some.2 ⟨S₃, hput, rfl⟩⟩⟩, rfl, ?_, rfl,
      ?_, fun i hi => ?_⟩
    · funext t'
      by_cases ht : t' = t
      · subst ht
        exact (call_setCall_self _).trans hidle.symm
      · calc S₃.call t' = S₂.call t' := call_setCall_of_ne ht _
          _ = S₁.call t' := call_setCall_of_ne ht _
          _ = S.call t' := call_setCall_of_ne ht _
    · rw [Option.not_isSome_iff_eq_none] at hhit
      have hread : answers P S₂ (P.node t) = (answers P S (P.node t)).evict k :=
        answers_remove_self (.key k)
      calc answers P S₃ (P.node t)
          = (answers P S₂ (P.node t)).put k (P.lookup S.store k) := answers_insert_self k _
        _ = (answers P S (P.node t)).put k (P.lookup S.store k) := by rw [hread, Cache.put_evict]
        _ = (answers P S (P.node t)).afterRead (P.lookup S.store) k := by
            rw [Cache.afterRead, get?_answers, hhit]
    · exact (answers_insert_of_ne hi k _).trans (answers_remove_of_ne hi (.key k))

/-- **A write with nothing else in between** commits, and evicts at its node
and at the peers, whichever it does first. -/
theorem exists_run_write (S : CacheCluster ι τ σ κ ν ω) (w : ω) {store : σ}
    (hidle : S.call t = .idle) (hcommit : P.commit w S.store = some store) :
    ∃ as S', perform (step P) S as = some S' ∧ S'.store = store ∧ S'.call = S.call ∧
      S'.now = S.now ∧ ∀ i, answers P S' i =
        if i = P.node t ∨ i ∈ P.peers (P.node t) then evicted (answers P S i) (P.evicts w)
        else answers P S i := by
  cases horder : P.order with
  | commitFirst =>
      let S₁ := { S with store := store }.setCall t (evictNext (P.evicts w) none)
      have hstep : step P S (.write t w) = some S₁ := by
        simp only [step, hidle, hcommit, horder]
        rfl
      obtain ⟨as, S', -, hrun, hend, hstore, hnow, hothers, hanswers⟩ :=
        exists_run_evictNext (P := P) (P.evicts w) none S₁ (call_setCall_self _)
      refine ⟨.write t w :: as, S', perform_cons_eq_some.2 ⟨S₁, hstep, hrun⟩, hstore, ?_, hnow,
        hanswers⟩
      funext t'
      by_cases ht : t' = t
      · subst ht
        exact hend.trans hidle.symm
      · exact (hothers t' ht).trans (call_setCall_of_ne ht _)
  | evictFirst =>
      let S₁ := S.setCall t (evictNext (P.evicts w) (some w))
      have hstep : step P S (.write t w) = some S₁ := by
        simp only [step, hidle, hcommit, horder]
        rfl
      obtain ⟨as, S₂, -, hrun, hend, hstore, hnow, hothers, hanswers⟩ :=
        exists_run_evictNext (P := P) (P.evicts w) (some w) S₁ (call_setCall_self _)
      -- nobody else has committed in between
      let S₃ := { S₂ with store := store }.setCall t .idle
      have hlast : step P S₂ (.commit t) = some S₃ := by
        have hstore₂ : P.commit w S₂.store = some store := hstore ▸ hcommit
        simp only [step, hend, afterEviction, hstore₂, Option.getD_some]
        rfl
      refine ⟨.write t w :: (as ++ [.commit t]), S₃, perform_cons_eq_some.2 ⟨S₁, hstep,
        perform_concat_eq_some.2 ⟨S₂, hrun, hlast⟩⟩, rfl, ?_, hnow, hanswers⟩
      funext t'
      by_cases ht : t' = t
      · subst ht
        exact (call_setCall_self _).trans hidle.symm
      · exact (call_setCall_of_ne ht _).trans ((hothers t' ht).trans (call_setCall_of_ne ht _))

end CacheCluster

end Zooffice
