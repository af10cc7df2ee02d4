import Mathlib.Data.List.Basic
import Mathlib.Logic.Function.Basic
import Zooffice.Common.Cache
import Zooffice.Common.Run
/-!
# Caches beside one store

Each node of a cluster has a cache in front of the store they share. A call
that reads looks into the cache of its node, and on a miss asks the store
and puts what it has got; a call that writes commits to the store and
evicts keys, at its own node first and then at the peers of the node, one
after the other. Calls overlap in any way.

Every result about runs rests on what one step does to an entry
(`entry_of_step`), to an answer that a call holds (`held_of_step`) and to
an eviction on its way (`reaches_of_step`).
-/


namespace Zooffice

/-- What an eviction removes. -/
inductive Evicted (κ : Type*) where
  | key (k : κ)
  | allEntries
  deriving DecidableEq, Repr

/-- It removes the entry under the key. -/
def Evicted.Covers {κ : Type*} : Evicted κ → κ → Prop
  | .key k', k => k = k'
  | .allEntries, _ => True

instance {κ : Type*} [DecidableEq κ] (e : Evicted κ) (k : κ) : Decidable (e.Covers k) := by
  cases e <;> unfold Evicted.Covers <;> infer_instance

/-- Whether a method commits first and evicts then, or the other way
round. -/
inductive AdviceOrder where
  | commitFirst
  | evictFirst
  deriving DecidableEq, Repr

/-- **How the nodes are set up**: where a call runs, which peers a node
tells of its evictions, what the store answers, what a write makes of the
store unless it throws and what it evicts, and how long an entry lives. -/
structure CacheSetup (ι τ σ κ ν ω : Type*) where
  node : τ → ι
  peers : ι → List ι
  lookup : σ → κ → ν
  commit : ω → σ → Option σ
  evicts : ω → Option (Evicted κ)
  timeToLive : ℕ
  order : AdviceOrder

/-- An entry, and when it was put. -/
structure CacheEntry (ν : Type*) where
  value : ν
  created : ℕ

/-- What a call is about to do. -/
inductive CacheCall (ι κ ν ω : Type*) where
  | idle
  /-- ask the store -/
  | missed (key : κ)
  /-- put what the store has answered, and when it did -/
  | found (key : κ) (value : ν) (since : ℕ)
  /-- evict at its own node -/
  | evicting (keys : Evicted κ) (write : Option ω)
  /-- tell these peers of the eviction -/
  | telling (keys : Evicted κ) (rest : List ι) (write : Option ω)
  | committing (write : ω)

/-- The store, the caches, the calls and the time. -/
structure CacheCluster (ι τ σ κ ν ω : Type*) where
  store : σ
  entry : ι → κ → Option (CacheEntry ν)
  call : τ → CacheCall ι κ ν ω
  now : ℕ

/-- What happens. -/
inductive CacheAction (ι τ κ ω : Type*) where
  | read (t : τ) (key : κ)
  | query (t : τ)
  | put (t : τ)
  | write (t : τ) (write : ω)
  | evict (t : τ)
  /-- the next peer is told, or is not reached -/
  | tell (t : τ)
  | lose (t : τ)
  | commit (t : τ)
  /-- a cache makes room -/
  | drop (j : ι) (key : κ)
  | tick

namespace CacheCluster

variable {ι τ σ κ ν ω : Type*}

/-- Nothing is cached, and nobody calls. -/
def start (store : σ) : CacheCluster ι τ σ κ ν ω where
  store := store
  entry _ _ := none
  call _ := .idle
  now := 0

/-- Where the call goes on. -/
def setCall [DecidableEq τ] (S : CacheCluster ι τ σ κ ν ω) (t : τ) (c : CacheCall ι κ ν ω) :
    CacheCluster ι τ σ κ ν ω :=
  { S with call := Function.update S.call t c }

variable [DecidableEq ι] [DecidableEq κ]

/-- The node removes entries. -/
def remove (S : CacheCluster ι τ σ κ ν ω) (j : ι) (keys : Evicted κ) :
    CacheCluster ι τ σ κ ν ω :=
  { S with entry := fun i k => if i = j ∧ keys.Covers k then none else S.entry i k }

/-- The node puts an entry. -/
def insert (S : CacheCluster ι τ σ κ ν ω) (j : ι) (k : κ) (v : ν) : CacheCluster ι τ σ κ ν ω :=
  { S with entry := fun i k' => if i = j ∧ k' = k then some ⟨v, S.now⟩ else S.entry i k' }

/-- What the cache of the node answers: the entry, if it still lives. -/
def hit (P : CacheSetup ι τ σ κ ν ω) (S : CacheCluster ι τ σ κ ν ω) (j : ι) (k : κ) : Option ν :=
  match S.entry j k with
  | none => none
  | some e => if S.now ≤ e.created + P.timeToLive then some e.value else none

/-- What a call does behind its evictions. -/
def afterEviction : Option ω → CacheCall ι κ ν ω
  | none => .idle
  | some w => .committing w

/-- A call that has these peers left to tell. -/
def tellRest (keys : Evicted κ) (write : Option ω) : List ι → CacheCall ι κ ν ω
  | [] => afterEviction write
  | j :: rest => .telling keys (j :: rest) write

/-- A call that has keys to evict, if any. -/
def evictNext (keys : Option (Evicted κ)) (write : Option ω) : CacheCall ι κ ν ω :=
  match keys with
  | none => afterEviction write
  | some keys => .evicting keys write

/-- The answer of the store that the call holds: the key, the answer, and
when it was given. -/
def held : CacheCall ι κ ν ω → Option (κ × ν × ℕ)
  | .found k v since => some (k, v, since)
  | _ => none

/-- The eviction of the call still comes to the key at the node, unless it
is lost on the way. -/
def Reaches (P : CacheSetup ι τ σ κ ν ω) (t : τ) (j : ι) (k : κ) : CacheCall ι κ ν ω → Prop
  | .evicting keys _ => keys.Covers k ∧ (j = P.node t ∨ j ∈ P.peers (P.node t))
  | .telling keys rest _ => keys.Covers k ∧ j ∈ rest
  | _ => False

/-- One step. -/
def step [DecidableEq τ] (P : CacheSetup ι τ σ κ ν ω) (S : CacheCluster ι τ σ κ ν ω) :
    CacheAction ι τ κ ω → Option (CacheCluster ι τ σ κ ν ω)
  | .read t k =>
      match S.call t with
      | .idle =>
          if (hit P S (P.node t) k).isSome then some S
          else some ((S.remove (P.node t) (.key k)).setCall t (.missed k))
      | _ => none
  | .query t =>
      match S.call t with
      | .missed k => some (S.setCall t (.found k (P.lookup S.store k) S.now))
      | _ => none
  | .put t =>
      match S.call t with
      | .found k v _ =>
          -- a put over an entry is an update, and the peers drop theirs
          some ((S.insert (P.node t) k v).setCall t
            (if (S.entry (P.node t) k).isSome then tellRest (.key k) none (P.peers (P.node t))
            else .idle))
      | _ => none
  | .write t w =>
      match S.call t with
      | .idle =>
          match P.commit w S.store, P.order with
          -- what throws neither commits nor evicts
          | none, _ => some S
          | some store, .commitFirst =>
              some ({ S with store := store }.setCall t (evictNext (P.evicts w) none))
          | some _, .evictFirst => some (S.setCall t (evictNext (P.evicts w) (some w)))
      | _ => none
  | .evict t =>
      match S.call t with
      | .evicting keys write =>
          some ((S.remove (P.node t) keys).setCall t (tellRest keys write (P.peers (P.node t))))
      | _ => none
  | .tell t =>
      match S.call t with
      | .telling keys (j :: rest) write =>
          some ((S.remove j keys).setCall t (tellRest keys write rest))
      | _ => none
  | .lose t =>
      match S.call t with
      | .telling keys (_ :: rest) write => some (S.setCall t (tellRest keys write rest))
      | _ => none
  | .commit t =>
      match S.call t with
      | .committing w =>
          some ({ S with store := (P.commit w S.store).getD S.store }.setCall t .idle)
      | _ => none
  | .drop j k => some (S.remove j (.key k))
  | .tick => some { S with now := S.now + 1 }

/-! ## What a step does -/

variable {P : CacheSetup ι τ σ κ ν ω} {S S' : CacheCluster ι τ σ κ ν ω}
  {a : CacheAction ι τ κ ω} {t : τ} {j : ι} {k : κ} {v : ν}

omit [DecidableEq ι] [DecidableEq κ] in
@[simp] theorem held_afterEviction (write : Option ω) :
    held (afterEviction write : CacheCall ι κ ν ω) = none := by
  cases write <;> rfl

omit [DecidableEq ι] [DecidableEq κ] in
@[simp] theorem held_tellRest (keys : Evicted κ) (write : Option ω) (rest : List ι) :
    held (tellRest keys write rest : CacheCall ι κ ν ω) = none := by
  cases rest with
  | nil => exact held_afterEviction write
  | cons j rest => rfl

omit [DecidableEq ι] [DecidableEq κ] in
@[simp] theorem held_evictNext (keys : Option (Evicted κ)) (write : Option ω) :
    held (evictNext keys write : CacheCall ι κ ν ω) = none := by
  cases keys with
  | none => exact held_afterEviction write
  | some keys => rfl

omit [DecidableEq ι] [DecidableEq κ] in
theorem not_reaches_afterEviction (write : Option ω) :
    ¬ Reaches P t j k (afterEviction write) := by
  cases write <;> exact id

omit [DecidableEq ι] [DecidableEq κ] in
/-- A call that has peers to tell reaches those. -/
theorem reaches_tellRest {keys : Evicted κ} {write : Option ω} {rest : List ι} :
    Reaches P t j k (tellRest keys write rest) ↔ keys.Covers k ∧ j ∈ rest := by
  cases rest with
  | nil => exact iff_of_false (not_reaches_afterEviction write) fun h => List.not_mem_nil h.2
  | cons j' rest => exact Iff.rfl

/-- An eviction leaves an entry or takes it away. -/
theorem entry_remove (j' : ι) (keys : Evicted κ) :
    (S.remove j' keys).entry j k = S.entry j k ∨ (S.remove j' keys).entry j k = none := by
  unfold remove
  dsimp only
  split
  · exact .inr rfl
  · exact .inl rfl

theorem entry_remove_of_covers (keys : Evicted κ) (h : keys.Covers k) :
    (S.remove j keys).entry j k = none :=
  if_pos ⟨rfl, h⟩

variable [DecidableEq τ]

/-- **What a step does to an entry**: it stays, or goes, or is put. -/
theorem entry_of_step (h : step P S a = some S') (j : ι) (k : κ) :
    S'.entry j k = S.entry j k ∨ S'.entry j k = none ∨
      ∃ t v since, a = .put t ∧ P.node t = j ∧ S.call t = .found k v since ∧
        S'.entry j k = some ⟨v, S.now⟩ := by
  cases a with
  | read t k' =>
      simp only [step] at h
      split at h
      · split at h
        · exact .inl (Option.some.inj h ▸ rfl)
        · obtain rfl := Option.some.inj h
          exact (entry_remove _ _).imp_right .inl
      · cases h
  | put t =>
      simp only [step] at h
      split at h
      · next k' v since hcall =>
          obtain rfl := Option.some.inj h
          by_cases hput : j = P.node t ∧ k = k'
          · obtain ⟨rfl, rfl⟩ := hput
            exact .inr (.inr ⟨t, v, since, rfl, rfl, hcall, if_pos ⟨rfl, rfl⟩⟩)
          · exact .inl (if_neg hput)
      · cases h
  | evict t =>
      simp only [step] at h
      split at h
      · obtain rfl := Option.some.inj h
        exact (entry_remove _ _).imp_right .inl
      · cases h
  | tell t =>
      simp only [step] at h
      split at h
      · obtain rfl := Option.some.inj h
        exact (entry_remove _ _).imp_right .inl
      · cases h
  | drop j' k' =>
      obtain rfl := Option.some.inj h
      exact (entry_remove _ _).imp_right .inl
  | write t w =>
      simp only [step] at h
      split at h
      · split at h
        all_goals exact .inl (Option.some.inj h ▸ rfl)
      · cases h
  | tick => exact .inl (Option.some.inj h ▸ rfl)
  | query t | lose t | commit t =>
      simp only [step] at h
      split at h
      · exact .inl (Option.some.inj h ▸ rfl)
      · cases h

omit [DecidableEq ι] [DecidableEq κ] in
@[simp] theorem call_setCall_self (c : CacheCall ι κ ν ω) : (S.setCall t c).call t = c :=
  Function.update_self ..

omit [DecidableEq ι] [DecidableEq κ] in
theorem call_setCall_of_ne {t' : τ} (h : t' ≠ t) (c : CacheCall ι κ ν ω) :
    (S.setCall t c).call t' = S.call t' :=
  Function.update_of_ne h ..

omit [DecidableEq ι] [DecidableEq κ] in
/-- A call is where it was, unless it is the one that goes on. -/
theorem call_setCall (S : CacheCluster ι τ σ κ ν ω) (t t' : τ) (c : CacheCall ι κ ν ω) :
    (S.setCall t' c).call t = c ∨ (S.setCall t' c).call t = S.call t := by
  by_cases ht : t = t'
  · subst ht
    exact .inl (call_setCall_self c)
  · exact .inr (call_setCall_of_ne ht c)

omit [DecidableEq ι] [DecidableEq κ] in
theorem reaches_setCall {keys : Evicted κ} {write : Option ω} {rest : List ι} :
    Reaches P t j k ((S.setCall t (tellRest keys write rest)).call t) ↔
      keys.Covers k ∧ j ∈ rest := by
  rw [call_setCall_self, reaches_tellRest]

/-- **An answer is held** from the query on. -/
theorem held_of_step {since : ℕ} (h : step P S a = some S')
    (hheld : held (S'.call t) = some (k, v, since)) :
    held (S.call t) = some (k, v, since) ∨ v = P.lookup S.store k ∧ since = S.now := by
  -- the call that goes on holds nothing, unless it has asked the store
  have hgoes : ∀ {t' : τ} {c : CacheCall ι κ ν ω} {T : CacheCluster ι τ σ κ ν ω},
      T.call = S.call → held c = none → held ((T.setCall t' c).call t) = some (k, v, since) →
        held (S.call t) = some (k, v, since) := by
    intro t' c T hT hc hnew
    rcases call_setCall T t t' c with hcall | hcall
    · rw [hcall, hc] at hnew
      cases hnew
    · rwa [hcall, hT] at hnew
  cases a with
  | query t' =>
      simp only [step] at h
      split at h
      · obtain rfl := Option.some.inj h
        rcases call_setCall S t t' (.found _ _ _) with hcall | hcall
        · rw [hcall] at hheld
          cases hheld
          exact .inr ⟨rfl, rfl⟩
        · rw [hcall] at hheld
          exact .inl hheld
      · cases h
  | read t' k' =>
      simp only [step] at h
      split at h
      · split at h
        · obtain rfl := Option.some.inj h
          exact .inl hheld
        · obtain rfl := Option.some.inj h
          exact .inl (hgoes rfl rfl hheld)
      · cases h
  | put t' =>
      simp only [step] at h
      split at h
      · obtain rfl := Option.some.inj h
        refine .inl (hgoes rfl ?_ hheld)
        split
        · exact held_tellRest ..
        · rfl
      · cases h
  | write t' w =>
      simp only [step] at h
      split at h
      · split at h
        · obtain rfl := Option.some.inj h
          exact .inl hheld
        all_goals
          obtain rfl := Option.some.inj h
          exact .inl (hgoes rfl (held_evictNext ..) hheld)
      · cases h
  | evict t' | tell t' | lose t' =>
      simp only [step] at h
      split at h
      · obtain rfl := Option.some.inj h
        exact .inl (hgoes rfl (held_tellRest ..) hheld)
      · cases h
  | commit t' =>
      simp only [step] at h
      split at h
      · obtain rfl := Option.some.inj h
        exact .inl (hgoes rfl rfl hheld)
      · cases h
  | drop j' k' | tick =>
      obtain rfl := Option.some.inj h
      exact .inl hheld

/-- The next peer that the call tells is the node. -/
def TellsNext (S : CacheCluster ι τ σ κ ν ω) (t : τ) (j : ι) : Prop :=
  ∃ keys rest write, S.call t = .telling keys (j :: rest) write

/-- **An eviction on its way** stays on its way, or comes to the node, or is
lost there. -/
theorem reaches_of_step (h : step P S a = some S') (hreaches : Reaches P t j k (S.call t)) :
    Reaches P t j k (S'.call t) ∨ S'.entry j k = none ∨ a = .lose t ∧ TellsNext S t j := by
  -- another call that goes on leaves this one
  have hother : ∀ {t' : τ} {c : CacheCall ι κ ν ω} {T : CacheCluster ι τ σ κ ν ω},
      T.call = S.call → t ≠ t' → Reaches P t j k ((T.setCall t' c).call t) := by
    intro t' c T hT ht
    rwa [call_setCall_of_ne ht, hT]
  -- and this one is at an eviction
  have hactor : ∀ {t' : τ}, ¬ Reaches P t j k (S.call t') → t ≠ t' := by
    rintro t' hnot rfl
    exact hnot hreaches
  cases a with
  | read t' k' =>
      simp only [step] at h
      split at h
      · next hcall =>
          split at h
          · exact Option.some.inj h ▸ .inl hreaches
          · exact Option.some.inj h ▸ .inl (hother rfl (hactor (hcall ▸ id)))
      · cases h
  | query t' | put t' | commit t' =>
      simp only [step] at h
      split at h
      · next hcall => exact Option.some.inj h ▸ .inl (hother rfl (hactor (hcall ▸ id)))
      · cases h
  | write t' w =>
      simp only [step] at h
      split at h
      · next hcall =>
          split at h
          · exact Option.some.inj h ▸ .inl hreaches
          all_goals exact Option.some.inj h ▸ .inl (hother rfl (hactor (hcall ▸ id)))
      · cases h
  | evict t' =>
      simp only [step] at h
      split at h
      · next keys write hcall =>
          obtain rfl := Option.some.inj h
          by_cases ht : t = t'
          · subst ht
            rw [hcall] at hreaches
            obtain ⟨hcovers, rfl | hpeer⟩ := hreaches
            · exact .inr (.inl (entry_remove_of_covers _ hcovers))
            · exact .inl (reaches_setCall.2 ⟨hcovers, hpeer⟩)
          · exact .inl (hother rfl ht)
      · cases h
  | tell t' =>
      simp only [step] at h
      split at h
      · next keys j' rest write hcall =>
          obtain rfl := Option.some.inj h
          by_cases ht : t = t'
          · subst ht
            rw [hcall] at hreaches
            obtain ⟨hcovers, hmem⟩ := hreaches
            rcases List.mem_cons.1 hmem with rfl | hrest
            · exact .inr (.inl (entry_remove_of_covers _ hcovers))
            · exact .inl (reaches_setCall.2 ⟨hcovers, hrest⟩)
          · exact .inl (hother rfl ht)
      · cases h
  | lose t' =>
      simp only [step] at h
      split at h
      · next keys j' rest write hcall =>
          obtain rfl := Option.some.inj h
          by_cases ht : t = t'
          · subst ht
            rw [hcall] at hreaches
            obtain ⟨hcovers, hmem⟩ := hreaches
            rcases List.mem_cons.1 hmem with rfl | hrest
            · exact .inr (.inr ⟨rfl, keys, rest, write, hcall⟩)
            · exact .inl (reaches_setCall.2 ⟨hcovers, hrest⟩)
          · exact .inl (hother rfl ht)
      · cases h
  | drop j' k' | tick => exact Option.some.inj h ▸ .inl hreaches

/-- A write in the order that commits first. -/
theorem write_of_commitFirst {w : ω} {store : σ} (horder : P.order = .commitFirst)
    (hcommit : P.commit w S.store = some store) (h : step P S (.write t w) = some S') :
    S.call t = .idle ∧ S' = { S with store := store }.setCall t (evictNext (P.evicts w) none) := by
  simp only [step, hcommit, horder] at h
  split at h
  · next hidle => exact ⟨hidle, (Option.some.inj h).symm⟩
  · cases h

/-- The commit in the order that evicts first. -/
theorem commit_of_step (h : step P S (.commit t) = some S') :
    ∃ w, S.call t = .committing w ∧
      S' = { S with store := (P.commit w S.store).getD S.store }.setCall t .idle := by
  simp only [step] at h
  split at h
  · next w hcall => exact ⟨w, hcall, (Option.some.inj h).symm⟩
  · cases h

omit [DecidableEq ι] [DecidableEq κ] in
/-- The calls hold what they did, when one that held nothing goes on. -/
theorem held_setCall {c : CacheCall ι κ ν ω} (hbefore : held (S.call t) = none)
    (hc : held c = none) (t' : τ) : held ((S.setCall t c).call t') = held (S.call t') := by
  by_cases ht : t' = t
  · subst ht
    rw [call_setCall_self, hc, hbefore]
  · rw [call_setCall_of_ne ht]

/-- Time does not go back. -/
theorem now_of_step (h : step P S a = some S') : S.now ≤ S'.now := by
  cases a with
  | tick => exact Option.some.inj h ▸ Nat.le_succ _
  | drop j' k' => exact Option.some.inj h ▸ Nat.le_refl _
  | read t k | write t w =>
      simp only [step] at h
      split at h
      · split at h
        all_goals exact Option.some.inj h ▸ Nat.le_refl _
      · cases h
  | query t | put t | evict t | tell t | lose t | commit t =>
      simp only [step] at h
      split at h
      · exact Option.some.inj h ▸ Nat.le_refl _
      · cases h

/-! ## What a cache answers -/

omit [DecidableEq ι] [DecidableEq τ] [DecidableEq κ] in
theorem hit_eq_some_iff :
    hit P S j k = some v ↔
      ∃ created, S.entry j k = some ⟨v, created⟩ ∧ S.now ≤ created + P.timeToLive := by
  unfold hit
  rcases S.entry j k with _ | ⟨v', created'⟩
  · simp
  · simp only [Option.ite_none_right_eq_some, Option.some.injEq, CacheEntry.mk.injEq]
    constructor
    · rintro ⟨hnow, rfl⟩
      exact ⟨_, ⟨rfl, rfl⟩, hnow⟩
    · rintro ⟨_, ⟨rfl, rfl⟩, hnow⟩
      exact ⟨hnow, rfl⟩

/-- **What a cache answers after a step** it has answered before, or a call
has just put it. -/
theorem hit_of_step (h : step P S a = some S') (hhit : hit P S' j k = some v) :
    hit P S j k = some v ∨ ∃ t since, P.node t = j ∧ held (S.call t) = some (k, v, since) := by
  obtain ⟨created, hentry, hnow⟩ := hit_eq_some_iff.1 hhit
  rcases entry_of_step h j k with hsame | hnone | ⟨t, v', since, -, hnode, hcall, hput⟩
  · exact .inl (hit_eq_some_iff.2 ⟨created, hsame ▸ hentry, Nat.le_trans (now_of_step h) hnow⟩)
  · rw [hnone] at hentry
    cases hentry
  · rw [hput] at hentry
    cases hentry
    exact .inr ⟨t, since, hnode, hcall ▸ rfl⟩

omit [DecidableEq ι] [DecidableEq τ] [DecidableEq κ] in
theorem hit_of_entry_none (h : S.entry j k = none) : hit P S j k = none := by
  rw [hit, h]

/-- The cache of the node does not answer the key with anything but what
the store would. -/
def Current (P : CacheSetup ι τ σ κ ν ω) (S : CacheCluster ι τ σ κ ν ω) (j : ι) (k : κ) : Prop :=
  ∀ v, hit P S j k = some v → v = P.lookup S.store k

/-- No call at the node holds another answer for the key. -/
def HeldCurrent (P : CacheSetup ι τ σ κ ν ω) (S : CacheCluster ι τ σ κ ν ω) (j : ι) (k : κ) :
    Prop :=
  ∀ t v since, P.node t = j → held (S.call t) = some (k, v, since) → v = P.lookup S.store k

/-- The action changes no answer for the key, and the eviction of the call
is not lost at the node. -/
structure Spares (P : CacheSetup ι τ σ κ ν ω) (t : τ) (j : ι) (k : κ)
    (S : CacheCluster ι τ σ κ ν ω) (a : CacheAction ι τ κ ω) : Prop where
  answer : ∀ S', step P S a = some S' → P.lookup S'.store k = P.lookup S.store k
  reached : ¬ (a = .lose t ∧ TellsNext S t j)

/-- **What holds from the eviction on**: the answer of the store and of the
calls at the node, and of the cache unless the eviction is still to come. -/
structure Settling (P : CacheSetup ι τ σ κ ν ω) (t : τ) (j : ι) (k : κ) (answer : ν)
    (S : CacheCluster ι τ σ κ ν ω) : Prop where
  stored : P.lookup S.store k = answer
  held : ∀ t' v since, P.node t' = j → held (S.call t') = some (k, v, since) → v = answer
  cached : (∀ v, hit P S j k = some v → v = answer) ∨ Reaches P t j k (S.call t)

theorem settling_of_step {answer : ν} (hS : Settling P t j k answer S)
    (hspares : Spares P t j k S a) (h : step P S a = some S') : Settling P t j k answer S' where
  stored := (hspares.answer S' h).trans hS.stored
  held t' v since hnode hheld := by
    rcases held_of_step h hheld with hold | ⟨rfl, -⟩
    · exact hS.held t' v since hnode hold
    · exact hS.stored
  cached := by
    have hhit : (∀ v, hit P S j k = some v → v = answer) →
        ∀ v, hit P S' j k = some v → v = answer := by
      intro hcurrent v hv
      rcases hit_of_step h hv with hold | ⟨t', since, hnode, hheld⟩
      · exact hcurrent v hold
      · exact hS.held t' v since hnode hheld
    rcases hS.cached with hcurrent | hreaches
    · exact .inl (hhit hcurrent)
    · rcases reaches_of_step h hreaches with hstill | hnone | hlost
      · exact .inr hstill
      · refine .inl fun v hv => ?_
        rw [hit_of_entry_none hnone] at hv
        cases hv
      · exact absurd hlost hspares.reached

/-! ## The cache of a node -/

/-- What an eviction leaves of a cache. -/
def evicted (c : Cache κ ν) : Option (Evicted κ) → Cache κ ν
  | none => c
  | some (.key k) => c.evict k
  | some .allEntries => Cache.empty

/-- The cache of the node, as far as it answers. -/
def answers (P : CacheSetup ι τ σ κ ν ω) (S : CacheCluster ι τ σ κ ν ω) (j : ι) : Cache κ ν :=
  fun k => hit P S j k

omit [DecidableEq ι] [DecidableEq κ] [DecidableEq τ] in
theorem get?_answers : (answers P S j).get? k = hit P S j k := rfl

omit [DecidableEq τ] in
theorem answers_remove_self (keys : Evicted κ) :
    answers P (S.remove j keys) j = evicted (answers P S j) (some keys) := by
  refine Cache.ext fun k => ?_
  cases keys with
  | key k' =>
      rw [evicted]
      by_cases hk : k = k'
      · subst hk
        rw [Cache.get?_evict_self, get?_answers,
          hit_of_entry_none (entry_remove_of_covers (.key k) rfl)]
      · rw [Cache.get?_evict_of_ne hk, get?_answers, get?_answers, hit, hit, remove]
        dsimp only
        rw [if_neg fun h => hk h.2]
  | allEntries =>
      exact hit_of_entry_none (entry_remove_of_covers .allEntries trivial)

omit [DecidableEq τ] in
theorem answers_remove_of_ne {i : ι} (h : i ≠ j) (keys : Evicted κ) :
    answers P (S.remove j keys) i = answers P S i := by
  refine Cache.ext fun k => ?_
  rw [get?_answers, get?_answers, hit, hit, remove]
  dsimp only
  rw [if_neg fun hi => h hi.1]

omit [DecidableEq τ] in
theorem answers_insert_self (k : κ) (v : ν) :
    answers P (S.insert j k v) j = (answers P S j).put k v := by
  refine Cache.ext fun k' => ?_
  by_cases hk : k' = k
  · subst hk
    rw [Cache.get?_put_self, get?_answers]
    exact hit_eq_some_iff.2 ⟨S.now, if_pos ⟨rfl, rfl⟩, Nat.le_add_right _ _⟩
  · rw [Cache.get?_put_of_ne hk, get?_answers, get?_answers, hit, hit, insert]
    dsimp only
    rw [if_neg fun h => hk h.2]

omit [DecidableEq τ] in
theorem answers_insert_of_ne {i : ι} (h : i ≠ j) (k : κ) (v : ν) :
    answers P (S.insert j k v) i = answers P S i := by
  refine Cache.ext fun k' => ?_
  rw [get?_answers, get?_answers, hit, hit, insert]
  dsimp only
  rw [if_neg fun hi => h hi.1]

end CacheCluster

end Zooffice
