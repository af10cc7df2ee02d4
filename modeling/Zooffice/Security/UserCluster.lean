import Zooffice.Common.CacheRuns
import Zooffice.Security.Model.UserCluster
import Zooffice.User.Init
import Zooffice.User.Service
/-!
# What the nodes of a cluster read

A write is evicted at every node that the configuration of its node lists.
A read that had asked the database before the commit may put its answer
after the eviction. So what a node reads from then on is what was written
exactly when no read at the node holds another answer at the commit; in the
order that evicts first the entries put in between count too. An answer is
never older than the entry lives and a read takes.
-/


namespace Zooffice

open Repository

variable {env : Env} {s s' : Store} {w : UserWrite}

/-! ## One call -/

/-- What a save does. -/
theorem run_saveRepository (user : User) (s : Store) :
    (saveRepository user).run s =
      match s.users.save user with
      | .ok (saved, users) => (.ok saved, { s with users })
      | .error e => (.error e, s) := rfl

/-- The loop of a deletion does not look into the cache. -/
theorem run_deleteEach_congr (userIds : List String) (users : Repository)
    (cache : Cache (Option String) (Option User)) :
    (UserService.deleteEach userIds).run ⟨users, cache⟩ =
      (((UserService.deleteEach userIds).run ⟨users, Cache.empty⟩).1,
        ⟨((UserService.deleteEach userIds).run ⟨users, Cache.empty⟩).2.users, cache⟩) := by
  induction userIds generalizing users with
  | nil => rfl
  | cons userId userIds ih =>
      simp only [UserService.deleteEach, Eff.run_get_bind, Eff.run_ofExcept_bind, Store.lookup]
      cases users.delete (users.findOneByUserId (some userId)) with
      | error e => rfl
      | ok users' => exact ih users'

namespace UserWrite

/-- **A write does not look into the cache**: it commits to the table, and
evicts what its annotation names. -/
theorem run_app (w : UserWrite) (users : Repository)
    (cache : Cache (Option String) (Option User)) :
    (w.app env).run ⟨users, cache⟩ =
      match (w.app env).run ⟨users, Cache.empty⟩ with
      | (.ok _, s) => (.ok (), ⟨s.users, CacheCluster.evicted cache w.evicts⟩)
      | (.error e, _) => (.error e, ⟨users, cache⟩) := by
  cases w with
  | saveUser ctx user =>
      simp only [app, UserService.saveUser, Eff.run_bind, Eff.run_ofExcept, Eff.run_transactional]
      cases hst : beforeSave ctx user with
      | error e => rfl
      | ok stamped =>
          obtain ⟨cd, cu, md, mu, rfl⟩ := stamped_of_beforeSave hst
          dsimp only
          cases UserService.encodePassword env _ with
          | error e => rfl
          | ok enc =>
              dsimp only
              rw [run_saveRepository, run_saveRepository]
              cases users.save enc <;> rfl
  | saveUserWithRole ctx user role =>
      simp only [app, UserService.saveUserWithRole, Eff.run_bind, Eff.run_ofExcept]
      cases hst : beforeSave ctx user with
      | error e => rfl
      | ok stamped =>
          obtain ⟨cd, cu, md, mu, rfl⟩ := stamped_of_beforeSave hst
          dsimp only
          cases henc : UserService.encodePassword env _ with
          | error e => rfl
          | ok enc =>
              have huser := (encoded_of_encodePassword henc).userId_eq
              dsimp only
              rw [run_saveRepository, run_saveRepository]
              cases users.save { enc with role := some role } with
              | error e => rfl
              | ok p =>
                  dsimp only [evictUser]
                  rw [huser]
                  rfl
  | modifyUser user shareUserIds =>
      simp only [app, UserService.modifyUser, Eff.run_bind, Eff.run_ofExcept, Eff.run_transactional,
        Eff.run_get]
      cases checkNotNull user.id _ with
      | error e => rfl
      | ok id =>
          dsimp only
          cases UserService.encodePassword env user with
          | error e => rfl
          | ok enc =>
              dsimp only
              cases users.findOne id with
              | none => rfl
              | some targetUser =>
                  dsimp only
                  simp only [Eff.run_bind]
                  rw [run_saveRepository, run_saveRepository]
                  cases users.save (targetUser.merge env.toLowerCase enc) with
                  | error e => rfl
                  | ok p => rfl
  | deleteUsers userIds =>
      simp only [app, UserService.deleteUsers, Eff.run_bind, Eff.run_transactional]
      rw [run_deleteEach_congr userIds users cache]
      rcases (UserService.deleteEach userIds).run ⟨users, Cache.empty⟩ with ⟨e | x, s⟩
      · rfl
      · rfl
  | save user =>
      simp only [app, Eff.run_bind]
      rw [run_saveRepository, run_saveRepository]
      cases users.save user <;> rfl

/-- **A write that returned** has committed and evicted, -/
theorem run_app_eq_ok_iff :
    (w.app env).run s = (.ok (), s') ↔
      w.commit env s.users = some s'.users ∧ s'.cache = CacheCluster.evicted s.cache w.evicts := by
  rw [commit, run_app w s.users s.cache]
  rcases (w.app env).run ⟨s.users, Cache.empty⟩ with ⟨e | ⟨⟩, s₁⟩
  · simp
  · simp only [Prod.mk.injEq, true_and, Option.some.injEq]
    constructor
    · rintro rfl
      exact ⟨rfl, rfl⟩
    · rintro ⟨husers, hcache⟩
      rw [husers, ← hcache]

/-- and one that threw has done neither. -/
theorem state_of_run_app_error {e : Throwable} (h : (w.app env).run s = (.error e, s')) :
    w.commit env s.users = none ∧ s' = s := by
  rw [run_app w s.users s.cache] at h
  rw [commit]
  rcases hrun : (w.app env).run ⟨s.users, Cache.empty⟩ with ⟨e' | ⟨⟩, s₁⟩
  · rw [hrun] at h
    exact ⟨rfl, (Prod.mk.inj h).2.symm⟩
  · rw [hrun] at h
    cases h

end UserWrite

namespace UserCluster

variable {ι τ : Type} [DecidableEq ι] [DecidableEq τ] {C : UserCluster ι τ}

/-! ## The peers -/

/-- Every node lists a URI of each other one, which has an address of its
own. -/
def ListsOthers (C : UserCluster ι τ) : Prop :=
  ∀ i j, i ≠ j → ∃ u ∈ (C.config i).uris, ∃ address,
    u.address C.net (C.config i).port = some address ∧
      (C.config j).ownAddress C.net = some address ∧
      (C.config i).ownAddress C.net ≠ some address

omit [DecidableEq ι] [DecidableEq τ] in
/-- **A node that lists the others tells them all.** -/
theorem mem_peers_of_listsOthers (h : C.ListsOthers) {i j : ι} (hne : i ≠ j) : j ∈ C.peers i := by
  obtain ⟨u, hu, ⟨ip, port⟩, haddress, hown, hother⟩ := h i j hne
  rw [C.mem_peers]
  refine ⟨_, ClusterNode.rmiUrls_config, DynamicCacheConfig.rmiUrl ip port usersCache,
    List.mem_flatMap.2 ⟨u, hu, ?_⟩, by rw [ClusterNode.usersUrl, hown]; rfl⟩
  have htext : u.text ≠ (C.config i).config.current := fun htext =>
    hother ((ClusterNode.address_of_text_eq_current htext).symm.trans haddress)
  rw [ClusterNode.listedUrls, if_neg htext, haddress]
  exact List.mem_singleton.2 rfl

/-- Two nodes that list each other, and themselves. -/
def twoNodesListed (order : AdviceOrder) : UserCluster Bool Bool :=
  ofConfig ClusterNode.addressesOnly
    (fun second => { ClusterNode.twoNodes with
      currentIP := if second then "10.0.0.2".toList else "10.0.0.1".toList })
    [false, true] (by decide) id order

theorem listsOthers_twoNodesListed (order : AdviceOrder) :
    (twoNodesListed order).ListsOthers := by
  have hfirst : ∃ u ∈ ClusterNode.twoNodes.uris, u.address ClusterNode.addressesOnly 40003 =
      some ("10.0.0.1".toList, 40003) := ⟨_, List.mem_cons_self, rfl⟩
  have hsecond : ∃ u ∈ ClusterNode.twoNodes.uris, u.address ClusterNode.addressesOnly 40003 =
      some ("10.0.0.2".toList, 40003) := ⟨_, List.mem_cons_of_mem _ List.mem_cons_self, rfl⟩
  have hne : some ("10.0.0.1".toList, (40003 : Int)) ≠ some ("10.0.0.2".toList, 40003) := by decide
  intro i j hij
  cases i <;> cases j
  · exact absurd rfl hij
  · obtain ⟨u, hu, haddress⟩ := hsecond
    exact ⟨u, hu, _, haddress, rfl, hne⟩
  · obtain ⟨u, hu, haddress⟩ := hfirst
    exact ⟨u, hu, _, haddress, rfl, hne.symm⟩
  · exact absurd rfl hij

/-! ## What is read after a write -/

/-- The nodes of a cluster, between its calls and in them. -/
abbrev Nodes (ι τ : Type) : Type :=
  CacheCluster ι τ Repository (Option String) (Option User) UserWrite

variable {S S₁ : Nodes ι τ} {t : τ} {j : ι} {k : Option String}

/-- **A node reads what a write has committed**, from the commit on and
whatever overlaps, once the eviction has come to it, exactly when no read
at the node holds another answer at the commit. -/
theorem reads_written_iff (env : Env) (C : UserCluster ι τ) (S S₁ : Nodes ι τ) (t : τ)
    (w : UserWrite) (keys : Evicted (Option String)) (users : Repository) (j : ι)
    (k : Option String) (hlists : C.ListsOthers) (horder : C.order = .commitFirst)
    (hevicts : w.evicts = some keys) (hcovers : keys.Covers k)
    (hcommit : w.commit env S.store = some users)
    (hwrite : CacheCluster.step (C.setup env) S (.write t w) = some S₁) :
    CacheCluster.StaysCurrent (C.setup env) S₁ t j k ↔
      ∀ t' v since, C.node t' = j → CacheCluster.held (S.call t') = some (k, v, since) →
        v = users.findOneByUserId k := by
  refine CacheCluster.current_of_write_iff (P := C.setup env) horder hevicts hcovers ?_ hcommit
    hwrite
  by_cases hj : j = C.node t
  · exact .inl hj
  · exact .inr (mem_peers_of_listsOthers hlists (Ne.symm hj))

/-- The nodes before any call. -/
def startNodes : Nodes Bool Bool := CacheCluster.start DBInit.plaintextStarted.users

/-- The nodes after one step, for the runs on fixed inputs. -/
def afterStep (order : AdviceOrder) (S : Nodes Bool Bool)
    (a : CacheAction Bool Bool (Option String) UserWrite) : Nodes Bool Bool :=
  (CacheCluster.step ((twoNodesListed order).setup plaintextEnv) S a).getD S

/-- The second node has asked the database for the account, and holds what
it has answered. -/
def readingNodes (order : AdviceOrder) (userId : String) : Nodes Bool Bool :=
  afterStep order (afterStep order startNodes (.read true (some userId))) (.query true)

/-- The first node deletes an account while the second one reads: another
one, or this one. -/
theorem reads_written_iff_deletion :
    CacheCluster.StaysCurrent ((twoNodesListed .commitFirst).setup plaintextEnv)
      (afterStep .commitFirst (readingNodes .commitFirst "bob")
        (.write false (.deleteUsers ["user"]))) false true (some "bob") ∧
    ¬ CacheCluster.StaysCurrent ((twoNodesListed .commitFirst).setup plaintextEnv)
      (afterStep .commitFirst (readingNodes .commitFirst "user")
        (.write false (.deleteUsers ["user"]))) false true (some "user") := by
  constructor
  · refine (reads_written_iff plaintextEnv (twoNodesListed .commitFirst)
      (readingNodes .commitFirst "bob") _ false (.deleteUsers ["user"]) .allEntries _ true
      (some "bob") (listsOthers_twoNodesListed _) rfl rfl trivial rfl rfl).2 ?_
    rintro (_ | _) v since hnode hheld
    · cases hnode
    · cases hheld
      rfl
  · intro hstays
    have hcurrent := (reads_written_iff plaintextEnv (twoNodesListed .commitFirst)
      (readingNodes .commitFirst "user") _ false (.deleteUsers ["user"]) .allEntries _ true
      (some "user") (listsOthers_twoNodesListed _) rfl rfl trivial rfl rfl).1 hstays true _ _ rfl
      rfl
    cases hcurrent

/-- **In the order that evicts first** what was put between the eviction
and the commit counts too. -/
theorem reads_committed_iff (env : Env) (C : UserCluster ι τ) (S S₁ : Nodes ι τ) (t : τ)
    (j : ι) (k : Option String)
    (hstep : CacheCluster.step (C.setup env) S (.commit t) = some S₁) :
    CacheCluster.StaysCurrent (C.setup env) S₁ t j k ↔
      (∀ t' v since, C.node t' = j → CacheCluster.held (S.call t') = some (k, v, since) →
        v = S₁.store.findOneByUserId k) ∧
      ∀ v, CacheCluster.hit (C.setup env) S j k = some v → v = S₁.store.findOneByUserId k :=
  CacheCluster.current_of_commit_iff hstep

/-- The first node is about to commit a deletion that both nodes have
evicted, while the second one reads. -/
def committingNodes (userId : String) : Nodes Bool Bool :=
  [.write false (.deleteUsers ["user"]), .evict false, .tell false, .tell false].foldl
    (afterStep .evictFirst) (readingNodes .evictFirst userId)

theorem reads_committed_iff_deletion :
    CacheCluster.StaysCurrent ((twoNodesListed .evictFirst).setup plaintextEnv)
      (afterStep .evictFirst (committingNodes "bob") (.commit false)) false true (some "bob") ∧
    ¬ CacheCluster.StaysCurrent ((twoNodesListed .evictFirst).setup plaintextEnv)
      (afterStep .evictFirst (committingNodes "user") (.commit false)) false true
      (some "user") := by
  constructor
  · refine (reads_committed_iff plaintextEnv (twoNodesListed .evictFirst) (committingNodes "bob") _
      false true (some "bob") rfl).2 ⟨?_, fun v h => ?_⟩
    · rintro (_ | _) v since hnode hheld
      · cases hnode
      · cases hheld
        rfl
    · cases h
  · intro hstays
    have hcurrent := ((reads_committed_iff plaintextEnv (twoNodesListed .evictFirst)
      (committingNodes "user") _ false true (some "user") rfl).1 hstays).1 true _ _ rfl rfl
    cases hcurrent

/-- A read of the first node, and some time. -/
def readActions : List (CacheAction Bool Bool (Option String) UserWrite) :=
  [.read false (some "user"), .query false, .put false, .tick]

theorem prompt_readActions (users : Repository) :
    Along (CacheCluster.step ((twoNodesListed .commitFirst).setup plaintextEnv))
      (CacheCluster.Prompt 0) (CacheCluster.start users) readActions := by
  have hnever : ∀ (a : CacheAction Bool Bool (Option String) UserWrite) (S : Nodes Bool Bool),
      (∀ t, a ≠ .put t) → CacheCluster.Prompt 0 S a :=
    fun a S ha t k v since hput => absurd hput (ha t)
  refine ⟨hnever _ _ fun _ h => (nomatch h), fun S₁ h₁ =>
    ⟨hnever _ _ fun _ h => (nomatch h), fun S₂ h₂ =>
      ⟨?_, fun S₃ h₃ => ⟨hnever _ _ fun _ h => (nomatch h), fun _ _ => trivial⟩⟩⟩⟩
  rintro t k v since ⟨⟩ hheld
  obtain rfl := Option.some.inj h₁
  obtain rfl := Option.some.inj h₂
  cases hheld
  exact Nat.le_refl _

/-- One call with nothing in between, at its node. -/
theorem exists_run_call (call : UserCall) (hidle : S.call t = .idle) :
    ∃ as S', perform (CacheCluster.step (C.setup env)) S as = some S' ∧ S'.call = S.call ∧
      nodeStore env C S' (C.node t) = call.ends env (nodeStore env C S (C.node t)) := by
  cases call with
  | getUserById userId =>
      obtain ⟨as, S', hrun, hstore, hcalls, -, hanswers, -⟩ :=
        CacheCluster.exists_run_read (P := C.setup env) S userId hidle
      refine ⟨as, S', hrun, hcalls, ?_⟩
      rw [UserCall.ends, UserCall.app, Eff.run_bind_of_ok (run_getUserById _ _), nodeStore, hstore]
      exact congrArg (Store.mk S.store) hanswers
  | write w =>
      rw [UserCall.ends, UserCall.app]
      rcases hend : (w.app env).run (nodeStore env C S (C.node t)) with ⟨e | ⟨⟩, s'⟩
      · -- what throws commits nothing
        obtain ⟨hcommit, rfl⟩ := UserWrite.state_of_run_app_error hend
        have hthrows : (C.setup env).commit w S.store = none := hcommit
        refine ⟨[.write t w], S, perform_cons_eq_some.2 ⟨S, ?_, rfl⟩, rfl, rfl⟩
        simp only [CacheCluster.step, hidle, hthrows]
      · obtain ⟨hcommit, hcache⟩ := UserWrite.run_app_eq_ok_iff.1 hend
        obtain ⟨as, S', hrun, hstore, hcalls, -, hanswers⟩ :=
          CacheCluster.exists_run_write (P := C.setup env) S w hidle hcommit
        refine ⟨as, S', hrun, hcalls, ?_⟩
        rw [nodeStore, hstore, hanswers, if_pos (.inl rfl)]
        exact congrArg (Store.mk s'.users) hcache.symm

/-- **Calls that do not overlap** do at their node what the service does
when it is called in order. -/
theorem exists_run_calls (env : Env) (C : UserCluster ι τ) (S : Nodes ι τ) (t : τ)
    (calls : List UserCall) (hidle : S.call t = .idle) :
    ∃ as S', perform (CacheCluster.step (C.setup env)) S as = some S' ∧ S'.call = S.call ∧
      nodeStore env C S' (C.node t) =
        calls.foldl (UserCall.ends env) (nodeStore env C S (C.node t)) := by
  induction calls generalizing S with
  | nil => exact ⟨[], S, rfl, rfl, rfl⟩
  | cons call calls ih =>
      obtain ⟨as, S₁, hrun, hcall, hnode⟩ := exists_run_call call hidle
      obtain ⟨bs, S', hrun', hcall', hnode'⟩ := ih S₁ (hcall ▸ hidle)
      refine ⟨as ++ bs, S', ?_, hcall'.trans hcall, ?_⟩
      · rw [perform_append, hrun]
        exact hrun'
      · rw [hnode', hnode, List.foldl_cons]

theorem exists_run_calls_twoCalls :
    ∃ as S', perform (CacheCluster.step ((twoNodesListed .evictFirst).setup plaintextEnv))
        startNodes as = some S' ∧ S'.call = startNodes.call ∧
      nodeStore plaintextEnv (twoNodesListed .evictFirst) S' false =
        [UserCall.getUserById (some "user"), .write (.deleteUsers ["user"])].foldl
          (UserCall.ends plaintextEnv)
          (nodeStore plaintextEnv (twoNodesListed .evictFirst) startNodes false) :=
  exists_run_calls plaintextEnv (twoNodesListed .evictFirst) startNodes false _ rfl

end UserCluster

end Zooffice
