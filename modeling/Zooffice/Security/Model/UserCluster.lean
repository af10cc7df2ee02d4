import Zooffice.Common.CacheCluster
import Zooffice.Infra.Peers
import Zooffice.User.Model.Service
/-!
# The users in a cluster

Every node of a cluster has its own `users` cache beside the database they
share. `ehcache-dist.xml` makes a removal known to the peers, and an update
of an entry as a removal, but not a put; the peers are those
`DynamicCacheConfig` lists. Which of the advices of a method runs first,
the one that commits or the one that evicts, the configuration does not
say.
-/


namespace Zooffice

/-- What writes users: a method of the service, or the filter of the form
login, which saves through the repository and evicts nothing. -/
inductive UserWrite where
  | saveUser (ctx : CallContext) (user : User)
  | saveUserWithRole (ctx : CallContext) (user : User) (role : Role)
  | modifyUser (user : User) (shareUserIds : Option String)
  | deleteUsers (userIds : List String)
  | save (user : User)

namespace UserWrite

/-- The call, without what it returns. -/
def app (env : Env) : UserWrite → App Unit
  | .saveUser ctx user => do
      let _ ← UserService.saveUser env ctx user
      return ()
  | .saveUserWithRole ctx user role => UserService.saveUserWithRole env ctx user role
  | .modifyUser user shareUserIds => do
      let _ ← UserService.modifyUser env user shareUserIds
      return ()
  | .deleteUsers userIds => UserService.deleteUsers userIds
  | .save user => do
      let _ ← saveRepository user
      return ()

/-- What its `@CacheEvict` names. -/
def evicts : UserWrite → Option (Evicted (Option String))
  | .saveUser _ user | .saveUserWithRole _ user _ | .modifyUser user _ => some (.key user.userId)
  | .deleteUsers _ => some .allEntries
  | .save _ => none

/-- What it commits to the table, unless it throws. -/
def commit (env : Env) (w : UserWrite) (users : Repository) : Option Repository :=
  match (w.app env).run ⟨users, Cache.empty⟩ with
  | (.ok _, s) => some s.users
  | (.error _, _) => none

end UserWrite

/-- A call of the service. -/
inductive UserCall where
  | getUserById (userId : Option String)
  | write (w : UserWrite)

/-- The call, without what it returns. -/
def UserCall.app (env : Env) : UserCall → App Unit
  | .getUserById userId => do
      let _ ← UserService.getUserById userId
      return ()
  | .write w => w.app env

/-- The store that a call leaves, whether it returns or throws. -/
def UserCall.ends (env : Env) (s : Store) (call : UserCall) : Store := ((call.app env).run s).2

/-- The distributed cache. -/
def usersCache : Text := "users".toList

/-- The URL of the `users` cache of a node. -/
def ClusterNode.usersUrl (net : Network) (n : ClusterNode) : Option Text :=
  (n.ownAddress net).map fun address => DynamicCacheConfig.rmiUrl address.1 address.2 usersCache

/-- **A cluster**: the configuration of each node, its peers, in whatever
order they are told, and where a call runs. -/
structure UserCluster (ι τ : Type) where
  net : Network
  config : ι → ClusterNode
  peers : ι → List ι
  mem_peers : ∀ i j, j ∈ peers i ↔ ∃ urls,
    DynamicCacheConfig.rmiUrls net (config i).config [usersCache] = .ok urls ∧
      ∃ url ∈ urls, (config j).usersUrl net = some url
  node : τ → ι
  order : AdviceOrder

namespace UserCluster

variable {ι τ : Type}

/-- The cluster of the listed nodes, which are all there are. -/
def ofConfig (net : Network) (config : ι → ClusterNode) (nodes : List ι)
    (complete : ∀ i, i ∈ nodes) (node : τ → ι) (order : AdviceOrder) : UserCluster ι τ where
  net := net
  config := config
  peers i := nodes.filter fun j =>
    ((config i).uris.flatMap ((config i).listedUrls net [usersCache])).any fun url =>
      decide ((config j).usersUrl net = some url)
  mem_peers i j := by
    simp only [List.mem_filter, complete, true_and, List.any_eq_true, decide_eq_true_eq,
      ClusterNode.rmiUrls_config, Except.ok.injEq, exists_eq_left']
  node := node
  order := order

/-- `timeToLiveSeconds` of the `users` cache, in milliseconds. -/
def timeToLive : ℕ := 30000

/-- The caches of the cluster. -/
def setup (env : Env) (C : UserCluster ι τ) :
    CacheSetup ι τ Repository (Option String) (Option User) UserWrite where
  node := C.node
  peers := C.peers
  lookup := Repository.findOneByUserId
  commit := UserWrite.commit env
  evicts := UserWrite.evicts
  timeToLive := timeToLive
  order := C.order

/-- The table, and the cache of one node. -/
def nodeStore (env : Env) (C : UserCluster ι τ)
    (S : CacheCluster ι τ Repository (Option String) (Option User) UserWrite) (j : ι) : Store :=
  ⟨S.store, CacheCluster.answers (C.setup env) S j⟩

end UserCluster

end Zooffice
