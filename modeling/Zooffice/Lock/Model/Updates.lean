import Zooffice.Lock.Model.LockService
/-!
# What the nodes do to the schema

`LiquibaseEx.update` holds the lock while its change log runs, and the
change log is what the lock is for: a list of operations on the database,
each committed on the connection that has locked the row. Which operations
an update performs is left open here. An update is named by its node and
by how many the node had started when it began.
-/


namespace Zooffice

/-- The cluster, the number of updates each node has started, the schema,
and the operations each update has performed on it. -/
structure Updating (ι σ β : Type) where
  cluster : Cluster ι
  started : ι → Nat
  schema : σ
  performed : ι × Nat → List β

/-- What happens at a node: a step of its `update`, or an operation of the
change log. -/
inductive UpdateAction (β : Type) where
  | lockService (action : NodeAction)
  | operate (operation : β)
  deriving DecidableEq, Repr

/-- What the action does as a step of the cluster: an operation ends with a
commit. -/
def UpdateAction.nodeAction {β : Type} : UpdateAction β → NodeAction
  | .lockService action => action
  | .operate _ => .commits

namespace Updating

variable {ι σ β : Type} [DecidableEq ι]

/-- Before any node has started. -/
def start (locked : Bool) (schema : σ) : Updating ι σ β where
  cluster := Cluster.start locked
  started _ := 0
  schema := schema
  performed _ := []

/-- The update the node `i` has started last. -/
def current (S : Updating ι σ β) (i : ι) : ι × Nat := (i, S.started i)

/-- The change log runs at the node `i`. -/
def inChangeLog (S : Updating ι σ β) (i : ι) : Bool :=
  !(S.cluster.node i).stopped && decide ((S.cluster.node i).pc = .changeLog)

/-- An operation of the update that runs at the node `i`. -/
def operate (execute : β → σ → σ) (S : Updating ι σ β) (i : ι) (operation : β) :
    Updating ι σ β :=
  { S with
    schema := execute operation S.schema
    performed := Function.update S.performed (S.current i)
      (S.performed (S.current i) ++ [operation]) }

/-- One step. -/
def step (kind : DatabaseKind) (execute : β → σ → σ) (S : Updating ι σ β)
    (a : ι × UpdateAction β) : Option (Updating ι σ β) :=
  (S.cluster.step kind (a.1, a.2.nodeAction)).map fun cluster =>
    match a.2 with
    | .lockService action =>
        { S with
          cluster := cluster
          started :=
            if action = .update then Function.update S.started a.1 (S.started a.1 + 1)
            else S.started }
    | .operate operation => { S.operate execute a.1 operation with cluster := cluster }

/-- The schema after the operations. -/
def executeAll (execute : β → σ → σ) (operations : List β) (schema : σ) : σ :=
  operations.foldl (fun s operation => execute operation s) schema

end Updating

end Zooffice
