import OpenAgent.Capabilities.Catalog
import OpenAgent.Storage.Runs

/-!
# The state of a runtime

What one `Runtime` object holds between two awaits, together with the calls that are in progress on
it. A call is a coroutine, so its state is the place where it is suspended and the locals it still
needs there. Objects with an identity of their own (module graphs, their instances, execution tasks,
calls) are named by their place in the list of all those ever made.
-/

namespace OpenAgent

open Lib

inductive Failure
  | store (error : StoreError)
  | runtime (text : String)
  | value (text : String)
  | lookup
  | denied
  | reconfiguration (text : String)
  | host
  | cancelled
deriving DecidableEq

/-! ### Module graphs -/

/-- How far `_prepare_graph` is with a graph. -/
inductive Preparation
  | building (started : List Nat)
  | unwinding (remaining : List Nat)
  | failed
  | ready
deriving DecidableEq

/-- `_ActiveGraph`, with the registrations its modules made in the catalog. -/
structure Graph where
  generation : Nat
  preparation : Preparation := .building []
  instances : List Nat := []
  registered : List Nat := []
  leases : Nat := 0
  draining : Bool := false
  drained : Bool := false

def Graph.ofGeneration (generation : Nat) : Graph := { generation := generation }

/-- `acquire`, which raises on a graph that is draining. -/
def Graph.acquire (g : Graph) : Option Graph :=
  if g.draining then none else some { g with leases := g.leases + 1, drained := false }

def Graph.release (g : Graph) : Graph :=
  if g.leases < 1 then g
  else { g with leases := g.leases - 1, drained := if g.leases - 1 = 0 then true else g.drained }

def Graph.retired (g : Graph) : Graph :=
  { g with draining := true, drained := if g.leases = 0 then true else g.drained }

/-- A module instance whose `start()` returned: its graph, and how often `close()` was called on it. -/
structure Instance where
  graph : Nat
  closes : Nat := 0

def Instance.started (g : Nat) : Instance := { graph := g }

/-- How far a `_close_graph` is. -/
inductive CloserPhase
  | closing (remaining : List Nat)
  | finished
  | aborted
deriving DecidableEq

/-- One invocation of `_close_graph`. -/
structure Closer where
  graph : Nat
  phase : CloserPhase

/-- `_close_graph` of a graph with these instances, before its first await. -/
def Closer.of (g : Nat) (instances : List Nat) : Closer := ⟨g, .closing instances.reverse⟩

/-! ### Execution tasks -/

/-- Where `_execute` is. In `settling` a final status is about to be written, in an exception handler
or, where `handler` is false, at the end of the body. -/
inductive Phase
  | created
  | entering
  | reading
  | claiming
  | claimed
  | executing
  | publishing (output : Option Json)
  | settling (status : RunStatus) (output : Option Json) (handler : Bool)
  | ended (dropped : Bool)

/-- A task running `_execute`; `cancelled` is a cancellation it has not been told of yet. -/
structure Execution where
  request : RunRequest
  context : ExecutionContext
  graph : Nat
  revision : Nat
  phase : Phase := .created
  cancelled : Bool := false

/-- `task.done()` -/
def Execution.done (e : Execution) : Bool :=
  match e.phase with
  | .ended _ => true
  | _ => false

def Execution.fresh (e : Execution) : Bool :=
  match e.phase with
  | .created | .entering | .reading | .claiming | .claimed => true
  | _ => false

/-- Whether the task is inside the `try` body of `_execute`. -/
def Execution.inBody (e : Execution) : Bool :=
  match e.phase with
  | .created | .ended _ => false
  | .settling _ _ handler => !handler
  | _ => true

/-- `task.cancel()` -/
def Execution.cancel (e : Execution) : Execution := if e.done then e else { e with cancelled := true }

/-! ### Calls -/

inductive SubmitPhase (D : Type)
  | waiting
  | authorizing (graph : Nat)
  | accepting (graph : Nat)
  | profiling (record : RunRecord D) (graph revision : Nat)
  | ended (outcome : Except Failure (RunRecord D)) (created : Option String)

/-- A call of `submit`. Past the lifecycle lock, a cancellation of the caller is only remembered: the
admission ends as it would, and then the caller is told that it was cancelled. -/
structure Submit (D : Type) where
  request : RunRequest
  context : ExecutionContext
  phase : SubmitPhase D := .waiting
  interrupted : Bool := false

inductive CancelPhase
  | looking
  | reserving
  | reading
  | requesting
  | gathering (task : Nat)
  | settling
  | ended

structure Cancel where
  runId : String
  context : ExecutionContext
  reserve : Bool
  phase : CancelPhase

inductive ClosePhase
  | waiting
  | gathering (tasks : List Nat)
  | leftovers (runs : List String)
  | closing (closer : Nat) (rest : List Nat)
  | modules
  | ended

inductive StartPhase
  | waiting
  | preparing (graph : Nat)
  | starting (graph : Nat)
  | failing (closer : Nat)
  | ended

inductive ReconfigurePhase
  | waiting
  | preflight
  | preparing (graph : Nat)
  | losing (graph closer : Nat)
  | draining (graph old : Nat)
  | gathering (graph old : Nat) (tasks : List Nat)
  | emptying (graph old : Nat)
  | closing (graph old closer : Nat)
  | lost
  | won (raised : Bool)

structure Reconfigure where
  generation : Nat
  expected : Nat
  force : Bool
  phase : ReconfigurePhase := .waiting

def Reconfigure.asked (generation expected : Nat) (force : Bool) : Reconfigure :=
  { generation := generation, expected := expected, force := force }

/-- Where `_spawn_admitted` is; from `linking` on the child is known. What is raised names the run that
was admitted, if one was. -/
inductive SpawnPhase (D : Type)
  | authorizing
  | submitting (submit : Nat)
  | linking (child : RunRecord D)
  | waiting (child : RunRecord D)
  | requesting (child : RunRecord D)
  | gathering (child : RunRecord D) (task : Nat)
  | settling (child : RunRecord D)
  | returned (child : RunRecord D)
  | raised (failure : Failure) (child : Option String)

/-- A call of `_spawn_admitted`: its parent run, and the request and the context of the child. -/
structure Spawn (D : Type) where
  parent : String
  request : RunRequest
  context : ExecutionContext
  interrupted : Bool := false
  phase : SpawnPhase D := .authorizing

inductive Holder
  | submit (i : Nat)
  | close (i : Nat)
  | start (i : Nat)
  | reconfigure (i : Nat)
deriving DecidableEq

/-! ### The runtime -/

structure Runtime (D P : Type) where
  ledger : Ledger D P
  catalog : Catalog
  initialGeneration : Nat
  ownsStore : Bool
  started : Bool := false
  closing : Bool := false
  lifecycle : Option Holder := none
  activeGraph : Option Nat := none
  retiredGraphs : Dict Nat Nat := .empty
  graphs : List Graph := []
  instances : List Instance := []
  closers : List Closer := []
  runGraphs : Dict String Nat := .empty
  runCapabilityRevisions : Dict String Nat := .empty
  tasks : Dict String Nat := .empty
  executions : List Execution := []
  executed : List String := []
  submits : List (Submit D) := []
  cancels : List Cancel := []
  closes : List ClosePhase := []
  starts : List StartPhase := []
  reconfigures : List Reconfigure := []
  spawns : List (Spawn D) := []

/-- The surroundings of one store call: the moment it runs at and the publication bound then. -/
structure Attempt (D P : Type) where
  moment : Moment
  publication : Option (Publication D P) := none

/-- What never changes under a runtime: the request fingerprint and the supply of secrets. -/
structure Environment (D : Type) where
  fingerprint : RunRequest → ExecutionContext → D
  token : Nat → String

def Attempt.host {D P : Type} (attempt : Attempt D P) (env : Environment D) : Host D P :=
  ⟨env.fingerprint, attempt.publication⟩

def Runtime.construct {D P : Type} (ledger : Ledger D P) (catalog : Catalog)
    (initialGeneration : Nat) (ownsStore : Bool) : Runtime D P where
  ledger := ledger
  catalog := catalog
  initialGeneration := initialGeneration
  ownsStore := ownsStore

end OpenAgent
