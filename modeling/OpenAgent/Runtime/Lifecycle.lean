import OpenAgent.Runtime.Steps

/-!
# The life of module graphs

Preparing a graph, closing one, and the three calls that do so: `start`, `reconfigure` and `close`.
`_prepare_graph` and `_close_graph` are coroutines that several calls await, so each of their
invocations has steps of its own and its caller goes on when it is over. Workers and other components
of a graph are left out: nothing here depends on when they stop.
-/

namespace OpenAgent

open Lib

structure CapabilityContribution where
  sourceId : String
  targetLabel : String
  managed : Bool := true
  trustedEffects : TrustedEffects := .every ∅

namespace Catalog

/-- `_register_module_capability` -/
def registerModuleCapability (c : Catalog) (capability : CapabilityContribution) (generation : Nat) :
    Except CatalogError Catalog :=
  if capability.managed then c.register {
    sourceId := capability.sourceId
    targetLabel := capability.targetLabel
    managed := true
    trustedEffects := capability.trustedEffects
    graphGeneration := some generation }
  else c.registerUserSource capability.sourceId capability.targetLabel (some generation)

/-- Register the capabilities of one module, up to the first that is refused: the registrations made,
the catalog, and whether all of them were. -/
def registerModule (generation : Nat) : List CapabilityContribution → Catalog → List Nat × Catalog × Bool
  | [], c => ([], c, true)
  | capability :: rest, c =>
    match c.registerModuleCapability capability generation with
    | .error _ => ([], c, false)
    | .ok c' =>
      let (ids, last, ok) := registerModule generation rest c'
      (c.objects.length :: ids, last, ok)

end Catalog

namespace Runtime

variable {D P : Type} [DecidableEq D]

def setGraph (s : Runtime D P) (g : Nat) (graph : Graph) : Runtime D P :=
  { s with graphs := s.graphs.set g graph }

def generationOf (s : Runtime D P) (g : Nat) : Nat := (s.graphs[g]?.map Graph.generation).getD 0

def instancesOf (s : Runtime D P) (g : Nat) : List Nat := (s.graphs[g]?.map Graph.instances).getD []

/-- `instance.close()`; whatever it raises is collected or ignored. -/
def closeInstance (s : Runtime D P) (x : Nat) : Runtime D P :=
  { s with instances := s.instances.modify x fun i => { i with closes := i.closes + 1 } }

/-! ### Preparing -/

def beginPreparation (s : Runtime D P) (generation : Nat) : Runtime D P :=
  { s with graphs := s.graphs ++ [Graph.ofGeneration generation] }

/-- The `except BaseException` of `_prepare_graph`, up to its first await. -/
def unwind (s : Runtime D P) (g : Nat) (graph : Graph) (started : List Nat) : Runtime D P :=
  setGraph { s with catalog := s.catalog.revokeGeneration graph.generation } g
    { graph with preparation := .unwinding started.reverse }

/-- An instance has started: its services are bound, if `bound`, and its capabilities registered. The
instance is among the started ones only after both. -/
def prepareInstance (s : Runtime D P) (g : Nat) (bound : Bool)
    (capabilities : List CapabilityContribution) : Option (Runtime D P) :=
  match s.graphs[g]? with
  | none => none
  | some graph =>
    match graph.preparation with
    | .building started =>
      let x := s.instances.length
      let s := { s with instances := s.instances ++ [Instance.started g] }
      if bound = false then some (s.unwind g graph started)
      else
        let (ids, catalog, registered) := s.catalog.registerModule graph.generation capabilities
        let graph := { graph with registered := graph.registered ++ ids }
        let s := { s with catalog }
        if registered then some (s.setGraph g { graph with preparation := .building (started ++ [x]) })
        else some (s.unwind g graph started)
    | _ => none

def prepareFail (s : Runtime D P) (g : Nat) : Option (Runtime D P) :=
  match s.graphs[g]? with
  | none => none
  | some graph =>
    match graph.preparation with
    | .building started => some (s.unwind g graph started)
    | _ => none

def prepareUnwind (s : Runtime D P) (g : Nat) : Option (Runtime D P) :=
  match s.graphs[g]? with
  | none => none
  | some graph =>
    match graph.preparation with
    | .unwinding [] => some (s.setGraph g { graph with preparation := .failed })
    | .unwinding (x :: rest) =>
      some ((s.closeInstance x).setGraph g { graph with preparation := .unwinding rest })
    | _ => none

/-- The unwinding is cancelled, which `except Exception` does not stop. -/
def prepareAbort (s : Runtime D P) (g : Nat) : Option (Runtime D P) :=
  match s.graphs[g]? with
  | none => none
  | some graph =>
    match graph.preparation with
    | .unwinding _ => some (s.setGraph g { graph with preparation := .failed })
    | _ => none

def prepareDone (s : Runtime D P) (g : Nat) : Option (Runtime D P) :=
  match s.graphs[g]? with
  | none => none
  | some graph =>
    match graph.preparation with
    | .building started =>
      some (s.setGraph g { graph with preparation := .ready, instances := started, drained := true })
    | _ => none

/-! ### Closing a graph -/

/-- `_close_graph` is called. -/
def beginClose (s : Runtime D P) (g : Nat) : Runtime D P :=
  { s with closers := s.closers ++ [Closer.of g (s.instancesOf g)] }

def setCloser (s : Runtime D P) (c : Nat) (closer : Closer) : Runtime D P :=
  { s with closers := s.closers.set c closer }

/-- The next instance is closed, or the sources of the generation are revoked and the graph of that
generation leaves the retired ones. -/
def closerStep (s : Runtime D P) (c : Nat) : Option (Runtime D P) :=
  match s.closers[c]? with
  | none => none
  | some closer =>
    match closer.phase with
    | .closing (x :: rest) => some ((s.closeInstance x).setCloser c { closer with phase := .closing rest })
    | .closing [] => some (setCloser { s with
        catalog := s.catalog.revokeGeneration (s.generationOf closer.graph)
        retiredGraphs := s.retiredGraphs.pop (s.generationOf closer.graph) } c
        { closer with phase := .finished })
    | _ => none

def closerAbort (s : Runtime D P) (c : Nat) : Option (Runtime D P) :=
  match s.closers[c]? with
  | none => none
  | some closer =>
    match closer.phase with
    | .closing _ => some (s.setCloser c { closer with phase := .aborted })
    | _ => none

def closerPhase (s : Runtime D P) (c : Nat) : Option CloserPhase := s.closers[c]?.map Closer.phase

/-! ### Starting -/

def setStart (s : Runtime D P) (i : Nat) (phase : StartPhase) : Runtime D P :=
  { s with starts := s.starts.set i phase }

def startCall (s : Runtime D P) : Runtime D P := { s with starts := s.starts ++ [StartPhase.waiting] }

/-- The `except BaseException` of `start`. -/
def startFail (s : Runtime D P) (i : Nat) : Runtime D P :=
  match s.activeGraph with
  | some g => (s.beginClose g).setStart i (.failing s.closers.length)
  | none => setStart { s with lifecycle := none } i .ended

/-- What `start` does to the store before it prepares a graph. -/
def recoverStore (env : Environment D) (s : Runtime D P) (attempt : Attempt D P)
    (further : List Moment) : Except StoreError Unit × Ledger D P :=
  if s.ownsStore then Store.recover (attempt.host env) (attempt.moment :: further) s.ledger
  else (.ok (), s.ledger)

def startEnter (env : Environment D) (s : Runtime D P) (i : Nat) (attempt : Attempt D P)
    (further : List Moment) (resolves : Bool) : Option (Runtime D P) :=
  match s.starts[i]? with
  | some .waiting =>
    if s.lifecycle ≠ none then none
    else if s.started || s.closing then some (s.setStart i .ended)
    else
      let recovered := s.recoverStore env attempt further
      let s := { s with ledger := recovered.2, lifecycle := some (.start i) }
      match recovered.1, resolves with
      | .ok _, true =>
        some ((s.beginPreparation s.initialGeneration).setStart i (.preparing s.graphs.length))
      | _, _ => some (s.startFail i)
  | _ => none

def startPrepared (s : Runtime D P) (i : Nat) : Option (Runtime D P) :=
  match s.starts[i]? with
  | some (.preparing g) =>
    match s.graphs[g]?.map Graph.preparation with
    | some .ready => some (setStart { s with
        activeGraph := some g
        catalog := s.catalog.activateGeneration (some (s.generationOf g)) } i (.starting g))
    | some .failed => some (s.startFail i)
    | _ => none
  | _ => none

def startDone (s : Runtime D P) (i : Nat) : Option (Runtime D P) :=
  match s.starts[i]? with
  | some (.starting _) => some (setStart { s with started := true, lifecycle := none } i .ended)
  | _ => none

def startRaise (s : Runtime D P) (i : Nat) : Option (Runtime D P) :=
  match s.starts[i]? with
  | some (.starting _) => some (s.startFail i)
  | _ => none

def startClosed (s : Runtime D P) (i : Nat) : Option (Runtime D P) :=
  match s.starts[i]? with
  | some (.failing c) =>
    match s.closerPhase c with
    | some .finished => some (setStart { s with activeGraph := none, lifecycle := none } i .ended)
    | some .aborted => some (setStart { s with lifecycle := none } i .ended)
    | _ => none
  | _ => none

/-! ### Reconfiguring -/

def setReconfigure (s : Runtime D P) (k : Nat) (call : Reconfigure) (phase : ReconfigurePhase) :
    Runtime D P :=
  { s with reconfigures := s.reconfigures.set k { call with phase } }

def reconfigureCall (s : Runtime D P) (generation expected : Nat) (force : Bool) : Runtime D P :=
  { s with reconfigures := s.reconfigures ++ [Reconfigure.asked generation expected force] }

def expectedGraph (s : Runtime D P) (expected : Nat) : Option Nat :=
  s.activeGraph.filter fun g => s.generationOf g = expected

def reconfigureCheck (s : Runtime D P) (k : Nat) (resolves : Bool) : Option (Runtime D P) :=
  match s.reconfigures[k]? with
  | none => none
  | some call =>
    match call.phase with
    | .waiting =>
      if s.lifecycle ≠ none then none
      else if s.admits && (s.expectedGraph call.expected).isSome && call.expected < call.generation &&
          resolves then
        some (s.setReconfigure k call .preflight)
      else some (s.setReconfigure k call .lost)
    | _ => none

def reconfigurePreflight (s : Runtime D P) (k : Nat) (passes : Bool) : Option (Runtime D P) :=
  match s.reconfigures[k]? with
  | none => none
  | some call =>
    match call.phase with
    | .preflight =>
      if passes then
        some ((s.beginPreparation call.generation).setReconfigure k call (.preparing s.graphs.length))
      else some (s.setReconfigure k call .lost)
    | _ => none

/-- The candidate is there and so is the lifecycle lock: it replaces the active graph, or it has lost
and is closed. A preparation that raised raises here. -/
def reconfigureSwap (s : Runtime D P) (k : Nat) : Option (Runtime D P) :=
  match s.reconfigures[k]? with
  | none => none
  | some call =>
    match call.phase with
    | .preparing g =>
      match s.graphs[g]?.map Graph.preparation with
      | some .failed => some (s.setReconfigure k call .lost)
      | some .ready =>
        if s.lifecycle ≠ none then none
        else match s.expectedGraph call.expected with
        | none => some (setReconfigure (beginClose { s with lifecycle := some (.reconfigure k) } g) k call
            (.losing g s.closers.length))
        | some old =>
          some (setReconfigure { s with
            graphs := s.graphs.modify old Graph.retired
            retiredGraphs := s.retiredGraphs.set (s.generationOf old) old
            activeGraph := some g
            catalog := s.catalog.activateGeneration (some call.generation) } k call (.draining g old))
      | _ => none
    | _ => none

def reconfigureLost (s : Runtime D P) (k : Nat) : Option (Runtime D P) :=
  match s.reconfigures[k]? with
  | none => none
  | some call =>
    match call.phase with
    | .losing _ c =>
      match s.closerPhase c with
      | some .finished | some .aborted => some (setReconfigure { s with lifecycle := none } k call .lost)
      | _ => none
    | _ => none

def tasksOn (s : Runtime D P) (old : Nat) : List Nat :=
  (s.tasks.entries.filter fun e => s.runGraphs.get? e.1 = some old ∧ s.taskDone e.2 = false).map Prod.snd

def reconfigureDrain (s : Runtime D P) (k : Nat) (drains : Bool) : Option (Runtime D P) :=
  match s.reconfigures[k]? with
  | none => none
  | some call =>
    match call.phase with
    | .draining g old =>
      if drains = false then some (s.setReconfigure k call (.won true))
      else if call.force then
        some ((s.cancelTasks (s.tasksOn old)).setReconfigure k call (.gathering g old (s.tasksOn old)))
      else some (s.setReconfigure k call (.emptying g old))
    | _ => none

/-- `_close_graph(old)` begins when the tasks are done or the graph has drained. -/
def reconfigureEmpty (s : Runtime D P) (k : Nat) : Option (Runtime D P) :=
  match s.reconfigures[k]? with
  | none => none
  | some call =>
    match call.phase with
    | .gathering g old tasks =>
      if tasks.all s.taskDone then
        some ((s.beginClose old).setReconfigure k call (.closing g old s.closers.length))
      else none
    | .emptying g old =>
      if s.graphs[old]?.any Graph.drained then
        some ((s.beginClose old).setReconfigure k call (.closing g old s.closers.length))
      else none
    | _ => none

def reconfigureClosed (s : Runtime D P) (k : Nat) (errors : Bool) : Option (Runtime D P) :=
  match s.reconfigures[k]? with
  | none => none
  | some call =>
    match call.phase with
    | .closing _ _ c =>
      match s.closerPhase c with
      | some .finished => some (s.setReconfigure k call (.won errors))
      | some .aborted => some (s.setReconfigure k call (.won true))
      | _ => none
    | _ => none

def reconfigureAbort (s : Runtime D P) (k : Nat) : Option (Runtime D P) :=
  match s.reconfigures[k]? with
  | none => none
  | some call =>
    match call.phase with
    | .waiting | .preflight => some (s.setReconfigure k call .lost)
    | .preparing g =>
      if (s.graphs[g]?.map Graph.preparation) = some .ready then some (s.setReconfigure k call .lost)
      else none
    | .draining _ _ | .emptying _ _ => some (s.setReconfigure k call (.won true))
    | .gathering _ _ tasks => some ((s.cancelTasks tasks).setReconfigure k call (.won true))
    | _ => none

/-! ### Closing the runtime -/

def setClose (s : Runtime D P) (j : Nat) (phase : ClosePhase) : Runtime D P :=
  { s with closes := s.closes.set j phase }

def closeCall (s : Runtime D P) : Runtime D P := { s with closes := s.closes ++ [ClosePhase.waiting] }

def closeEnter (s : Runtime D P) (j : Nat) : Option (Runtime D P) :=
  match s.closes[j]? with
  | some .waiting =>
    if s.lifecycle ≠ none then none
    else if s.closing then some (s.setClose j .ended)
    else some (setClose (cancelTasks { s with lifecycle := some (.close j), closing := true }
      s.tasks.values) j (.gathering s.tasks.values))
  | _ => none

def closeGathered (s : Runtime D P) (j : Nat) : Option (Runtime D P) :=
  match s.closes[j]? with
  | some (.gathering tasks) =>
    if tasks.all s.taskDone then some (s.setClose j (.leftovers s.tasks.keys)) else none
  | _ => none

/-- A run whose task could not run its `finally` is interrupted. -/
def closeLeftover (env : Environment D) (s : Runtime D P) (j : Nat) (attempt : Attempt D P) :
    Option (Runtime D P) :=
  match s.closes[j]? with
  | some (.leftovers (runId :: rest)) =>
    match Store.transaction attempt.moment (Store.transition (attempt.host env) runId .interrupted
        (some (.obj [("reason", .str "runtime_closed")])) attempt.moment.now) s.ledger with
    | (.ok _, ledger) => some (setClose { s with ledger } j (.leftovers rest))
    | (.error _, ledger) => some (setClose { s with ledger := ledger, lifecycle := none } j .ended)
  | _ => none

def closeGraphs (s : Runtime D P) (j : Nat) : List Nat → Runtime D P
  | [] => setClose { s with activeGraph := none, retiredGraphs := .empty } j .modules
  | g :: rest => (s.beginClose g).setClose j (.closing s.closers.length (rest.filter (· ≠ g)))

def closeSnapshot (s : Runtime D P) (j : Nat) : Option (Runtime D P) :=
  match s.closes[j]? with
  | some (.leftovers []) =>
    some (closeGraphs { s with tasks := .empty } j (s.activeGraph.toList ++ s.retiredGraphs.values))
  | _ => none

def closeNext (s : Runtime D P) (j : Nat) : Option (Runtime D P) :=
  match s.closes[j]? with
  | some (.closing c rest) =>
    match s.closerPhase c with
    | some .finished => some (s.closeGraphs j rest)
    | some .aborted => some (setClose { s with lifecycle := none } j .ended)
    | _ => none
  | _ => none

def closeFinish (s : Runtime D P) (j : Nat) : Option (Runtime D P) :=
  match s.closes[j]? with
  | some .modules => some (setClose { s with started := false, lifecycle := none } j .ended)
  | _ => none

def closeAbort (s : Runtime D P) (j : Nat) : Option (Runtime D P) :=
  match s.closes[j]? with
  | some .waiting => some (s.setClose j .ended)
  | some (.gathering tasks) => some (setClose (cancelTasks { s with lifecycle := none } tasks) j .ended)
  | some (.leftovers _) | some .modules => some (setClose { s with lifecycle := none } j .ended)
  | _ => none

end Runtime

end OpenAgent
