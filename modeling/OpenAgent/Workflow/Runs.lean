import OpenAgent.Workflow.Bodies

/-!
# Runs of a workflow

A run is a walk whose loop handlers walk the loop's body once for each item, and the loops in that body
walk theirs. What the rest of the system does in a run is given for each walk and node: how a handler
ends, how often a loop iterates, whether the trace can be written, and when the run is stopped. No node is
called twice in one walk, so nothing more is needed to fix the run.
-/

namespace OpenAgent.Workflow

abbrev Place := List (String × Nat)

/-- How `_persist_trace` ends; the run can be stopped while it waits. -/
inductive Save
  | written | failed | cut
deriving DecidableEq

/-- What a handler does, other than a loop's. An `if` comes to a verdict. A handler raises an `Exception`,
or it raises `CancelledError` or the like by itself, or the run is stopped while it waits. -/
inductive Act
  | returns (verdict : Bool) | raises | cancels | cut
deriving DecidableEq

structure Host where
  order : Place → SetOrder
  onError : String → String
  opening : Place → String → Save
  closing : Place → String → Save
  act : Place → String → Act
  items : Place → String → Option (Nat × Int)
  stops : Place → Nat → Bool

/-- What came of the call of a node: its first trace entry was not written, or its handler ended so. -/
inductive CallEnd
  | unsaved | returned (taken : Option (List String)) | raised | cancelled | cut
deriving DecidableEq

inductive Ending
  | finished | failed | stopped
deriving DecidableEq

mutual

structure Ran where
  graph : Graph
  entry : Option String
  ending : Ending
  walk : Walk
  calls : List Call

/-- A call of `_run_node`, and the walks of its iterations when it is a loop. The node is routed when the
walk has completed it and resolved its edges. -/
structure Call where
  id : String
  round : Nat
  outcome : CallEnd
  routed : Bool := false
  iterations : List Ran := []

end

/-- What `asyncio.gather` holds for a node. -/
inductive NodeEnd
  | took (handles : Option (List String)) | raised | cancelled | cut
deriving DecidableEq

/-- `res if isinstance(res, frozenset) else None` -/
def NodeEnd.handles : NodeEnd → Option (List String)
  | .took handles => handles
  | _ => none

structure NodeRan where
  result : NodeEnd
  call : Option Call := none

/-! ### One node -/

/-- The keys of `_HANDLERS` -/
def handlers : List String :=
  ["trigger-manual", "trigger-schedule", "trigger-ai", "trigger-event", "set-variable", "mcp-tool",
    "ai-prompt", "if", "wait", "parallel", "merge", "loop", "http-request"]

/-- Only an `if` says which handles it takes; the other handlers return an output alone. -/
def takenBy (type : String) (verdict : Bool) : Option (List String) :=
  if type = "if" then some [if verdict then "true" else "false"] else none

/-- The iterations of `_h_loop` that are left, from the one with this number on. -/
def iterate (sub : Nat → Option Ran) : Nat → Nat → Option (CallEnd × List Ran)
  | 0, _ => some (.returned (some ["done"]), [])
  | left + 1, i =>
    (sub i).bind fun r =>
      match r.ending with
      | .finished => (iterate sub left (i + 1)).map fun rest => (rest.1, r :: rest.2)
      | .failed => some (.raised, [r])
      | .stopped => some (.cut, [r])

/-- A handler runs: `_h_loop`, or one of the others. -/
def runHandler (host : Host) (fuel : Nat) (sub : Place → Graph → Option Ran) (place : Place) (g : Graph)
    (node : Node) : Option (CallEnd × List Ran) :=
  if node.type = "loop" then
    match host.items place node.id with
    | none => some (.raised, [])
    | some (length, maxIterations) =>
      (extractBodySubgraph g (host.order place) node.id fuel).bind fun body =>
        iterate (fun i => sub ((node.id, i) :: place) body) (min length maxIterations.toNat) 0
  else
    match host.act place node.id with
    | .returns verdict => some (.returned (takenBy node.type verdict), [])
    | .raises => some (.raised, [])
    | .cancels => some (.cancelled, [])
    | .cut => some (.cut, [])

/-- The end of `_run_node` once the handler has ended. -/
def closeNode (host : Host) (place : Place) (id : String) : CallEnd → NodeEnd
  | .returned taken =>
    match host.closing place id with
    | .written => .took taken
    | .failed => .raised
    | .cut => .cut
  | .raised =>
    match host.closing place id with
    | .written =>
      if host.onError id = "halt" then .raised
      else if host.onError id = "branch" then .took (some ["error"])
      else .took none
    | .failed => .raised
    | .cut => .cut
  | .cancelled => .cancelled
  | .cut => .cut
  | .unsaved => .raised

/-- `_run_node` -/
def runNode (host : Host) (fuel : Nat) (sub : Place → Graph → Option Ran) (place : Place) (g : Graph)
    (round : Nat) (node : Node) : Option NodeRan :=
  if node.type ∉ handlers then some { result := .raised }
  else
    match host.opening place node.id with
    | .failed => some { result := .raised, call := some { id := node.id, round, outcome := .unsaved } }
    | .cut => some { result := .cut, call := some { id := node.id, round, outcome := .cut } }
    | .written =>
      (runHandler host fuel sub place g node).map fun done =>
        { result := closeNode host place node.id done.1
          call := some { id := node.id, round, outcome := done.1, iterations := done.2 } }

/-! ### The walks -/

def batchCalls (routed : Bool) (runs : List NodeRan) : List Call :=
  runs.filterMap fun n => n.call.map fun c => { c with routed }

structure Progress where
  walk : Walk
  calls : List Call := []

/-- The batches of `_walk`, at most `rounds` of them. When the run is stopped, `gather` raises
`CancelledError`, whatever the nodes of the batch came to. -/
def runBatches (host : Host) (place : Place) (g : Graph) (fuel : Nat) (call : Nat → String → Option NodeRan) :
    Nat → Nat → Progress → Option (Ending × Progress)
  | 0, _, _ => none
  | rounds + 1, round, p =>
    let batch := p.walk.ready.filter fun id => !p.walk.settled id
    let s := { p.walk with ready := [] }
    if batch.isEmpty then some (.finished, { p with walk := s })
    else
      let s := { s with
        executed := s.executed ++ batch
        trace := s.trace ++ batch.map fun id => (id, .ran) }
      (batch.mapM (call round)).bind fun runs =>
        if host.stops place round || runs.any (fun n => n.result = .cut) then
          some (.stopped, ⟨s, p.calls ++ batchCalls false runs⟩)
        else if runs.any (fun n => n.result = .raised) then
          some (.failed, ⟨s, p.calls ++ batchCalls false runs⟩)
        else
          (settleBatch g fuel s (batch.zip (runs.map fun n => n.result.handles))).bind fun s =>
            runBatches host place g fuel call rounds (round + 1) ⟨s, p.calls ++ batchCalls true runs⟩

def freshWalk (g : Graph) : Walk :=
  { waitingOn := fun id => (g.incoming id).length, ready := defaultEntries g }

theorem startWalk_none (g : Graph) (order : SetOrder) (fuel : Nat) :
    startWalk g order none fuel = some (.ok (freshWalk g)) := rfl

/-- `_walk` from its first batch on, with the walks in loop bodies (`_run_subgraph`) for at most `depth`
levels. -/
def runWalk (host : Host) (fuel : Nat) : Nat → Place → Graph → Option String → Walk → Option Ran
  | 0, _, _, _, _ => none
  | depth + 1, place, g, entry, s =>
    let sub := fun place body => runWalk host fuel depth place body none (freshWalk body)
    let call := fun round id => (g.nodeOf id).bind (runNode host fuel sub place g round)
    (runBatches host place g fuel call fuel 0 { walk := s }).map fun done =>
      { graph := g, entry
        ending := done.1
        walk := if done.1 = .finished then done.2.walk.recordRest g else done.2.walk
        calls := done.2.calls }

/-- The walk of `run` over a graph that passed the validation. -/
def runWorkflow (host : Host) (g : Graph) (entry : Option String) (fuel : Nat) :
    Option (Except WalkError Ran) :=
  match startWalk g (host.order []) entry fuel with
  | none => none
  | some (.error e) => some (.error e)
  | some (.ok s) => (runWalk host fuel fuel [] g entry s).map .ok

inductive Ran.Within : Ran → Ran → Prop
  | self (r : Ran) : Ran.Within r r
  | nested {w r v : Ran} {c : Call} (hcall : c ∈ r.calls) (hv : v ∈ c.iterations) (hw : Ran.Within w v) :
      Ran.Within w r

theorem Ran.Within.trans {u v w : Ran} (hu : u.Within v) (hv : v.Within w) : u.Within w := by
  induction hv with
  | self => exact hu
  | nested hcall hx _ ih => exact .nested hcall hx ih

def plainOrder : SetOrder := ⟨fun l => l, List.Perm.refl⟩

def quiet : Host where
  order _ := plainOrder
  onError _ := "branch"
  opening _ _ := .written
  closing _ _ := .written
  act _ _ := .returns true
  items _ _ := some (2, 100)
  stops _ _ := false

end OpenAgent.Workflow
