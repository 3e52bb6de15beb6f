import OpenAgent.Lib.Dict
import OpenAgent.Lib.Place
import OpenAgent.Lib.Transition

/-!
# Stopping a run

A stop only flags the row of a run as `cancelling`. The scheduler that drives the run looks for flagged rows
and cancels the coroutine of each, whose own handlers then write `cancelled`; where no coroutine is
registered it writes that itself. Requesters, coroutines, drains and a restart all write the one status.
-/

namespace OpenAgent.Stopping

open Lib

inductive RunStatus
  | running
  | cancelling
  | success
  | failed
  | cancelled
  deriving DecidableEq

/-- The tables `workflow_runs` and `task_runs`, of one shape. -/
inductive RunTable
  | workflowRuns
  | taskRuns
  deriving DecidableEq

structure RunKey where
  table : RunTable
  id : String
  deriving DecidableEq

structure RunRow where
  owner : String
  status : RunStatus

inductive Driver
  /-- `_execute_workflow` -/
  | executeWorkflow
  /-- `run_interactive_workflow` -/
  | interactiveWorkflow
  /-- `_execute_task` of a firing that inserts its own row -/
  | executeTask
  /-- `_run_preclaimed_task` around `_execute_task` -/
  | preclaimedTask
  deriving DecidableEq

def Driver.table : Driver → RunTable
  | .executeWorkflow | .interactiveWorkflow => .workflowRuns
  | .executeTask | .preclaimedTask => .taskRuns

inductive Phase
  /-- In the host's admission, before the driver is called. -/
  | admission
  /-- Called, without a row yet. -/
  | opening
  /-- Registered, and linking the request that it came from. -/
  | linking
  | working
  /-- The outcome is about to be written; `caught` where the driver still handles a cancellation. -/
  | finishing (status : RunStatus) (caught : Bool)
  /-- The write of the outcome is over, and the driver has not returned. -/
  | finished (caught : Bool)
  /-- A handler of a cancellation is at work: the executor's, with the driver's to come, or the driver's. -/
  | closing (executor : Bool)
  /-- The executor handles the cancellation of a timeout. -/
  | timingOut
  /-- The timeout is about to be recorded. -/
  | expired
  /-- The driver is over, and the host has not returned. -/
  | leaving
  /-- `_run_preclaimed_task` has found its row still running. -/
  | settling (status : RunStatus)
  /-- `_run_preclaimed_task` handles a cancellation. -/
  | stopping
  | gone
  deriving DecidableEq

structure Coroutine where
  driver : Driver
  process : Nat
  key : RunKey
  owner : String
  phase : Phase

/-- What a coroutine does next; `written` tells whether its write gets through. -/
inductive Move
  /-- The host calls the driver. -/
  | enter
  /-- `add_workflow_run`, `add_task_run` -/
  | add (written : Bool)
  /-- `set_task_request_run_id` -/
  | link
  /-- The walk or the turn is over, with this outcome, or `raised` an exception. -/
  | outcome (status : RunStatus) (raised : Bool)
  /-- The outcome is written. -/
  | record (written : Bool)
  /-- The driver returns. -/
  | leave
  /-- The host returns or raises. -/
  | back (raised : Bool)
  /-- `_run_preclaimed_task` writes an outcome of its own. -/
  | settle (written : Bool)
  /-- A handler of a cancellation writes `cancelled`. -/
  | close (written : Bool)
  /-- The timeout of an interactive workflow strikes. -/
  | expire
  /-- A cancellation is delivered. -/
  | cancel

inductive RowEffect
  | keep
  | insert
  /-- `update_workflow_run(status=...)`, `update_task_run(status=...)` -/
  | write (status : RunStatus)

inductive Binding
  | keep
  | bind
  | drop

structure Effect where
  phase : Phase
  row : RowEffect := .keep
  binding : Binding := .keep

/-! ### The coroutine of a run -/

/-- The status after an update: all but `cancelled` are kept from a row that is `cancelling`. -/
def written (new : RunStatus) (old : RunStatus) : RunStatus :=
  if new ≠ .cancelled ∧ old = .cancelling then old else new

def RowEffect.status (row : RowEffect) (status : Option RunStatus) : Option RunStatus :=
  match row with
  | .keep => status
  | .insert => some .running
  | .write new => status.map (written new)

def writeIf (through : Bool) (status : RunStatus) : RowEffect := if through then .write status else .keep

def Driver.catches (driver : Driver) (status : RunStatus) (raised : Bool) : Option Bool :=
  match driver.table, status, raised with
  | .workflowRuns, .success, false => some true
  | .workflowRuns, .failed, true => some true
  | .taskRuns, .success, false | .taskRuns, .failed, false | .taskRuns, .cancelled, false => some true
  | .taskRuns, .failed, true => some false
  | _, _, _ => none

/-- The handlers that a `CancelledError` meets on its way out. One that the driver has handled goes on to the
host, as one that is delivered there. -/
def Driver.cancelled (driver : Driver) : Phase → Option Effect
  | .admission =>
    match driver with
    | .preclaimedTask => some { phase := .stopping }
    | _ => some { phase := .gone }
  | .opening =>
    match driver.table with
    | .workflowRuns => some { phase := .closing false }
    | .taskRuns => some { phase := .gone }
  | .linking => some { phase := .gone }
  | .working =>
    match driver.table with
    | .workflowRuns => some { phase := .closing true }
    | .taskRuns => some { phase := .closing false }
  | .finishing _ caught | .finished caught =>
    if caught then some { phase := .closing false } else some { phase := .leaving, binding := .drop }
  | .closing executor =>
    if executor then some { phase := .closing false } else some { phase := .leaving, binding := .drop }
  | .timingOut => some { phase := .closing false }
  | .expired => some { phase := .leaving, binding := .drop }
  | .leaving =>
    match driver with
    | .preclaimedTask => some { phase := .stopping }
    | _ => some { phase := .gone }
  | .settling _ | .stopping => some { phase := .gone }
  | .gone => none

/-- What `_run_preclaimed_task` makes of the row when the host has returned or raised. -/
def settled (status : Option RunStatus) (raised : Bool) : Effect :=
  if status = some .running then { phase := .settling (if raised then .failed else .success) }
  else if raised ∧ status = none then { phase := .settling .failed }
  else { phase := .gone }

def Driver.effect (driver : Driver) (phase : Phase) (status : Option RunStatus) : Move → Option Effect
  | .enter =>
    match phase, driver with
    | .admission, .executeWorkflow => some { phase := .opening, binding := .bind }
    | .admission, .executeTask => some { phase := .opening }
    | .admission, .preclaimedTask => some { phase := .working, binding := .bind }
    | _, _ => none
  | .add through =>
    match phase, driver.table with
    | .opening, .workflowRuns =>
      if through && status.isNone then some { phase := .working, row := .insert }
      else some { phase := .leaving, binding := .drop }
    | .opening, .taskRuns =>
      if through && status.isNone then some { phase := .linking, row := .insert, binding := .bind }
      -- a firing that is not recorded touches no row any more
      else some { phase := .gone }
    | _, _ => none
  | .link => if phase = .linking then some { phase := .working } else none
  | .outcome status raised =>
    if phase = .working then
      (driver.catches status raised).map fun caught => { phase := .finishing status caught }
    else none
  | .record through =>
    match phase with
    | .finishing status caught => some { phase := .finished caught, row := writeIf through status }
    | .expired => some { phase := .leaving, row := writeIf through .failed, binding := .drop }
    | _ => none
  | .leave =>
    match phase with
    | .finished _ => some { phase := .leaving, binding := .drop }
    | _ => none
  | .back raised =>
    if phase = .admission ∨ phase = .leaving then
      if driver = .preclaimedTask then some (settled status raised) else some { phase := .gone }
    else none
  | .settle through =>
    match phase with
    | .settling status => some { phase := .gone, row := writeIf through status }
    | _ => none
  | .close through =>
    match phase with
    | .closing true => some { phase := .closing false, row := writeIf through .cancelled }
    | .closing false => some { phase := .leaving, row := writeIf through .cancelled, binding := .drop }
    | .timingOut => some { phase := .expired, row := writeIf through .cancelled }
    | .stopping => some { phase := .gone, row := writeIf through .cancelled }
    | _ => none
  | .expire =>
    if driver = .interactiveWorkflow then
      match phase with
      | .working => some { phase := .timingOut }
      | .opening | .finishing _ _ | .finished _ => some { phase := .expired }
      | _ => none
    else none
  | .cancel => driver.cancelled phase

/-! ### The system -/

/-- A pass of `_drain_cancellations`, with the runs that it has yet to get to. -/
structure Drain where
  process : Nat
  keys : List RunKey

/-- The tables, the coroutines of all processes and their registries, the runs that stop requests have read
and not flagged yet, and the drains. -/
structure Stops where
  runs : Dict RunKey RunRow := .empty
  coroutines : List Coroutine := []
  registry : Dict (Nat × RunKey) Nat := .empty
  requests : List (List RunKey) := []
  drains : List Drain := []

inductive StopEvent
  /-- A run starts; a preclaimed one has its row inserted by the claim. -/
  | spawn (driver : Driver) (process : Nat) (id : String) (owner : String)
  | move (coroutine : Nat) (move : Move)
  /-- The `SELECT` of a stop request. -/
  | ask (table : RunTable) (owner : String) (runId : Option String)
  /-- The `UPDATE` of a stop request. -/
  | flag (request : Nat)
  /-- `get_workflow_runs_by_status("cancelling")`, `get_task_runs_by_status("cancelling")` -/
  | scan (process : Nat) (table : RunTable)
  /-- `_apply_cancellation` for the next run of a drain. -/
  | apply (drain : Nat) (through : Bool)
  /-- A process comes down and up again, and reaps the orphans. -/
  | restart (process : Nat)

def Stops.status (s : Stops) (key : RunKey) : Option RunStatus := (s.runs.get? key).map (·.status)

/-- `UPDATE ... SET status = ? WHERE id = ?`, with the guard of `cancelling`. -/
def updateRun (runs : Dict RunKey RunRow) (key : RunKey) (status : RunStatus) : Dict RunKey RunRow :=
  runs.update key fun row => { row with status := written status row.status }

def RowEffect.apply (row : RowEffect) (runs : Dict RunKey RunRow) (key : RunKey) (owner : String) :
    Dict RunKey RunRow :=
  match row with
  | .keep => runs
  | .insert => runs.set key { owner, status := .running }
  | .write status => updateRun runs key status

def Binding.apply (binding : Binding) (registry : Dict (Nat × RunKey) Nat) (c : Coroutine) (k : Nat) :
    Dict (Nat × RunKey) Nat :=
  match binding with
  | .keep => registry
  | .bind => registry.set (c.process, c.key) k
  | .drop => registry.pop (c.process, c.key)

def moveStep (s : Stops) (k : Nat) (m : Move) : Option Stops :=
  match s.coroutines[k]? with
  | none => none
  | some c =>
    (c.driver.effect c.phase (s.status c.key) m).map fun e =>
      { s with
        runs := e.row.apply s.runs c.key c.owner
        coroutines := s.coroutines.set k { c with phase := e.phase }
        registry := e.binding.apply s.registry c k }

/-- `WHERE workflow_id = ? AND status = 'running'`, for one run or for all. -/
def asks (s : Stops) (table : RunTable) (owner : String) (runId : Option String) : List RunKey :=
  (s.runs.filter fun key row => key.table = table && row.owner = owner && row.status = .running &&
    runId.all (key.id = ·)).keys

/-- `SET status = 'cancelling' WHERE id IN (...) AND status = 'running'` -/
def flagged (runs : Dict RunKey RunRow) (keys : List RunKey) : Dict RunKey RunRow :=
  runs.map fun key row =>
    if key ∈ keys ∧ row.status = .running then { row with status := .cancelling } else row

/-- `_CANCEL_SCAN_LIMIT` -/
def cancelScanLimit : Nat := 500

/-- `reap_orphan_workflow_runs`, `reap_orphan_task_runs` -/
def reaped (runs : Dict RunKey RunRow) : Dict RunKey RunRow :=
  runs.map fun _ row =>
    match row.status with
    | .running => { row with status := .failed }
    | .cancelling => { row with status := .cancelled }
    | _ => row

/-- `_apply_cancellation` -/
def applyCancellation (s : Stops) (process : Nat) (key : RunKey) (through : Bool) : Stops :=
  match s.registry.get? (process, key) with
  | some k => (moveStep s k .cancel).getD s
  | none => if through then { s with runs := updateRun s.runs key .cancelled } else s

def stopStep (s : Stops) : StopEvent → Option Stops
  | .spawn driver process id owner =>
    let key : RunKey := { table := driver.table, id }
    match driver with
    | .preclaimedTask =>
      if (s.runs.get? key).isSome then none
      else some { s with
        runs := s.runs.set key { owner, status := .running }
        coroutines := s.coroutines ++ [{ driver, process, key, owner, phase := .admission }] }
    | .interactiveWorkflow =>
      some { s with
        coroutines := s.coroutines ++ [{ driver, process, key, owner, phase := .opening }]
        registry := s.registry.set (process, key) s.coroutines.length }
    | .executeWorkflow | .executeTask =>
      some { s with coroutines := s.coroutines ++ [{ driver, process, key, owner, phase := .admission }] }
  | .move k m => moveStep s k m
  | .ask table owner runId => some { s with requests := s.requests ++ [asks s table owner runId] }
  | .flag j =>
    s.requests[j]?.map fun keys =>
      { s with runs := flagged s.runs keys, requests := s.requests.set j [] }
  | .scan process table =>
    some { s with
      drains := s.drains ++ [{
        process
        keys := (s.runs.filter fun key row =>
          key.table = table && row.status = .cancelling).keys.take cancelScanLimit }] }
  | .apply j through =>
    match s.drains[j]? with
    | none => none
    | some d =>
      match d.keys with
      | [] => none
      | key :: rest =>
        some (applyCancellation { s with drains := s.drains.set j { d with keys := rest } } d.process key through)
  | .restart process =>
    some { s with
      runs := reaped s.runs
      coroutines := s.coroutines.map fun c => if c.process = process then { c with phase := .gone } else c
      registry := s.registry.filter fun entry _ => entry.1 ≠ process
      drains := s.drains.map fun d => if d.process = process then { d with keys := [] } else d }

/-! ### What a stop is to mean -/

/-- Between an earlier and a later state: a flagged run is only ever cancelled, and a success is never
rewritten to a cancellation. -/
structure Authoritative (s t : Stops) : Prop where
  flag : ∀ key, s.status key = some .cancelling →
    t.status key = some .cancelling ∨ t.status key = some .cancelled
  history : ∀ key, s.status key = some .success → t.status key ≠ some .cancelled

def SparesSettled (s t : Stops) : Prop :=
  ∀ key status, s.status key = some status → status ∈ [RunStatus.success, .failed, .cancelled] →
    t.status key = some status

/-- The coroutine may still write a status other than `cancelled` to a row that is there. -/
def Coroutine.mayRecord (c : Coroutine) : Bool :=
  match c.phase with
  | .admission => c.driver = .preclaimedTask
  | .opening | .finished _ => c.driver = .interactiveWorkflow
  | .linking | .working | .finishing _ _ | .timingOut | .expired | .settling _ => true
  | .closing _ | .leaving | .stopping | .gone => false

/-- A cancellation of the coroutine now would be handled by a write of `cancelled`. -/
def Coroutine.wouldClose (c : Coroutine) : Bool :=
  match c.driver.cancelled c.phase with
  | some { phase := .closing _, .. } | some { phase := .stopping, .. } => true
  | _ => false

/-- Run ids are fresh; no cancellation is delivered to a run that is recorded as a success, where it would
still be handled; a timeout does not cancel a run that is flagged; and a flagged run is only written off as
an orphan when its coroutine has no outcome left to write. -/
def orderly (s : Stops) : StopEvent → Bool
  | .spawn driver _ id _ =>
    (s.runs.get? { table := driver.table, id }).isNone &&
      s.coroutines.all fun c => decide (c.key ≠ { table := driver.table, id })
  | .move k m =>
    match s.coroutines[k]? with
    | none => true
    | some c =>
      match m with
      | .cancel => !(decide (s.status c.key = some .success) && c.wouldClose)
      | .close _ => !(decide (c.phase = .timingOut) && decide (s.status c.key = some .cancelling))
      | _ => true
  | .apply j _ =>
    match s.drains[j]? with
    | none => true
    | some d =>
      match d.keys with
      | [] => true
      | key :: _ =>
        (s.registry.get? (d.process, key)).isSome ||
          s.coroutines.all fun c => decide (c.key ≠ key) || !c.mayRecord
  | .restart process =>
    s.coroutines.all fun c =>
      decide (c.process = process) || !c.mayRecord || decide (s.status c.key ≠ some .cancelling)
  | _ => true

end OpenAgent.Stopping
