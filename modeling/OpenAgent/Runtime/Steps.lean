import OpenAgent.Runtime.State

/-!
# The steps of a runtime

Each function is what one coroutine does from the place where it is suspended to its next await. It
answers nothing where the coroutine is not there or still has to wait. What a host, a module or an
executor decides (an authorization, an exception, an output) is an argument, and so are the moment
and the publication of every store call. A cancellation that arrives while a store call is running
is delivered after it, which is the store call followed by the cancellation.
-/

namespace OpenAgent

open Lib

variable {D P : Type} [DecidableEq D]

namespace Runtime

/-- `_admission` -/
def admits (s : Runtime D P) : Bool := s.started && !s.closing

def taskDone (s : Runtime D P) (t : Nat) : Bool := s.executions[t]?.all Execution.done

def cancelTasks (s : Runtime D P) (tasks : List Nat) : Runtime D P :=
  { s with executions := s.executions.mapIdx fun t e => if t ∈ tasks then e.cancel else e }

/-! ### Submitting -/

def submitCall (s : Runtime D P) (request : RunRequest) (context : ExecutionContext) : Runtime D P :=
  { s with submits := s.submits ++ [{ request, context }] }

/-- The end of `_admit_and_start`, with which the lifecycle lock is released. -/
def submitEnd (s : Runtime D P) (i : Nat) (call : Submit D) (outcome : Except Failure (RunRecord D))
    (created : Option String) : Runtime D P :=
  { s with
    lifecycle := none
    submits := s.submits.set i { call with phase := .ended outcome created } }

/-- Take the lifecycle lock and begin `_admit_and_start`. -/
def submitEnter (s : Runtime D P) (i : Nat) : Option (Runtime D P) :=
  match s.submits[i]? with
  | none => none
  | some call =>
    match call.phase with
    | .waiting =>
      if s.lifecycle ≠ none then none
      else if s.admits = false then
        some (s.submitEnd i call (.error (.runtime "Runtime is not accepting work")) none)
      else
        match s.activeGraph with
        | none => some (s.submitEnd i call (.error (.runtime "Runtime module graph is unavailable")) none)
        | some g =>
          if call.request.sessionId ≠ call.context.sessionId then
            some (s.submitEnd i call (.error (.value
              "Request and verified context must identify the same session")) none)
          else some { s with
            lifecycle := some (.submit i)
            submits := s.submits.set i { call with phase := .authorizing g } }
    | _ => none

def submitAuthorized (s : Runtime D P) (i : Nat) (failure : Option Failure) : Option (Runtime D P) :=
  match s.submits[i]? with
  | none => none
  | some call =>
    match call.phase, failure with
    | .authorizing g, none =>
      some { s with submits := s.submits.set i { call with phase := .accepting g } }
    | .authorizing _, some e => some (s.submitEnd i call (.error e) none)
    | _, _ => none

def submitAccept (env : Environment D) (s : Runtime D P) (i : Nat) (attempt : Attempt D P) :
    Option (Runtime D P) :=
  match s.submits[i]? with
  | none => none
  | some call =>
    match call.phase with
    | .accepting g =>
      match Store.transaction attempt.moment (Store.accept (attempt.host env) call.request call.context
          attempt.moment.now) s.ledger with
      | (.error e, ledger) => some (submitEnd { s with ledger } i call (.error (.store e)) none)
      | (.ok (record, false), ledger) => some (submitEnd { s with ledger } i call (.ok record) none)
      | (.ok (record, true), ledger) =>
        match s.graphs[g]?.bind Graph.acquire with
        | none => some (submitEnd { s with ledger } i call
            (.error (.runtime "The selected module graph is draining")) (some record.runId))
        | some graph =>
          let revision := s.catalog.snapshotRevision
          some { s with
            ledger
            graphs := s.graphs.set g graph
            runGraphs := s.runGraphs.set record.runId g
            runCapabilityRevisions := s.runCapabilityRevisions.set record.runId revision
            submits := s.submits.set i { call with phase := .profiling record g revision } }
    | _ => none

/-- The payload of `run.profile`; the modules' own descriptions are the host's. -/
def profilePayload (generation revision : Nat) : Json :=
  .obj [("generation", .num generation), ("capability_revision", .num revision)]

def submitProfile (env : Environment D) (s : Runtime D P) (i : Nat) (attempt : Attempt D P) :
    Option (Runtime D P) :=
  match s.submits[i]? with
  | none => none
  | some call =>
    match call.phase with
    | .profiling record g revision =>
      let generation := (s.graphs[g]?.map Graph.generation).getD 0
      match Store.transaction attempt.moment (Store.appendEvent (attempt.host env) record.runId
          "run.profile" (profilePayload generation revision)) s.ledger with
      | (.ok _, ledger) =>
        let execution : Execution := { request := call.request, context := call.context, graph := g, revision }
        some (submitEnd { s with
          ledger
          tasks := s.tasks.set record.runId s.executions.length
          executions := s.executions ++ [execution] } i call (.ok record) (some record.runId))
      | (.error e, ledger) => some (submitEnd { s with
          ledger
          runGraphs := s.runGraphs.pop record.runId
          runCapabilityRevisions := s.runCapabilityRevisions.pop record.runId
          graphs := s.graphs.modify g Graph.release } i call (.error (.store e)) (some record.runId))
    | _ => none

def submitInterrupt (s : Runtime D P) (i : Nat) : Option (Runtime D P) :=
  match s.submits[i]? with
  | none => none
  | some call =>
    match call.phase with
    | .waiting =>
      some { s with
        submits := s.submits.set i { call with
          phase := .ended (.error .cancelled) none
          interrupted := true } }
    | .ended _ _ => none
    | _ => some { s with submits := s.submits.set i { call with interrupted := true } }

/-! ### Executing -/

def setPhase (s : Runtime D P) (t : Nat) (e : Execution) (phase : Phase) : Runtime D P :=
  { s with executions := s.executions.set t { e with phase } }

/-- The `finally` of `_execute`. -/
def finalize (s : Runtime D P) (t : Nat) (e : Execution) : Runtime D P :=
  { s with
    tasks := s.tasks.pop e.request.runId
    runGraphs := s.runGraphs.pop e.request.runId
    runCapabilityRevisions := s.runCapabilityRevisions.pop e.request.runId
    graphs := s.graphs.modify e.graph Graph.release
    executions := s.executions.set t { e with phase := .ended false } }

/-- The `except asyncio.CancelledError` of `_execute`. -/
def tellCancelled (s : Runtime D P) (t : Nat) (e : Execution) : Runtime D P :=
  s.setPhase t { e with cancelled := false }
    (.settling (if s.closing then .interrupted else .cancelled) none true)

/-- The first step of a task; one that was cancelled before it never takes it, nor its `finally`. -/
def executionEnter (s : Runtime D P) (t : Nat) : Option (Runtime D P) :=
  match s.executions[t]? with
  | none => none
  | some e =>
    match e.phase with
    | .created => some (s.setPhase t e (if e.cancelled then .ended true else .entering))
    | _ => none

def executionAdvance (s : Runtime D P) (t : Nat) : Option (Runtime D P) :=
  match s.executions[t]? with
  | none => none
  | some e =>
    match e.phase with
    | .entering => some (s.setPhase t e .reading)
    | _ => none

/-- The record is read; `diagnostic` is the output of a failure, if one is reported. -/
def executionRead (s : Runtime D P) (t : Nat) (diagnostic : Option Json) : Option (Runtime D P) :=
  match s.executions[t]? with
  | none => none
  | some e =>
    match e.phase with
    | .reading =>
      match Store.get e.request.runId s.ledger with
      | .ok (some record) => some (s.setPhase t e
          (if record.cancelRequested then .settling .cancelled none false else .claiming))
      | _ => some (s.setPhase t e (.settling .failed diagnostic true))
    | _ => none

def executionClaim (env : Environment D) (s : Runtime D P) (t : Nat) (attempt : Attempt D P)
    (diagnostic : Option Json) : Option (Runtime D P) :=
  match s.executions[t]? with
  | none => none
  | some e =>
    match e.phase with
    | .claiming =>
      let result := Store.transaction attempt.moment (Store.transition (attempt.host env)
        e.request.runId .running none attempt.moment.now) s.ledger
      let s := { s with ledger := result.2 }
      if e.cancelled then some (s.tellCancelled t e)
      else match result.1 with
        | .ok _ => some (s.setPhase t e .claimed)
        | .error _ => some (s.setPhase t e (.settling .failed diagnostic true))
    | _ => none

def executionLaunch (s : Runtime D P) (t : Nat) : Option (Runtime D P) :=
  match s.executions[t]? with
  | none => none
  | some e =>
    match e.phase with
    | .claimed => some { setPhase s t e .executing with executed := s.executed ++ [e.request.runId] }
    | _ => none

def executionReturn (s : Runtime D P) (t : Nat) (output : Option Json) : Option (Runtime D P) :=
  match s.executions[t]? with
  | none => none
  | some e =>
    match e.phase with
    | .executing => some (s.setPhase t e (.publishing output))
    | _ => none

def executionAbsorb (s : Runtime D P) (t : Nat) : Option (Runtime D P) :=
  match s.executions[t]? with
  | none => none
  | some e =>
    match e.phase with
    | .executing => some { s with executions := s.executions.set t { e with cancelled := false } }
    | _ => none

def executionPublish (s : Runtime D P) (t : Nat) (diagnostic : Option Json) : Option (Runtime D P) :=
  match s.executions[t]? with
  | none => none
  | some e =>
    match e.phase with
    | .publishing output =>
      match Store.get e.request.runId s.ledger with
      | .ok (some record) => some (s.setPhase t e
          (if record.cancelRequested then .settling .cancelled none false
            else .settling .success output false))
      | _ => some (s.setPhase t e (.settling .failed diagnostic true))
    | _ => none

def executionSettle (env : Environment D) (s : Runtime D P) (t : Nat) (attempt : Attempt D P)
    (diagnostic : Option Json) : Option (Runtime D P) :=
  match s.executions[t]? with
  | none => none
  | some e =>
    match e.phase with
    | .settling status output handler =>
      let result := Store.transaction attempt.moment (Store.transition (attempt.host env)
        e.request.runId status output attempt.moment.now) s.ledger
      let s := { s with ledger := result.2 }
      if handler then some (s.finalize t e)
      else if e.cancelled then some (s.tellCancelled t e)
      else match result.1 with
        | .ok _ => some (s.finalize t e)
        | .error _ => some (s.setPhase t e (.settling .failed diagnostic true))
    | _ => none

def executionRaise (s : Runtime D P) (t : Nat) (diagnostic : Option Json) : Option (Runtime D P) :=
  match s.executions[t]? with
  | none => none
  | some e =>
    if e.inBody then some (s.setPhase t e (.settling .failed diagnostic true)) else none

def executionTimeout (s : Runtime D P) (t : Nat) : Option (Runtime D P) :=
  match s.executions[t]? with
  | none => none
  | some e => if e.inBody then some (s.setPhase t e (.settling .timedOut none true)) else none

def executionCancelled (s : Runtime D P) (t : Nat) : Option (Runtime D P) :=
  match s.executions[t]? with
  | none => none
  | some e =>
    if e.cancelled then
      match e.phase with
      | .created | .ended _ => none
      | .settling _ _ true => some (s.finalize t e)
      | _ => some (s.tellCancelled t e)
    else none

/-! ### Cancelling a run -/

def setCancel (s : Runtime D P) (k : Nat) (call : Cancel) (phase : CancelPhase) : Runtime D P :=
  { s with cancels := s.cancels.set k { call with phase } }

def cancelCall (s : Runtime D P) (runId : String) (context : ExecutionContext) (reserve : Bool) :
    Runtime D P :=
  { s with cancels := s.cancels ++ [⟨runId, context, reserve, if reserve then .looking else .reading⟩] }

/-- `reserve and await self.services.store.get(run_id) is None` -/
def cancelLook (s : Runtime D P) (k : Nat) (denied : Bool) : Option (Runtime D P) :=
  match s.cancels[k]? with
  | none => none
  | some call =>
    match call.phase with
    | .looking =>
      match Store.get call.runId s.ledger with
      | .ok none => some (s.setCancel k call (if s.admits && !denied then .reserving else .ended))
      | .ok (some _) => some (s.setCancel k call .reading)
      | .error _ => some (s.setCancel k call .ended)
    | _ => none

def cancelReserve (s : Runtime D P) (k : Nat) (attempt : Attempt D P) : Option (Runtime D P) :=
  match s.cancels[k]? with
  | none => none
  | some call =>
    match call.phase with
    | .reserving =>
      match Store.transaction attempt.moment (Store.reserveCancel call.runId call.context) s.ledger with
      | (.ok record, ledger) => some (setCancel { s with ledger } k call
          (if record.terminal then .ended else .reading))
      | (.error _, ledger) => some (setCancel { s with ledger } k call .ended)
    | _ => none

def cancelRead (s : Runtime D P) (k : Nat) (denied : Bool) : Option (Runtime D P) :=
  match s.cancels[k]? with
  | none => none
  | some call =>
    match call.phase with
    | .reading =>
      match Store.get call.runId s.ledger with
      | .ok (some record) => some (s.setCancel k call
          (if denied || record.terminal then .ended else .requesting))
      | _ => some (s.setCancel k call .ended)
    | _ => none

def cancelRequest (env : Environment D) (s : Runtime D P) (k : Nat) (attempt : Attempt D P) :
    Option (Runtime D P) :=
  match s.cancels[k]? with
  | none => none
  | some call =>
    match call.phase with
    | .requesting =>
      match Store.transaction attempt.moment (Store.requestCancel (attempt.host env) call.runId)
          s.ledger with
      | (.error _, ledger) => some (setCancel { s with ledger } k call .ended)
      | (.ok _, ledger) =>
        match (s.tasks.get? call.runId).filter fun t => !s.taskDone t with
        | none => some (setCancel { s with ledger } k call .ended)
        | some t => some (setCancel (cancelTasks { s with ledger } [t]) k call (.gathering t))
    | _ => none

def cancelGathered (s : Runtime D P) (k : Nat) : Option (Runtime D P) :=
  match s.cancels[k]? with
  | none => none
  | some call =>
    match call.phase with
    | .gathering t => if s.taskDone t then some (s.setCancel k call .settling) else none
    | _ => none

def cancelSettle (env : Environment D) (s : Runtime D P) (k : Nat) (attempt : Attempt D P) :
    Option (Runtime D P) :=
  match s.cancels[k]? with
  | none => none
  | some call =>
    match call.phase with
    | .settling =>
      match Store.transaction attempt.moment (Store.transition (attempt.host env) call.runId .cancelled
          none attempt.moment.now) s.ledger with
      | (.ok _, ledger) => some (setCancel { s with
          ledger := ledger
          tasks := s.tasks.pop call.runId } k call .ended)
      | (.error _, ledger) => some (setCancel { s with ledger } k call .ended)
    | _ => none

/-- The canceller is itself cancelled; a `gather` passes that on to the task it waits for. -/
def cancelAbort (s : Runtime D P) (k : Nat) : Option (Runtime D P) :=
  match s.cancels[k]? with
  | none => none
  | some call =>
    match call.phase with
    | .ended => none
    | .gathering t => some ((s.cancelTasks [t]).setCancel k call .ended)
    | _ => some (s.setCancel k call .ended)

end Runtime

end OpenAgent
