import OpenAgent.Runtime.Lifecycle

/-!
# A runtime and its surroundings

Child runs, and then the whole system: every step of every call in progress, of every execution
task, of every graph that is being prepared or closed, and of the surroundings, which may also reach
the store and the catalog past the runtime. A schedule is a list of such steps.
-/

namespace OpenAgent

open Lib

variable {D P : Type} [DecidableEq D]

namespace Runtime

/-! ### Child runs -/

def setSpawn (s : Runtime D P) (n : Nat) (call : Spawn D) (phase : SpawnPhase D) : Runtime D P :=
  { s with spawns := s.spawns.set n { call with phase } }

/-- `_spawn_admitted` is called by the executor of a parent run. -/
def spawnCall (s : Runtime D P) (parent : String) (request : RunRequest) (context : ExecutionContext) :
    Runtime D P :=
  { s with spawns := s.spawns ++ [{ parent, request, context }] }

def spawnAuthorized (s : Runtime D P) (n : Nat) (failure : Option Failure) : Option (Runtime D P) :=
  match s.spawns[n]? with
  | none => none
  | some call =>
    match call.phase, failure with
    | .authorizing, none =>
      some ((s.submitCall call.request call.context).setSpawn n call (.submitting s.submits.length))
    | .authorizing, some e => some (s.setSpawn n call (.raised e none))
    | _, _ => none

def admittedRun (outcome : Except Failure (RunRecord D)) (created : Option String) : Option String :=
  match outcome with
  | .ok record => some record.runId
  | .error _ => created

def spawnAdmitted (s : Runtime D P) (n : Nat) : Option (Runtime D P) :=
  match s.spawns[n]? with
  | none => none
  | some call =>
    match call.phase with
    | .submitting i =>
      match s.submits[i]? with
      | none => none
      | some submit =>
        match submit.phase with
        | .ended outcome created =>
          if submit.interrupted then
            some (s.setSpawn n call (.raised .cancelled (admittedRun outcome created)))
          else match outcome with
          | .ok record => some (s.setSpawn n call (.linking record))
          | .error e => some (s.setSpawn n call (.raised e created))
        | _ => none
    | _ => none

def childPayload (child : RunRecord D) : Json :=
  .obj [("child_session_id", .str child.sessionId), ("child_run_id", .str child.runId)]

def spawnLink (env : Environment D) (s : Runtime D P) (n : Nat) (attempt : Attempt D P) :
    Option (Runtime D P) :=
  match s.spawns[n]? with
  | none => none
  | some call =>
    match call.phase with
    | .linking child =>
      match Store.transaction attempt.moment (Store.appendEvent (attempt.host env) call.parent
          "run.child" (childPayload child)) s.ledger with
      | (.ok _, ledger) => some (setSpawn { s with ledger } n call (.waiting child))
      | (.error e, ledger) => some (setSpawn { s with ledger } n call (.raised (.store e) (some child.runId)))
    | _ => none

/-- `wait` reads a record; it returns a terminal one, raises where it is denied and else goes on. -/
def spawnObserve (s : Runtime D P) (n : Nat) (denied : Bool) : Option (Runtime D P) :=
  match s.spawns[n]? with
  | none => none
  | some call =>
    match call.phase with
    | .waiting child =>
      match Store.get child.runId s.ledger with
      | .ok (some record) =>
        if denied then some (s.setSpawn n call (.raised .denied (some child.runId)))
        else if record.terminal then some (s.setSpawn n call (.returned record))
        else none
      | .ok none => some (s.setSpawn n call (.raised .lookup (some child.runId)))
      | .error e => some (s.setSpawn n call (.raised (.store e) (some child.runId)))
    | _ => none

/-- The task of the parent is cancelled. Inside a submission that holds the lifecycle lock this is only
remembered, and in the wait it starts the cancellation of the child; elsewhere it is raised. -/
def spawnInterrupt (s : Runtime D P) (n : Nat) : Option (Runtime D P) :=
  match s.spawns[n]? with
  | none => none
  | some call =>
    let call := { call with interrupted := true }
    match call.phase with
    | .authorizing => some (s.setSpawn n call (.raised .cancelled none))
    | .submitting i => (s.submitInterrupt i).map fun s => s.setSpawn n call (.submitting i)
    | .linking child => some (s.setSpawn n call (.raised .cancelled (some child.runId)))
    | .waiting child => some (s.setSpawn n call (.requesting child))
    | .gathering child t =>
      some ((s.cancelTasks [t]).setSpawn n call (.raised .cancelled (some child.runId)))
    | .requesting child | .settling child =>
      some (s.setSpawn n call (.raised .cancelled (some child.runId)))
    | .returned _ | .raised _ _ => none

def spawnRequest (env : Environment D) (s : Runtime D P) (n : Nat) (attempt : Attempt D P) :
    Option (Runtime D P) :=
  match s.spawns[n]? with
  | none => none
  | some call =>
    match call.phase with
    | .requesting child =>
      match Store.transaction attempt.moment (Store.requestCancel (attempt.host env) child.runId)
          s.ledger with
      | (.error e, ledger) => some (setSpawn { s with ledger } n call (.raised (.store e) (some child.runId)))
      | (.ok _, ledger) =>
        match s.tasks.get? child.runId with
        | none => some (setSpawn { s with ledger } n call (.settling child))
        | some t => some (setSpawn (cancelTasks { s with ledger } [t]) n call (.gathering child t))
    | _ => none

def spawnGathered (s : Runtime D P) (n : Nat) : Option (Runtime D P) :=
  match s.spawns[n]? with
  | none => none
  | some call =>
    match call.phase with
    | .gathering child t => if s.taskDone t then some (s.setSpawn n call (.settling child)) else none
    | _ => none

def spawnSettle (env : Environment D) (s : Runtime D P) (n : Nat) (attempt : Attempt D P) :
    Option (Runtime D P) :=
  match s.spawns[n]? with
  | none => none
  | some call =>
    match call.phase with
    | .settling child =>
      match Store.transaction attempt.moment (Store.transition (attempt.host env) child.runId .cancelled
          none attempt.moment.now) s.ledger with
      | (.ok _, ledger) => some (setSpawn { s with ledger } n call (.raised .cancelled (some child.runId)))
      | (.error e, ledger) => some (setSpawn { s with ledger } n call (.raised (.store e) (some child.runId)))
    | _ => none

end Runtime

/-! ### The whole system -/

inductive SubmitAction (D P : Type)
  | enter
  | authorized (failure : Option Failure)
  | accept (attempt : Attempt D P)
  | profile (attempt : Attempt D P)
  | interrupt

inductive ExecutionAction (D P : Type)
  | enter
  | advance
  | read (diagnostic : Option Json)
  | claim (attempt : Attempt D P) (diagnostic : Option Json)
  | launch
  | returns (output : Option Json)
  | absorb
  | publish (diagnostic : Option Json)
  | settle (attempt : Attempt D P) (diagnostic : Option Json)
  | raises (diagnostic : Option Json)
  | timeout
  | cancelled

inductive CancelAction (D P : Type)
  | look (denied : Bool)
  | reserve (attempt : Attempt D P)
  | read (denied : Bool)
  | request (attempt : Attempt D P)
  | gathered
  | settle (attempt : Attempt D P)
  | abort

inductive PrepareAction
  | instance (bound : Bool) (capabilities : List CapabilityContribution)
  | fail
  | unwind
  | abort
  | done

inductive CloserAction
  | step
  | abort

inductive StartAction (D P : Type)
  | enter (attempt : Attempt D P) (further : List Moment) (resolves : Bool)
  | prepared
  | done
  | raises
  | closed

inductive ReconfigureAction
  | check (resolves : Bool)
  | preflight (passes : Bool)
  | swap
  | lost
  | drain (drains : Bool)
  | empty
  | closed (errors : Bool)
  | abort

inductive CloseAction (D P : Type)
  | enter
  | gathered
  | leftover (attempt : Attempt D P)
  | snapshot
  | next
  | finish
  | abort

inductive SpawnAction (D P : Type)
  | authorized (failure : Option Failure)
  | admitted
  | link (attempt : Attempt D P)
  | observe (denied : Bool)
  | interrupt
  | request (attempt : Attempt D P)
  | gathered
  | settle (attempt : Attempt D P)

inductive HostAction (D P : Type)
  | store (publication : Option (Publication D P)) (moment : Moment) (further : List Moment)
      (operation : Store.Operation D)
  | append (attempt : Attempt D P) (runId kind : String) (payload : Json)
  | catalog (op : Catalog.Op)

inductive CallAction
  | submit (request : RunRequest) (context : ExecutionContext)
  | cancel (runId : String) (context : ExecutionContext) (reserve : Bool)
  | start
  | reconfigure (generation expected : Nat) (force : Bool)
  | close
  | spawn (parent : String) (request : RunRequest) (context : ExecutionContext)

inductive Action (D P : Type)
  | call (a : CallAction)
  | submit (i : Nat) (a : SubmitAction D P)
  | execution (t : Nat) (a : ExecutionAction D P)
  | cancel (k : Nat) (a : CancelAction D P)
  | prepare (g : Nat) (a : PrepareAction)
  | closer (c : Nat) (a : CloserAction)
  | start (i : Nat) (a : StartAction D P)
  | reconfigure (k : Nat) (a : ReconfigureAction)
  | close (j : Nat) (a : CloseAction D P)
  | spawn (n : Nat) (a : SpawnAction D P)
  | host (a : HostAction D P)

namespace Runtime

def callStep (s : Runtime D P) : CallAction → Runtime D P
  | .submit request context => s.submitCall request context
  | .cancel runId context reserve => s.cancelCall runId context reserve
  | .start => s.startCall
  | .reconfigure generation expected force => s.reconfigureCall generation expected force
  | .close => s.closeCall
  | .spawn parent request context => s.spawnCall parent request context

def submitStep (env : Environment D) (s : Runtime D P) (i : Nat) :
    SubmitAction D P → Option (Runtime D P)
  | .enter => s.submitEnter i
  | .authorized failure => s.submitAuthorized i failure
  | .accept attempt => s.submitAccept env i attempt
  | .profile attempt => s.submitProfile env i attempt
  | .interrupt => s.submitInterrupt i

def executionStep (env : Environment D) (s : Runtime D P) (t : Nat) :
    ExecutionAction D P → Option (Runtime D P)
  | .enter => s.executionEnter t
  | .advance => s.executionAdvance t
  | .read diagnostic => s.executionRead t diagnostic
  | .claim attempt diagnostic => s.executionClaim env t attempt diagnostic
  | .launch => s.executionLaunch t
  | .returns output => s.executionReturn t output
  | .absorb => s.executionAbsorb t
  | .publish diagnostic => s.executionPublish t diagnostic
  | .settle attempt diagnostic => s.executionSettle env t attempt diagnostic
  | .raises diagnostic => s.executionRaise t diagnostic
  | .timeout => s.executionTimeout t
  | .cancelled => s.executionCancelled t

def cancelStep (env : Environment D) (s : Runtime D P) (k : Nat) :
    CancelAction D P → Option (Runtime D P)
  | .look denied => s.cancelLook k denied
  | .reserve attempt => s.cancelReserve k attempt
  | .read denied => s.cancelRead k denied
  | .request attempt => s.cancelRequest env k attempt
  | .gathered => s.cancelGathered k
  | .settle attempt => s.cancelSettle env k attempt
  | .abort => s.cancelAbort k

def prepareStep (s : Runtime D P) (g : Nat) : PrepareAction → Option (Runtime D P)
  | .instance bound capabilities => s.prepareInstance g bound capabilities
  | .fail => s.prepareFail g
  | .unwind => s.prepareUnwind g
  | .abort => s.prepareAbort g
  | .done => s.prepareDone g

def closingStep (s : Runtime D P) (c : Nat) : CloserAction → Option (Runtime D P)
  | .step => s.closerStep c
  | .abort => s.closerAbort c

def startStep (env : Environment D) (s : Runtime D P) (i : Nat) :
    StartAction D P → Option (Runtime D P)
  | .enter attempt further resolves => s.startEnter env i attempt further resolves
  | .prepared => s.startPrepared i
  | .done => s.startDone i
  | .raises => s.startRaise i
  | .closed => s.startClosed i

def reconfigureStep (s : Runtime D P) (k : Nat) : ReconfigureAction → Option (Runtime D P)
  | .check resolves => s.reconfigureCheck k resolves
  | .preflight passes => s.reconfigurePreflight k passes
  | .swap => s.reconfigureSwap k
  | .lost => s.reconfigureLost k
  | .drain drains => s.reconfigureDrain k drains
  | .empty => s.reconfigureEmpty k
  | .closed errors => s.reconfigureClosed k errors
  | .abort => s.reconfigureAbort k

def closeStep (env : Environment D) (s : Runtime D P) (j : Nat) :
    CloseAction D P → Option (Runtime D P)
  | .enter => s.closeEnter j
  | .gathered => s.closeGathered j
  | .leftover attempt => s.closeLeftover env j attempt
  | .snapshot => s.closeSnapshot j
  | .next => s.closeNext j
  | .finish => s.closeFinish j
  | .abort => s.closeAbort j

def spawnStep (env : Environment D) (s : Runtime D P) (n : Nat) :
    SpawnAction D P → Option (Runtime D P)
  | .authorized failure => s.spawnAuthorized n failure
  | .admitted => s.spawnAdmitted n
  | .link attempt => s.spawnLink env n attempt
  | .observe denied => s.spawnObserve n denied
  | .interrupt => s.spawnInterrupt n
  | .request attempt => s.spawnRequest env n attempt
  | .gathered => s.spawnGathered n
  | .settle attempt => s.spawnSettle env n attempt

def hostStep (env : Environment D) (s : Runtime D P) : HostAction D P → Runtime D P
  | .store publication moment further operation =>
    { s with ledger := Store.perform s.ledger ⟨⟨env.fingerprint, publication⟩, moment, further, operation⟩ }
  | .append attempt runId kind payload =>
    { s with ledger := (Store.transaction attempt.moment
        (Store.appendEvent (attempt.host env) runId kind payload) s.ledger).2 }
  | .catalog op => { s with catalog := s.catalog.perform env.token op }

def step (env : Environment D) (s : Runtime D P) : Action D P → Option (Runtime D P)
  | .call a => some (s.callStep a)
  | .submit i a => s.submitStep env i a
  | .execution t a => s.executionStep env t a
  | .cancel k a => s.cancelStep env k a
  | .prepare g a => s.prepareStep g a
  | .closer c a => s.closingStep c a
  | .start i a => s.startStep env i a
  | .reconfigure k a => s.reconfigureStep k a
  | .close j a => s.closeStep env j a
  | .spawn n a => s.spawnStep env n a
  | .host a => some (s.hostStep env a)

end Runtime

/-! ### A small system -/

namespace Sample

def environment : Environment String := ⟨fun request _ => request.runId, fun n => toString n⟩

def faithful : Environment (RunRequest × ExecutionContext) := ⟨Prod.mk, fun n => toString n⟩

def calm {D : Type} : Attempt D Nat := { moment := { now := 0 } }

def faulty {D : Type} : Attempt D Nat := { moment := { now := 0, fault := true } }

def runtime {D : Type} : Runtime D Nat := .construct (.empty 0) (.empty true) 1 true

def opening {D : Type} : List (Action D Nat) :=
  [.call .start, .start 0 (.enter calm [] true), .prepare 0 .done, .start 0 .prepared, .start 0 .done]

def acceptance {D : Type} : List (Action D Nat) :=
  [.call (.submit request context), .submit 0 .enter, .submit 0 (.authorized none), .submit 0 (.accept calm)]

def cancellation {D : Type} : List (Action D Nat) :=
  [.call (.cancel request.runId context false), .cancel 0 (.read false), .cancel 0 (.request calm)]

def reservation {D : Type} : List (Action D Nat) :=
  [.call (.cancel request.runId context true), .cancel 0 (.look false), .cancel 0 (.reserve calm)]

end Sample

end OpenAgent
