import OpenAgent.Runtime.System

/-!
# The sessions of a runtime

Before `_execute` reads its record it resolves the run it steers, cancels it, waits for the lock of its session and is
authorized to execute; and before it settles a result it is authorized to publish. The steps of a runtime take each of
these in one go. Here they are steps of their own, next to the calls that release a session under the same lock, and
whatever else a runtime does goes on as before. The order in which the lock is handed out is left open.
-/

namespace OpenAgent

open Lib

variable {D P : Type} [DecidableEq D]

/-- How far `_execute` is with its session: `locked` has the lock, `admitted` is authorized to execute under it, and
`publishable` to publish. A steering run waits for the call that cancels its target. -/
inductive Gate
  | outside
  | steering (call : Nat)
  | waiting
  | locked
  | admitted
  | publishable
  | left
deriving DecidableEq

def Gate.holds : Gate → Bool
  | .locked | .admitted | .publishable => true
  | _ => false

inductive Occupant
  | run (t : Nat)
  | release (j : Nat)
deriving DecidableEq

inductive ReleasePhase
  | authorizing
  | waiting
  | releasing
  | ended

/-- A call of `chat_command_action`. -/
structure Release where
  context : ExecutionContext
  phase : ReleasePhase := .authorizing

/-- What the task `t` did, in the order in which it happened. -/
inductive SessionEvent
  | acquired (t : Nat)
  | executeAuthorized (t : Nat)
  | entered (t : Nat)
  | returned (t : Nat)
  | publishAuthorized (t : Nat)
  | released (t : Nat)
deriving DecidableEq

def ExecutionContext.session (context : ExecutionContext) : String × String := (context.tenantId, context.sessionId)

/-- A runtime with what holds each locked lock of `_sessions`. -/
structure Serial (D P : Type) where
  runtime : Runtime D P
  gates : Dict Nat Gate := .empty
  sessions : Dict (String × String) Occupant := .empty
  releases : List Release := []
  log : List SessionEvent := []

def Serial.construct (runtime : Runtime D P) : Serial D P := { runtime := runtime }

inductive GateAction (D P : Type)
  | steer (attempt : Attempt D P)
  | steered
  | queue
  | acquire
  | authorizeExecute
  | authorizePublish

inductive ReleaseAction
  | authorized
  | acquire
  | leave

inductive SerialAction (D P : Type)
  | runtime (a : Action D P)
  | execution (t : Nat) (a : ExecutionAction D P)
  | gate (t : Nat) (a : GateAction D P)
  | release (context : ExecutionContext)
  | releasing (j : Nat) (a : ReleaseAction)

namespace Serial

def gate (s : Serial D P) (t : Nat) : Gate := (s.gates.get? t).getD .outside

def setGate (s : Serial D P) (t : Nat) (g : Gate) : Serial D P := { s with gates := s.gates.set t g }

/-- A task that is no longer in the body of `_execute` has left its `async with lock`. -/
def leave (s : Serial D P) (t : Nat) (e : Execution) : Serial D P :=
  if e.inBody then s
  else if (s.gate t).holds then
    { s.setGate t .left with
      sessions := s.sessions.pop e.context.session
      log := s.log ++ [.released t] }
  else s.setGate t .left

def permits (s : Serial D P) (t : Nat) : ExecutionAction D P → Bool
  | .advance => s.gate t == .admitted
  | .publish _ => s.gate t == .publishable
  | _ => true

def notes (t : Nat) : ExecutionAction D P → List SessionEvent
  | .launch => [.entered t]
  | .returns _ => [.returned t]
  | _ => []

def executionStep (env : Environment D) (s : Serial D P) (t : Nat) (a : ExecutionAction D P) : Option (Serial D P) :=
  if s.permits t a then
    match s.runtime.executionStep env t a with
    | none => none
    | some r =>
      let s := { s with runtime := r, log := s.log ++ notes t a }
      match r.executions[t]? with
      | none => some s
      | some e => some (s.leave t e)
  else none

def beside : Action D P → Bool
  | .execution _ _ => false
  | .host (.store _ _ _ (.transition _ .success _)) => false
  | _ => true

def steer (env : Environment D) (s : Serial D P) (t : Nat) (e : Execution) (attempt : Attempt D P) :
    Option (Serial D P) :=
  match e.request.steerRunId with
  | none => none
  | some target =>
    match Store.get target s.runtime.ledger with
    | .ok (some record) =>
      if record.sessionId = e.request.sessionId ∧ record.tenantId = e.context.tenantId then
        match Store.transaction attempt.moment (Store.appendEvent (attempt.host env) e.request.runId "run.steering"
            (.obj [("target_run_id", .str record.runId)])) s.runtime.ledger with
        | (.ok _, ledger) =>
          let called := Runtime.cancelCall { s.runtime with ledger } record.runId e.context false
          some (setGate { s with runtime := called } t (.steering s.runtime.cancels.length))
        | (.error _, _) => none
      else none
    | _ => none

def cancelEnded (s : Serial D P) (k : Nat) : Bool :=
  match s.runtime.cancels[k]?.map Cancel.phase with
  | some .ended => true
  | _ => false

def gateStep (env : Environment D) (s : Serial D P) (t : Nat) (a : GateAction D P) : Option (Serial D P) :=
  match s.runtime.executions[t]? with
  | none => none
  | some e =>
    match a, e.phase, s.gate t with
    | .steer attempt, .entering, .outside => s.steer env t e attempt
    | .steered, .entering, .steering k => if s.cancelEnded k then some (s.setGate t .waiting) else none
    | .queue, .entering, .outside => if e.request.steerRunId = none then some (s.setGate t .waiting) else none
    | .acquire, .entering, .waiting =>
      if s.sessions.contains e.context.session then none
      else some { s.setGate t .locked with
        sessions := s.sessions.set e.context.session (.run t)
        log := s.log ++ [.acquired t] }
    | .authorizeExecute, .entering, .locked =>
      some { s.setGate t .admitted with log := s.log ++ [.executeAuthorized t] }
    | .authorizePublish, .publishing _, .admitted =>
      some { s.setGate t .publishable with log := s.log ++ [.publishAuthorized t] }
    | _, _, _ => none

def setRelease (s : Serial D P) (j : Nat) (call : Release) (phase : ReleasePhase) : Serial D P :=
  { s with releases := s.releases.set j { call with phase } }

/-- `chat_command_action`: the lock is taken, the agent releases the session, and the lock is given back. A denial or
the deadline ends it where it is. -/
def releaseStep (s : Serial D P) (j : Nat) (a : ReleaseAction) : Option (Serial D P) :=
  match s.releases[j]? with
  | none => none
  | some call =>
    match a, call.phase with
    | .authorized, .authorizing => some (s.setRelease j call .waiting)
    | .acquire, .waiting =>
      if s.sessions.contains call.context.session then none
      else some { s.setRelease j call .releasing with
        sessions := s.sessions.set call.context.session (.release j) }
    | .leave, .releasing => some { s.setRelease j call .ended with sessions := s.sessions.pop call.context.session }
    | .leave, .authorizing | .leave, .waiting => some (s.setRelease j call .ended)
    | _, _ => none

def step (env : Environment D) (s : Serial D P) : SerialAction D P → Option (Serial D P)
  | .runtime a => if beside a then (s.runtime.step env a).map fun r => { s with runtime := r } else none
  | .execution t a => s.executionStep env t a
  | .gate t a => s.gateStep env t a
  | .release context => some { s with releases := s.releases ++ [{ context := context }] }
  | .releasing j a => s.releaseStep j a

end Serial

end OpenAgent
