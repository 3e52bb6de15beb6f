import OpenAgent.Host.Lease

/-!
# Calls, hosts and the state database they share

A capability host runs calls of clients. A call claims its idempotency key, enters the mutating lease
when its tool mutates, and hands the tool to its provider as a task of its own; what it does next
depends on how the task ends, on its deadline and on who cancels it. Each operation on the state
database runs in a thread: a coroutine interrupted while it waits goes on, and the operation may still
be carried out later with nobody listening.
-/

namespace OpenAgent.Host

open Lib

variable {F R : Type}

/-! ### The state database -/

structure Tables (F R : Type) where
  claims : Claims F R
  /-- The keys of the recorded results that were purged, one for each time. -/
  expiries : List (String × String)
  lease : LeaseTables

def Tables.initial : Tables F R := ⟨.empty, [], .free⟩

/-- An operation on the state database with its arguments. `call` names the call that asks. -/
inductive Op (F R : Type)
  | claim (call : Nat) (key : String × String) (fingerprint : F) (retryStale : Bool)
  | renewClaim (key : String × String)
  | complete (call : Nat) (key : String × String) (result : R)
  | abandon (key : String × String)
  | markIndeterminate (key : String × String)
  | enter (call : Nat) (principal callId : String)
  | renewLease (principal callId : String)
  | leave (principal callId : String)
  | releasePrincipal (principal : String)
deriving DecidableEq

inductive Reply (R : Type)
  | claimed (answer : Claim R)
  | done
deriving DecidableEq

/-- `lease_seconds` is at least 3, whatever is asked for. A tool result stands for an error that a tool
raised (`tool_error_result`, `ToolResult.text`). -/
structure HostConfig (R : Type) where
  ledger : LedgerConfig
  leaseSeconds : Int
  leaseSeconds_pos : 0 < leaseSeconds
  errorResult : HostException → R

def expiredKeys (now : Int) (claims : Claims F R) : List (String × String) :=
  (claims.filter fun _ row => row.expired now).keys

/-- An operation of the host `owner`, committed or rolled back. -/
def perform [DecidableEq F] (config : HostConfig R) (owner : Nat) (now : Int) (op : Op F R)
    (T : Tables F R) : Except HostException (Reply R) × Tables F R :=
  match op with
  | .claim call key fingerprint retryStale =>
    match atomically (claim config.ledger owner call key fingerprint retryStale now) T.claims with
    | (.ok answer, claims) =>
      (.ok (.claimed answer),
        { T with claims := claims, expiries := T.expiries ++ expiredKeys now T.claims })
    | (.error e, claims) => (.error e, { T with claims := claims })
  | .renewClaim key =>
    (.ok .done, { T with claims := renewClaim config.ledger owner key now T.claims })
  | .complete _ key result =>
    match atomically (complete config.ledger owner key result now) T.claims with
    | (answer, claims) => (answer.map fun _ => .done, { T with claims := claims })
  | .abandon key => (.ok .done, { T with claims := abandon owner key T.claims })
  | .markIndeterminate key => (.ok .done, { T with claims := markIndeterminate owner key T.claims })
  | .enter call principal callId =>
    match atomically (enterLease config.leaseSeconds principal callId call now) T.lease with
    | (answer, lease) => (answer.map fun _ => .done, { T with lease := lease })
  | .renewLease principal callId =>
    (.ok .done, { T with lease := renewLease config.leaseSeconds principal callId now T.lease })
  | .leave principal callId => (.ok .done, { T with lease := leaveLease principal callId T.lease })
  | .releasePrincipal principal => (.ok .done, { T with lease := releaseLease principal T.lease })

/-! ### Calls -/

structure Tool where
  classification : ToolClassification
  drains : Bool
deriving DecidableEq

def Tool.mutating (tool : Tool) : Bool := tool.classification ≠ .readOnly

def Tool.safeRetry (tool : Tool) : Bool :=
  tool.classification = .readOnly || tool.classification = .idempotent

def Tool.cancellationRequiresDrain (tool : Tool) : Bool := tool.mutating && tool.drains

/-- The arguments of `call`. A client that sends no call id is given a fresh one. -/
structure Request (F : Type) where
  principal : String
  callId : String
  named : callId ≠ ""
  idempotencyKey : Option String
  fingerprint : F

/-- `idempotency_key or call_id` -/
def Request.effectiveKey (request : Request F) : String :=
  match request.idempotencyKey with
  | some key => if key = "" then request.callId else key
  | none => request.callId

def Request.key (request : Request F) : String × String := (request.principal, request.effectiveKey)

inductive Outcome (R : Type)
  | returned (result : R)
  | hostError (code message : String)
  | timeout (text : String)
  | raised (text : String)
  | cancelled
deriving DecidableEq

inductive TaskState (R : Type)
  | running
  | ended (outcome : Outcome R)
deriving DecidableEq

/-- Where the coroutine of a call stands. Up to `unlocking`, where it gives the admission lock back, it
is in `_admit_call`; from `awaiting` on its tool is dispatched, and from `closing` on it is in the
`finally` block. -/
inductive Phase (R : Type)
  | waiting
  | admitted
  | claiming
  | claimed (answer : Claim R)
  | entering
  | entered
  | leavingEarly
  | abandoningEarly
  | unlocking
  | awaiting
  | draining
  | completing (result : R)
  | marking
  | abandoning
  | closing
  | leaving
  | left
  | finished
deriving DecidableEq

/-- The locals of a call. `task` is there once the provider is called, `grants` and `epoch` tell when
that was, and `kept` is the expiry of the lease a call that ended indeterminate leaves behind. -/
structure Call (F R : Type) where
  host : Nat
  request : Request F
  tool : Option Tool := none
  phase : Phase R := .waiting
  leaseIndeterminate : Bool := false
  task : Option (TaskState R) := none
  signalled : Bool := false
  grants : Nat := 0
  epoch : Nat := 0
  kept : Option Int := none

def Call.mutating (call : Call F R) : Bool := call.tool.any Tool.mutating

def Call.safeRetry (call : Call F R) : Bool := call.tool.any Tool.safeRetry

def Call.running (call : Call F R) : Bool :=
  match call.task with
  | some .running => true
  | _ => false

theorem Call.task_of_running {call : Call F R} (h : call.running = true) : call.task = some .running := by
  rw [running] at h
  split at h
  · assumption
  · cases h

def Call.drains (call : Call F R) : Bool := call.tool.any Tool.cancellationRequiresDrain

/-- The operation the coroutine of call `i` waits for. -/
def Call.pending (i : Nat) (call : Call F R) : Option (Op F R) :=
  match call.phase with
  | .claiming => some (.claim i call.request.key call.request.fingerprint call.safeRetry)
  | .entering => some (.enter i call.request.principal call.request.callId)
  | .leavingEarly => some (.leave call.request.principal call.request.callId)
  | .abandoningEarly => some (.abandon call.request.key)
  | .completing result => some (.complete i call.request.key result)
  | .marking => some (.markIndeterminate call.request.key)
  | .abandoning => some (.abandon call.request.key)
  | .leaving => some (.leave call.request.principal call.request.callId)
  | _ => none

def Phase.answered (reply : Except HostException (Reply R)) : Phase R → Phase R
  | .claiming =>
    match reply with
    | .ok (.claimed answer) => .claimed answer
    | _ => .unlocking
  | .entering =>
    match reply with
    | .ok _ => .entered
    | .error _ => .abandoningEarly
  | .leavingEarly =>
    match reply with
    | .ok _ => .abandoningEarly
    | .error _ => .unlocking
  | .abandoningEarly => .unlocking
  | .completing _ => .closing
  | .marking => .closing
  | .abandoning => .closing
  | .leaving =>
    match reply with
    | .ok _ => .left
    | .error _ => .finished
  | phase => phase

def Call.cutShort (call : Call F R) : Call F R :=
  if call.drains then { call with phase := .draining }
  else if call.safeRetry then { call with phase := .abandoning }
  else { call with phase := .marking, leaseIndeterminate := true }

/-- Where a cancellation, or the deadline of the tool, leaves the coroutine. It shields a task that is
to be drained, and otherwise waits on for the task it has cancelled; the `finally` block swallows a
cancellation while it waits for the renewer. -/
def Call.interrupted (call : Call F R) : Call F R :=
  match call.phase with
  | .waiting => { call with phase := .finished }
  | .admitted => { call with phase := .unlocking }
  | .claiming => { call with phase := .unlocking }
  | .claimed _ => { call with phase := .unlocking }
  | .entering => { call with phase := .abandoningEarly }
  | .entered => { call with phase := .abandoningEarly }
  | .leavingEarly => { call with phase := .unlocking }
  | .abandoningEarly => { call with phase := .unlocking }
  | .unlocking => call
  | .awaiting => if !call.drains && call.running then call else call.cutShort
  | .draining => { call with phase := .closing }
  | .completing _ => { call with phase := .closing }
  | .marking => { call with phase := .closing }
  | .abandoning => { call with phase := .closing }
  | .closing => call
  | .leaving => { call with phase := .finished }
  | .left => { call with phase := .finished }
  | .finished => call

def Call.failed (external : Bool) (result : R) (call : Call F R) : Call F R :=
  if !call.safeRetry && external then { call with phase := .marking, leaseIndeterminate := true }
  else { call with phase := .completing result }

/-- The call after its task. `external` tells whether the server is one of `_external_names`. -/
def Call.settled (config : HostConfig R) (external : Bool) (outcome : Outcome R) (call : Call F R) :
    Call F R :=
  match outcome with
  | .returned result => { call with phase := .completing result }
  | .hostError code message => call.failed external (config.errorResult (.host code message))
  | .timeout _ => call.cutShort
  | .cancelled => call.cutShort
  | .raised text => call.failed external (config.errorResult (.python text))

/-- `_drain_mutation` -/
def Call.drained (config : HostConfig R) (outcome : Outcome R) (call : Call F R) : Call F R :=
  match outcome with
  | .returned result => { call with phase := .completing result }
  | .hostError code message =>
    { call with phase := .completing (config.errorResult (.host code message)) }
  | .timeout text => { call with phase := .completing (config.errorResult (.python text)) }
  | .raised text => { call with phase := .completing (config.errorResult (.python text)) }
  | .cancelled => { call with phase := .closing }

/-! ### Hosts -/

inductive TaskRef
  | call (i : Nat)
  | read (i : Nat)
deriving DecidableEq

inductive Holder
  | call (i : Nat)
  | consent (i : Nat)
  | close (i : Nat)
deriving DecidableEq

/-- The entry of a call id in `_active`, `_active_principals` and `_active_done`. -/
structure ActiveEntry where
  task : TaskRef
  principal : String
deriving DecidableEq

structure CapabilityHost where
  active : Dict String ActiveEntry
  activeMutating : List String
  uncancellableActive : List String
  retainedLeasePrincipals : List String
  principals : List String
  admission : Option Holder
  consentLock : Option Nat
  closing : Bool
  alive : Bool

def CapabilityHost.booted : CapabilityHost := ⟨.empty, [], [], [], [], none, none, false, true⟩

/-- The tasks that `_active` names for a principal. -/
def CapabilityHost.owned (host : CapabilityHost) (principal : String) : List TaskRef :=
  (host.active.values.filter fun entry => entry.principal = principal).map ActiveEntry.task

/-- The entries `_admit_call` makes as it dispatches. -/
def CapabilityHost.register (i : Nat) (call : Call F R) (host : CapabilityHost) : CapabilityHost :=
  { host with
    active := host.active.set call.request.callId ⟨.call i, call.request.principal⟩
    activeMutating :=
      if call.mutating then host.activeMutating.insert call.request.callId else host.activeMutating
    uncancellableActive :=
      if call.drains then host.uncancellableActive.insert call.request.callId
      else host.uncancellableActive
    admission := none }

/-- The entries the `finally` block of a call removes. -/
def CapabilityHost.forget (callId : String) (host : CapabilityHost) : CapabilityHost :=
  { host with
    active := host.active.pop callId
    activeMutating := host.activeMutating.erase callId
    uncancellableActive := host.uncancellableActive.erase callId }

/-- The tasks that `set_consent` and `close` cancel. -/
def CapabilityHost.cancellable (host : CapabilityHost) : List TaskRef :=
  (host.active.entries.filter fun e => e.1 ∉ host.uncancellableActive).map fun e => e.2.task

def CapabilityHost.cancellableOf (principal : String) (host : CapabilityHost) : List TaskRef :=
  (host.active.entries.filter fun e => e.2.principal = principal && e.1 ∈ host.activeMutating &&
    e.1 ∉ host.uncancellableActive).map fun e => e.2.task

end OpenAgent.Host
