import OpenAgent.Host.State
import OpenAgent.Lib.Place
import OpenAgent.Lib.Transition

/-!
# Capability hosts on one state database

Any number of hosts, each a process of its own that may crash, share the state database and the durable
consent. A step carries a coroutine to its next wait, carries out one operation on the database, ends a
provider's task, or moves the clock; which coroutine goes next, how tasks end and when a cancellation
lands is left open.
-/

namespace OpenAgent.Host

open Lib

variable {F R : Type}

inductive ReadPhase
  | waiting | running | ended | finished
deriving DecidableEq

/-- A `read_resource` that waits for its task. -/
structure Read where
  host : Nat
  principal : String
  callId : String
  phase : ReadPhase := .waiting
  grants : Nat := 0
deriving DecidableEq

inductive ReleasePhase
  | waiting
  | draining (events : List TaskRef)
  | releasing
  | finished
  | failed
deriving DecidableEq

structure Release where
  host : Nat
  principal : String
  phase : ReleasePhase
deriving DecidableEq

/-- From `barrier` on `granted` counts the grants of consent at the moment it was withdrawn. -/
inductive ConsentPhase
  | waiting
  | enabling
  | barrier (granted : Nat)
  | gathering (granted : Nat) (tasks : List TaskRef)
  | releasing (granted : Nat) (release : Nat) (rest : List String)
  | stopping (granted : Nat)
  | withdrawn (granted : Nat)
  | finished
deriving DecidableEq

/-- A call of `set_consent`. -/
structure ConsentChange where
  host : Nat
  enabled : Bool
  phase : ConsentPhase := .waiting
deriving DecidableEq

inductive ClosePhase
  | waiting
  | gathering (tasks : List TaskRef)
  | stopping
  | releasing (principals : List String)
  | finished
deriving DecidableEq

structure Closing where
  host : Nat
  phase : ClosePhase := .waiting
deriving DecidableEq

structure Job (F R : Type) where
  host : Nat
  op : Op F R

structure System (F R : Type) where
  now : Int
  consent : Bool
  grants : Nat
  tables : Tables F R
  hosts : List CapabilityHost
  calls : List (Call F R)
  reads : List Read
  releases : List Release
  changes : List ConsentChange
  closings : List Closing
  jobs : List (Job F R)
  /-- The tasks that were asked to cancel. A task may end at any time and in any way, so no step waits
  for the request. -/
  cancelled : List TaskRef

def System.initial : System F R :=
  ⟨0, false, 0, .initial, [], [], [], [], [], [], [], []⟩

inductive Action (F R : Type)
  | boot
  | crash (host : Nat)
  | tick (now : Int)
  | call (host : Nat) (request : Request F)
  | acquire (i : Nat)
  | admitCall (i : Nat) (tool : Option Tool)
  | operate (i : Nat)
  | fault (i : Nat) (text : String)
  | interrupt (i : Nat)
  | resume (i : Nat) (external : Bool)
  | taskEnds (i : Nat) (outcome : Outcome R)
  | renew (i : Nat)
  | job (n : Nat)
  | cancel (host : Nat) (callId : String)
  | read (host : Nat) (principal callId : String)
  | admitRead (i : Nat) (declared : Bool)
  | readEnds (i : Nat)
  | resumeRead (i : Nat)
  | releasePrincipal (host : Nat) (principal : String)
  | beginRelease (i : Nat)
  | resumeRelease (i : Nat)
  | operateRelease (i : Nat)
  | failRelease (i : Nat) (later : Bool)
  | setConsent (host : Nat) (enabled : Bool)
  | writeConsent (i : Nat)
  | resumeConsent (i : Nat)
  | failConsent (i : Nat)
  | close (host : Nat)
  | resumeClose (i : Nat)
  | operateClose (i : Nat)
  | failClose (i : Nat) (later : Bool)

variable (s : System F R)

/-- The host `h`, if it runs. -/
def System.host? (h : Nat) : Option CapabilityHost := s.hosts[h]?.filter CapabilityHost.alive

/-- The call `i`, if its host runs. -/
def System.call? (i : Nat) : Option (Call F R) := s.calls[i]?.filter fun call => (s.host? call.host).isSome

def System.read? (i : Nat) : Option Read := s.reads[i]?.filter fun read => (s.host? read.host).isSome

def System.release? (i : Nat) : Option Release :=
  s.releases[i]?.filter fun release => (s.host? release.host).isSome

def System.change? (i : Nat) : Option ConsentChange :=
  s.changes[i]?.filter fun change => (s.host? change.host).isSome

def System.closing? (i : Nat) : Option Closing :=
  s.closings[i]?.filter fun closing => (s.host? closing.host).isSome

def System.setCall (i : Nat) (call : Call F R) : System F R := { s with calls := s.calls.set i call }

def System.setRead (i : Nat) (read : Read) : System F R := { s with reads := s.reads.set i read }

def System.setRelease (i : Nat) (release : Release) (phase : ReleasePhase) : System F R :=
  { s with releases := s.releases.set i { release with phase := phase } }

def System.setChange (i : Nat) (change : ConsentChange) (phase : ConsentPhase) : System F R :=
  { s with changes := s.changes.set i { change with phase := phase } }

def System.setClosing (i : Nat) (closing : Closing) (phase : ClosePhase) : System F R :=
  { s with closings := s.closings.set i { closing with phase := phase } }

def System.onHost (h : Nat) (f : CapabilityHost → CapabilityHost) : System F R :=
  { s with hosts := s.hosts.modify h f }

def System.orphan (h : Nat) (ops : List (Op F R)) : System F R :=
  { s with jobs := s.jobs ++ ops.map fun op => ⟨h, op⟩ }

def System.requestCancel (tasks : List TaskRef) : System F R :=
  { s with cancelled := s.cancelled ++ tasks }

def System.taskDone : TaskRef → Bool
  | .call i => s.calls[i]?.all fun call => !call.running
  | .read i => s.reads[i]?.all fun read => read.phase ≠ .running

/-- Whether the `done_event` of the task is set. -/
def System.signalled : TaskRef → Bool
  | .call i => s.calls[i]?.any Call.signalled
  | .read i => s.reads[i]?.any fun read => read.phase = .finished

/-- The end of `_admit_call`: consent is read once more, and the provider is called at once if it holds. -/
def System.dispatch (i : Nat) (call : Call F R) : System F R :=
  if s.consent then
    (s.setCall i { call with
      phase := .awaiting
      task := some .running
      grants := s.grants
      epoch := s.tables.expiries.count call.request.key }).onHost call.host (.register i call)
  else if call.mutating then s.setCall i { call with phase := .leavingEarly }
  else s.setCall i { call with phase := .abandoningEarly }

/-- The end of the `finally` block of `call`. -/
def System.finish (i : Nat) (call : Call F R) : System F R :=
  (s.setCall i { call with phase := .finished, signalled := true }).onHost call.host
    (.forget call.request.callId)

def LeaseTables.expiryOf (T : LeaseTables) (i : Nat) : Option Int :=
  (T.lease.filter fun row => row.entrant = i).map LeaseRow.expiresAt

def System.resume (config : HostConfig R) (i : Nat) (external : Bool) : Option (System F R) := do
  let call ← s.call? i
  match call.phase with
  | .claimed (.replay _) => some (s.setCall i { call with phase := .unlocking })
  | .claimed .new =>
    if call.mutating then some (s.setCall i { call with phase := .entering })
    else some (s.dispatch i call)
  | .entered =>
    some ((s.dispatch i call).onHost call.host fun host =>
      { host with
        retainedLeasePrincipals := host.retainedLeasePrincipals.erase call.request.principal })
  | .unlocking =>
    some ((s.setCall i { call with phase := .finished }).onHost call.host fun host =>
      { host with admission := none })
  | .awaiting =>
    match call.task with
    | some (.ended outcome) => some (s.setCall i (call.settled config external outcome))
    | _ => none
  | .draining =>
    match call.task with
    | some (.ended outcome) => some (s.setCall i (call.drained config outcome))
    | _ => none
  | .closing =>
    if call.mutating && call.leaseIndeterminate then
      let kept : Call F R := { call with kept := s.tables.lease.expiryOf i }
      some ((s.finish i kept).onHost call.host fun host =>
        { host with
          retainedLeasePrincipals := host.retainedLeasePrincipals.insert call.request.principal })
    else if call.mutating then some (s.setCall i { call with phase := .leaving })
    else some (s.finish i call)
  | .left => some (s.finish i call)
  | _ => none

def System.fault [DecidableEq R] (i : Nat) (text : String) : Option (System F R) := do
  let call ← s.call? i
  match call.pending i with
  | some _ => some (s.setCall i { call with phase := call.phase.answered (.error (.python text)) })
  | none =>
    if call.phase = .closing then
      let kept := if call.leaseIndeterminate then s.tables.lease.expiryOf i else call.kept
      some (s.setCall i { call with phase := .finished, kept := kept })
    else none

/-- The renewer runs from the dispatch to the `finally` block. -/
def Phase.renewing : Phase R → Bool
  | .awaiting => true
  | .draining => true
  | .completing _ => true
  | .marking => true
  | .abandoning => true
  | _ => false

/-- The operations of `_renew_call`. -/
def Request.renewals (request : Request F) : List (Op F R) :=
  [.renewLease request.principal request.callId, .renewClaim request.key]

def System.releaseNext (i : Nat) (change : ConsentChange) (granted : Nat) (host : CapabilityHost) :
    List String → System F R
  | [] => s.setChange i change (.stopping granted)
  | principal :: rest =>
    let release : Release := ⟨change.host, principal, .draining (host.owned principal)⟩
    ({ s with releases := s.releases ++ [release] }.requestCancel (host.cancellableOf principal)).setChange
      i change (.releasing granted s.releases.length rest)

def System.unlockBoth (h : Nat) : System F R :=
  s.onHost h fun host => { host with admission := none, consentLock := none }

def System.resumeConsent (i : Nat) : Option (System F R) := do
  let change ← s.change? i
  let host ← s.host? change.host
  match change.phase with
  | .enabling =>
    some ((s.setChange i change .finished).onHost change.host fun host => { host with consentLock := none })
  | .barrier granted =>
    if host.admission = none then
      some (((s.requestCancel host.cancellable).setChange i change
        (.gathering granted (host.active.values.map ActiveEntry.task))).onHost change.host
          fun host => { host with admission := some (.consent i) })
    else none
  | .gathering granted tasks =>
    if tasks.all s.taskDone then some (s.releaseNext i change granted host host.principals) else none
  | .releasing granted release rest =>
    match s.releases[release]?.map Release.phase with
    | some .finished => some (s.releaseNext i change granted host rest)
    | some .failed => some ((s.setChange i change .finished).unlockBoth change.host)
    | _ => none
  | .stopping granted => some ((s.setChange i change (.withdrawn granted)).unlockBoth change.host)
  | _ => none

/-- An error or a cancellation in `set_consent`, which gives its locks back. -/
def System.failConsent (i : Nat) : Option (System F R) := do
  let change ← s.change? i
  match change.phase with
  | .waiting => some (s.setChange i change .finished)
  | .enabling | .barrier _ =>
    some ((s.setChange i change .finished).onHost change.host fun host => { host with consentLock := none })
  | .gathering _ _ | .stopping _ => some ((s.setChange i change .finished).unlockBoth change.host)
  | _ => none

def System.resumeClose (i : Nat) : Option (System F R) := do
  let closing ← s.closing? i
  let host ← s.host? closing.host
  match closing.phase with
  | .waiting =>
    if host.admission = none then
      some (((s.requestCancel host.cancellable).setClosing i closing
        (.gathering (host.active.values.map ActiveEntry.task))).onHost closing.host
          fun host => { host with admission := some (.close i) })
    else none
  | .gathering tasks => if tasks.all s.taskDone then some (s.setClosing i closing .stopping) else none
  | .stopping => some (s.setClosing i closing (.releasing host.principals))
  | .releasing [] =>
    some ((s.setClosing i closing .finished).onHost closing.host fun host => { host with admission := none })
  | _ => none

def System.executes : Action F R → Option (Job F R)
  | .operate i => do
    let call ← s.call? i
    let op ← call.pending i
    return ⟨call.host, op⟩
  | .job n => s.jobs[n]?.filter fun job => (s.host? job.host).isSome
  | .operateRelease i => do
    let release ← s.release? i
    if release.phase = .releasing then some ⟨release.host, .releasePrincipal release.principal⟩ else none
  | .operateClose i => do
    let closing ← s.closing? i
    match closing.phase with
    | .releasing (principal :: _) => some ⟨closing.host, .releasePrincipal principal⟩
    | _ => none
  | _ => none

def System.ran [DecidableEq F] (config : HostConfig R) (job : Job F R) :
    Except HostException (Reply R) × System F R :=
  let (reply, tables) := perform config job.host s.now job.op s.tables
  (reply, { s with tables := tables })

def System.discard (h : Nat) (principal : String) : System F R :=
  s.onHost h fun host => { host with principals := host.principals.erase principal }

def step [DecidableEq F] [DecidableEq R] (config : HostConfig R) (s : System F R) : Action F R → Option (System F R)
  | .boot => some { s with hosts := s.hosts ++ [.booted] }
  | .crash h => (s.host? h).map fun _ => s.onHost h fun host => { host with alive := false }
  | .tick now => if s.now ≤ now then some { s with now := now } else none
  | .call h request => (s.host? h).map fun _ =>
    let opened : System F R := { s with calls := s.calls ++ [{ host := h, request := request }] }
    opened.onHost h fun host => { host with principals := host.principals.insert request.principal }
  | .acquire i => do
    let call ← s.call? i
    let host ← s.host? call.host
    if call.phase = .waiting ∧ host.admission = none then
      some ((s.setCall i { call with phase := .admitted }).onHost call.host fun host =>
        { host with admission := some (.call i) })
    else none
  | .admitCall i tool => do
    let call ← s.call? i
    if call.phase = .admitted then
      if s.consent = true ∧ tool.isSome = true then
        some (s.setCall i { call with phase := .claiming, tool := tool })
      else some (s.setCall i { call with phase := .unlocking })
    else none
  | .operate i => do
    let job ← s.executes (.operate i)
    let call ← s.call? i
    let (reply, s) := s.ran config job
    some (s.setCall i { call with phase := call.phase.answered reply })
  | .fault i text => s.fault i text
  | .interrupt i => do
    let call ← s.call? i
    let requests := if call.phase = .awaiting ∧ call.drains = false then [TaskRef.call i] else []
    some (((s.setCall i call.interrupted).orphan call.host (call.pending i).toList).requestCancel requests)
  | .resume i external => s.resume config i external
  | .taskEnds i outcome => do
    let call ← s.call? i
    if call.running then some (s.setCall i { call with task := some (.ended outcome) })
    else none
  | .renew i => do
    let call ← s.call? i
    if call.phase.renewing then some (s.orphan call.host call.request.renewals) else none
  | .job n => do
    let job ← s.executes (.job n)
    some { (s.ran config job).2 with jobs := s.jobs.eraseIdx n }
  | .cancel h callId => do
    let host ← s.host? h
    let entry ← host.active.get? callId
    if host.admission = none ∧ callId ∉ host.uncancellableActive then
      some (s.requestCancel [entry.task])
    else none
  | .read h principal callId => (s.host? h).map fun _ =>
    { s with reads := s.reads ++ [{ host := h, principal := principal, callId := callId }] }
  | .admitRead i declared => do
    let read ← s.read? i
    let host ← s.host? read.host
    if read.phase = .waiting ∧ host.admission = none then
      if !host.closing && s.consent && declared && decide (host.active.entries.length < 64) &&
          !host.active.contains read.callId then
        some ((s.setRead i { read with phase := .running, grants := s.grants }).onHost read.host
          fun host => { host with
            principals := host.principals.insert read.principal
            active := host.active.set read.callId ⟨.read i, read.principal⟩ })
      else some (s.setRead i { read with phase := .finished })
    else none
  | .readEnds i => do
    let read ← s.read? i
    if read.phase = .running then some (s.setRead i { read with phase := .ended }) else none
  | .resumeRead i => do
    let read ← s.read? i
    if read.phase = .ended then
      some ((s.setRead i { read with phase := .finished }).onHost read.host fun host =>
        { host with active := host.active.pop read.callId })
    else none
  | .releasePrincipal h principal => (s.host? h).map fun _ =>
    { s with releases := s.releases ++ [⟨h, principal, .waiting⟩] }
  | .beginRelease i => do
    let release ← s.release? i
    let host ← s.host? release.host
    if release.phase = .waiting ∧ host.admission = none then
      some ((s.requestCancel (host.cancellableOf release.principal)).setRelease i release
        (.draining (host.owned release.principal)))
    else none
  | .resumeRelease i => do
    let release ← s.release? i
    let host ← s.host? release.host
    match release.phase with
    | .draining events =>
      if events.all s.signalled then
        if release.principal ∈ host.retainedLeasePrincipals then
          some ((s.setRelease i release .finished).discard release.host release.principal)
        else some (s.setRelease i release .releasing)
      else none
    | _ => none
  | .operateRelease i => do
    let job ← s.executes (.operateRelease i)
    let release ← s.release? i
    some (((s.ran config job).2.setRelease i release .finished).discard release.host release.principal)
  | .failRelease i later => do
    let release ← s.release? i
    match release.phase with
    | .finished => none
    | .failed => none
    | phase =>
      let ops := if phase = .releasing ∧ later = true then [.releasePrincipal release.principal] else []
      some ((s.setRelease i release .failed).orphan release.host ops)
  | .setConsent h enabled => (s.host? h).map fun _ =>
    { s with changes := s.changes ++ [{ host := h, enabled := enabled }] }
  | .writeConsent i => do
    let change ← s.change? i
    let host ← s.host? change.host
    if change.phase = .waiting ∧ host.consentLock = none then
      let written := s.onHost change.host fun host => { host with consentLock := some i }
      if change.enabled then
        some ({ written with consent := true, grants := s.grants + 1 }.setChange i change .enabling)
      else some ({ written with consent := false }.setChange i change (.barrier s.grants))
    else none
  | .resumeConsent i => s.resumeConsent i
  | .failConsent i => s.failConsent i
  | .close h => (s.host? h).map fun _ =>
    let opened : System F R := { s with closings := s.closings ++ [{ host := h }] }
    opened.onHost h fun host => { host with closing := true }
  | .resumeClose i => s.resumeClose i
  | .operateClose i => do
    let job ← s.executes (.operateClose i)
    let closing ← s.closing? i
    match closing.phase with
    | .releasing (_ :: rest) => some ((s.ran config job).2.setClosing i closing (.releasing rest))
    | _ => none
  | .failClose i later => do
    let closing ← s.closing? i
    match closing.phase with
    | .waiting => some (s.setClosing i closing .finished)
    | .finished => none
    | phase =>
      let ops := match phase with
        | .releasing (principal :: _) => if later then [.releasePrincipal principal] else []
        | _ => []
      some (((s.setClosing i closing .finished).orphan closing.host ops).onHost closing.host fun host =>
        { host with admission := none })

/-! ### Two hosts, a reading tool and a writing tool -/

namespace Sample

def configuration : HostConfig String := ⟨⟨86400, 30⟩, 15, by decide, fun _ => "error"⟩

def reader : Tool := ⟨.readOnly, false⟩

def writer : Tool := ⟨.mutating, false⟩

def reading : Request String := ⟨"alice", "read-1", by decide, some "key", "read"⟩

def rereading : Request String := ⟨"alice", "read-2", by decide, some "key", "read"⟩

def writing : Request String := ⟨"alice", "write-1", by decide, some "key", "write"⟩

def rewriting : Request String := ⟨"alice", "write-2", by decide, some "key", "write"⟩

def foreign : Request String := ⟨"bob", "write-3", by decide, none, "write"⟩

def started : List (Action String String) :=
  [.boot, .boot, .setConsent 0 true, .writeConsent 0, .resumeConsent 0]

/-- Call `i` is opened and goes on until its key is claimed. -/
def claims (i host : Nat) (request : Request String) (tool : Tool) : List (Action String String) :=
  [.call host request, .acquire i, .admitCall i (some tool), .operate i]

/-- Call `i` reads, up to its dispatch. -/
def reads (i host : Nat) (request : Request String) : List (Action String String) :=
  claims i host request reader ++ [.resume i false]

/-- Call `i` writes, up to its dispatch. -/
def writes (i host : Nat) (request : Request String) : List (Action String String) :=
  claims i host request writer ++ [.resume i false, .operate i, .resume i false]

/-- The tool of call `i`, which writes, returns, and the call with it. -/
def returns (i : Nat) : List (Action String String) :=
  [.taskEnds i (.returned "written"), .resume i false, .operate i, .resume i false, .operate i,
    .resume i false]

/-- The deadline of call `i`, which reads, passes. -/
def lapses (i : Nat) : List (Action String String) :=
  [.interrupt i, .taskEnds i .cancelled, .resume i false, .operate i]

end Sample

end OpenAgent.Host
