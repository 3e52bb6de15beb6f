import OpenAgent.Host.Moves

/-!
# Calls with their renewers and the audit log

Beside the operations on the database a dispatched call has a renewer, a task of its own, and it writes to the audit log
before it ends. Both may fail, and the call may be cancelled at either. The `finally` block first awaits the renewer, then
leaves the lease, then takes the call out of the tables of its host and sets its event; whatever is raised on the way skips
what is left of it. The hosts are those of the rest of the development, and every step of theirs is one here.
-/

namespace OpenAgent.Host

open Lib

variable {F R : Type}

/-- The task of `_renew_call`; `created` has not run yet. -/
inductive Renewer
  | created
  | sleeping
  | renewingLease
  | renewingClaim
  | finished (failed : Bool)
deriving DecidableEq

/-- What a call has beside its coroutine: its renewer, and whether the coroutine waits for the audit log. -/
structure Aside where
  renewer : Renewer := .created
  auditing : Bool := false
deriving DecidableEq

structure Attended (F R : Type) where
  system : System F R
  asides : Nat → Aside

def Attended.initial : Attended F R := ⟨.initial, fun _ => {}⟩

/-- `expired` is a call whose deadline is refused: `_deadline_seconds` raises as soon as the tool is dispatched. -/
inductive AttendedAction (F R : Type)
  | system (a : Action F R)
  | expired (i : Nat) (external : Bool)
  | renewer (i : Nat) (fails : Bool)
  | audited (i : Nat)

def Phase.isClosing : Phase R → Bool
  | .closing => true
  | _ => false

def Phase.recording : Phase R → Bool
  | .completing _ => true
  | .marking => true
  | .abandoning => true
  | _ => false

def Renewer.op (request : Request F) : Renewer → Option (Op F R)
  | .renewingLease => some (.renewLease request.principal request.callId)
  | .renewingClaim => some (.renewClaim request.key)
  | _ => none

variable (d : Attended F R)

def Attended.setAside (i : Nat) (aside : Aside) : Attended F R :=
  { d with asides := fun j => if j = i then aside else d.asides j }

def Attended.setRenewer (i : Nat) (renewer : Renewer) : Attended F R := d.setAside i { d.asides i with renewer }

/-- Whether the coroutine of the call is in the `finally` block and awaits the renewer. -/
def Attended.awaitsRenewer (i : Nat) : Bool :=
  (d.system.calls[i]?.any fun call => call.phase.isClosing) && !(d.asides i).auditing

/-- The `finally` block goes on when the renewer is finished, and raises what the renewer has raised. -/
def Attended.permits : Action F R → Bool
  | .renew _ => false
  | .resume i _ => (d.system.calls[i]?.all fun call => !call.phase.isClosing) ||
      d.awaitsRenewer i && decide ((d.asides i).renewer = .finished false)
  | .fault i _ => (d.system.calls[i]?.all fun call => !call.phase.isClosing) ||
      d.awaitsRenewer i && decide ((d.asides i).renewer = .finished true)
  | _ => true

/-- Whether the call waits for the audit log after a step of the hosts: it does once the ledger has answered, and a
cancellation ends the wait. -/
def Attended.auditingAfter [DecidableEq F] (config : HostConfig R) (i : Nat) : Action F R → Bool
  | .operate j =>
    if i = j then
      (d.system.call? i).any fun call => call.phase.recording &&
        ((call.pending i).any fun op => (d.system.ran config ⟨call.host, op⟩).1.isOk)
    else (d.asides i).auditing
  | .interrupt j => if i = j then false else (d.asides i).auditing
  | _ => (d.asides i).auditing

def Attended.renews [DecidableEq F] (config : HostConfig R) (i : Nat) (fails : Bool) : Option (Attended F R) := do
  let call ← d.system.call? i
  if call.phase.late then
    if d.awaitsRenewer i then
      match (d.asides i).renewer with
      | .finished _ => none
      | renewer => some ({ d with system := d.system.orphan call.host (renewer.op call.request).toList }.setRenewer i (.finished false))
    else
      match (d.asides i).renewer with
      | .finished _ => none
      | .created => some (d.setRenewer i .sleeping)
      | .sleeping => some (d.setRenewer i .renewingLease)
      | .renewingLease =>
        if fails then some (d.setRenewer i (.finished true))
        else
          let op := .renewLease call.request.principal call.request.callId
          some ({ d with system := (d.system.ran config ⟨call.host, op⟩).2 }.setRenewer i .renewingClaim)
      | .renewingClaim =>
        if fails then some (d.setRenewer i (.finished true))
        else
          let op := .renewClaim call.request.key
          some ({ d with system := (d.system.ran config ⟨call.host, op⟩).2 }.setRenewer i .sleeping)
  else none

/-- The dispatch of a call whose deadline is refused, which leaves it at once in its `finally` block. -/
def Attended.expire (config : HostConfig R) (i : Nat) (external : Bool) : Option (Attended F R) := do
  let call ← d.system.call? i
  let s ← d.system.resume config i external
  let call' ← s.call? i
  match call.phase, call'.phase with
  | .claimed _, .awaiting => some { d with system := s.setCall i { call' with phase := .closing } }
  | .entered, .awaiting => some { d with system := s.setCall i { call' with phase := .closing } }
  | _, _ => none

def Attended.step [DecidableEq F] [DecidableEq R] (config : HostConfig R) (d : Attended F R) :
    AttendedAction F R → Option (Attended F R)
  | .system a =>
    if d.permits a then
      (Host.step config d.system a).map fun s =>
        ⟨s, fun i => { d.asides i with auditing := d.auditingAfter config i a }⟩
    else none
  | .expired i external => d.expire config i external
  | .renewer i fails => d.renews config i fails
  | .audited i =>
    if (d.asides i).auditing then some (d.setAside i { d.asides i with auditing := false }) else none

/-! ### A call that has ended -/

/-- The call `i` passed admission and is over now, and was not before. -/
def Attended.Ends (d d' : Attended F R) (i : Nat) (call call' : Call F R) : Prop :=
  d.system.calls[i]? = some call ∧ call.task.isSome = true ∧ call.phase ≠ .finished ∧
    d'.system.calls[i]? = some call' ∧ call'.phase = .finished

structure Attended.Cleaned (i : Nat) (call : Call F R) : Prop where
  signalled : call.signalled = true
  renewer : ∃ failed, (d.asides i).renewer = .finished failed
  absent : ∀ host, d.system.hosts[call.host]? = some host → host.active.get? call.request.callId = none ∧
    call.request.callId ∉ host.activeMutating ∧ call.request.callId ∉ host.uncancellableActive
  left : call.leaseIndeterminate = false → ∀ row, d.system.tables.lease.lease = some row → row.entrant ≠ i

/-- The `finally` block is cut short: the renewer had failed, the lease could not be left, or the call is cancelled while it
leaves the lease. -/
def Attended.CutShort (i : Nat) (call : Call F R) : AttendedAction F R → Prop
  | .system (.fault j _) => i = j ∧ (call.phase = .closing ∨ call.phase = .leaving)
  | .system (.interrupt j) => i = j ∧ (call.phase = .leaving ∨ call.phase = .left)
  | _ => False

end OpenAgent.Host
