import OpenAgent.Lib.Dict
import OpenAgent.Lib.Transition

/-!
# The realtime channel

One pump takes the outbound frames of a session from a queue and sends each to the transport of the device
that it is for. A frame that is not delivered is tried again until a deadline. A connection is named by the
key of its identity, and a fresh connection of a device and client instance takes over the older ones.
-/

namespace OpenAgent.Stream.Realtime

open Lib

structure Identity where
  deviceId : Option String := none
  connectionId : Option String := none
  clientInstanceId : Option String := none
  authEpoch : Nat := 0
  token : Nat := 0
deriving DecidableEq

inductive Key
  | internal
  | gateway (device connection : String) (clientInstance : Option String) (authEpoch : Nat)
  | value (identity : Identity)
deriving DecidableEq

/-- `_ingress_key` -/
def ingressKey : Option Identity → Key
  | none => .internal
  | some identity =>
    match identity.deviceId, identity.connectionId with
    | some device, some connection =>
      .gateway device connection identity.clientInstanceId identity.authEpoch
    | _, _ => .value identity

def sameInstance (a b : Identity) : Bool :=
  a.deviceId.isSome && a.clientInstanceId.isSome && a.deviceId = b.deviceId &&
    a.clientInstanceId = b.clientInstanceId

/-- An outbound frame: its place in the order of publication, where the object is kept (`id(evt)`), whom it is
for, and whether it can be encoded. -/
structure Frame where
  seq : Nat
  address : Nat
  ingress : Option Identity
  wireable : Bool
deriving DecidableEq

def Frame.key (f : Frame) : Key := ingressKey f.ingress

structure Binding where
  identity : Identity
  transport : Nat
deriving DecidableEq

/-- A frame that was sent, with the default transport and the number of bindings when its transport was looked
up. -/
structure Delivery where
  frame : Frame
  transport : Nat
  fallback : Nat
  bindings : Nat
deriving DecidableEq

/-- Where the pump is. An attempt is a second one if an earlier one failed. -/
inductive Pump
  | unstarted
  | getting
  | checking (f : Frame)
  | authorizing (f : Frame) (ingress : Option Identity) (again : Bool)
  | sending (f : Frame) (transport : Option Nat) (fallback bindings : Nat) (ingress : Option Identity)
      (again : Bool)
  | sleeping (f : Frame) (ingress : Option Identity)
  | stopped (f : Frame)
deriving DecidableEq

def Pump.hand : Pump → Option Frame
  | .checking f | .authorizing f _ _ | .sending f _ _ _ _ _ | .sleeping f _ => some f
  | .unstarted | .getting | .stopped _ => none

def Pump.stuck : Pump → Option Frame
  | .authorizing f _ true | .sending f _ _ _ _ true | .sleeping f _ | .stopped f => some f
  | _ => none

/-- The session's outbound side and its channel. Of the transports it is known which are up. -/
structure RealtimeChannel where
  queue : List Frame := []
  /-- `_outbound_ingresses` -/
  ingresses : Dict Nat Identity := .empty
  send : Nat := 0
  routeSends : Dict Key Nat := .empty
  routeIdentities : Dict Key Identity := .empty
  live : List Nat := []
  pump : Pump := .unstarted
  /-- where the frame is kept that the pump took last -/
  evt : Option Nat := none
  published : Nat := 0
  bound : List Binding := []
  sent : List Delivery := []

inductive Event
  | publish (address : Nat) (ingress : Option Identity) (wireable : Bool)
  | purge (seqs : List Nat)
  | bind (identity : Identity) (transport : Nat)
  | rebind (transport : Nat)
  | up (transport : Nat)
  | down (transport : Nat)
  | start
  | get
  /-- the authorisation check passes, or raises `PrivacyFence` or `PrivacyConflict`, or another error -/
  | authorized
  | fenced
  | broken
  /-- the transport takes the frame, or does not -/
  | delivered
  | failed
  /-- it does not, after the deadline -/
  | surrender
  | wake
deriving DecidableEq

namespace RealtimeChannel

def adopt (identity : Identity) (transport : Nat) (routes : Dict Key Nat) (olds : List (Key × Identity)) :
    Dict Key Nat :=
  olds.foldl (fun routes old => if sameInstance identity old.2 then routes.set old.1 transport else routes)
    routes

def bindTransport (c : RealtimeChannel) (identity : Identity) (transport : Nat) : RealtimeChannel :=
  let key := ingressKey (some identity)
  let identities := c.routeIdentities.set key identity
  { c with
    routeSends := adopt identity transport (c.routeSends.set key transport) identities.entries
    routeIdentities := identities
    bound := c.bound ++ [⟨identity, transport⟩] }

/-- `_send_for_ingress` -/
def sendForIngress (c : RealtimeChannel) : Option Identity → Option Nat
  | none => some c.send
  | some identity => c.routeSends.get? (ingressKey (some identity))

def publish (c : RealtimeChannel) (address : Nat) (ingress : Option Identity) (wireable : Bool) : RealtimeChannel :=
  { c with
    queue := c.queue ++ [⟨c.published, address, ingress, wireable⟩]
    published := c.published + 1
    ingresses :=
      match ingress with
      | none => c.ingresses
      | some identity => c.ingresses.set address identity }

/-- `purge_outbound` removes frames that are still queued. -/
def purge (c : RealtimeChannel) (seqs : List Nat) : RealtimeChannel :=
  let removed := c.queue.filter fun f => f.seq ∈ seqs
  { c with
    queue := c.queue.filter fun f => f.seq ∉ seqs
    ingresses := removed.foldl (fun ingresses f => ingresses.pop f.address) c.ingresses }

def free (c : RealtimeChannel) (address : Nat) : Bool :=
  c.evt ≠ some address && c.queue.all fun f => f.address ≠ address

def taken (c : RealtimeChannel) (f : Frame) : RealtimeChannel :=
  { c with
    ingresses := c.ingresses.pop f.address
    pump := if f.wireable then .authorizing f (c.ingresses.get? f.address) false else .getting }

def step (c : RealtimeChannel) : Event → Option RealtimeChannel
  | .publish address ingress wireable =>
    if c.free address then some (c.publish address ingress wireable) else none
  | .purge seqs => some (c.purge seqs)
  | .bind identity transport => some (c.bindTransport identity transport)
  | .rebind transport => some { c with send := transport }
  | .up transport => some { c with live := transport :: c.live }
  | .down transport => some { c with live := c.live.filter (· ≠ transport) }
  | .start =>
    match c.pump with
    | .unstarted | .stopped _ => some { c with pump := .getting }
    | _ => some c
  | .get =>
    match c.pump, c.queue with
    | .getting, f :: rest => some { c with pump := .checking f, queue := rest, evt := some f.address }
    | _, _ => none
  | .authorized =>
    match c.pump with
    | .checking f => some (c.taken f)
    | .authorizing f ingress again =>
      some { c with pump := .sending f (c.sendForIngress ingress) c.send c.bound.length ingress again }
    | _ => none
  | .fenced =>
    match c.pump with
    | .checking _ | .authorizing _ _ _ => some { c with pump := .getting }
    | _ => none
  | .broken =>
    match c.pump with
    | .checking f | .authorizing f _ _ => some { c with pump := .stopped f }
    | _ => none
  | .delivered =>
    match c.pump with
    | .sending f (some transport) fallback bindings _ _ =>
      if transport ∈ c.live then
        some { c with pump := .getting, sent := c.sent ++ [⟨f, transport, fallback, bindings⟩] }
      else none
    | _ => none
  | .failed =>
    match c.pump with
    | .sending f _ _ _ ingress _ => some { c with pump := .sleeping f ingress }
    | _ => none
  | .surrender =>
    match c.pump with
    | .sending f _ _ _ _ _ => some { c with pump := .stopped f }
    | _ => none
  | .wake =>
    match c.pump with
    | .sleeping f ingress => some { c with pump := .authorizing f ingress true }
    | _ => none

end RealtimeChannel

end OpenAgent.Stream.Realtime
