import OpenAgent.Contracts
import OpenAgent.Lib.Dict

/-!
# The state of a stream session

One durable session serves any number of connections. What they push waits in the inbound queue; typed
texts are gathered in a burst, attachments and video frames lie ready for the next turn of their
connection, and audio passes a second queue on its way to the recogniser. A lock serialises whoever
starts or cancels a turn. Every entry keeps the trusted origin and identity that the source holds in
tables beside the queues, keyed by the object.

`serial`, `utterance`, `place`, `pushedBy`, `pieces`, `speech`, `taken` and `returned` are not in the source:
they record which input is which, where it went and which calls are over.
-/

namespace OpenAgent.Session

open Lib

/-- The identity of a connection as `_ingress_key` reads it. -/
structure Ingress where
  deviceId : String
  connectionId : String
  clientInstanceId : Option String := none
  authEpoch : Nat := 0
  deriving DecidableEq

/-- The client host whose local tools a turn may use, with what `_same_execution_origin` compares. -/
structure Origin where
  deviceId : String
  clientInstanceId : String
  generation : Nat
  authEpoch : Nat
  registry : Nat
  deriving DecidableEq

/-- The trusted values that `push_in` receives beside an event. -/
structure Owner where
  executionOrigin : Option Origin
  ingressIdentity : Option Ingress
  deriving DecidableEq

/-- `_ingress_device_id` -/
def ingressDeviceId : Option Ingress → Option String
  | some ingress => if ingress.deviceId = "" then none else some ingress.deviceId
  | none => none

/-- `_ingress_auth_epoch` -/
def ingressAuthEpoch : Option Ingress → Nat
  | some ingress => ingress.authEpoch
  | none => 0

/-- `is_revoked_owner` of a revocation of a device below an epoch. -/
def isRevokedOwner (deviceId : String) (epoch : Nat) (ingress : Option Ingress) : Bool :=
  ingressDeviceId ingress = some deviceId && ingressAuthEpoch ingress < epoch

/-! ### Inbound events -/

inductive TextSource
  | userTyped
  | stt
  | system
  deriving DecidableEq

/-- A file reference as the agent gets it; an attachment of a text has no path check. -/
structure Attachment where
  kind : String
  path : Option String := none
  filename : String := ""
  mimeType : Option String := none
  artifactId : Option String := none
  deriving DecidableEq

inductive Event
  | audioChunk (data : List UInt8) (endOfSpeech : Bool) (encoding : String) (sampleRate : Nat)
  | videoFrame (stream : String) (imageBytes : List UInt8)
  | textDelta (text : String) (final : Bool)
  | textFinal (text : String) (source : TextSource) (attachments : List Attachment)
      (author : Option String)
  /-- With what the turn context of its connection, or else the session, says of local paths. -/
  | attachment (attachment : Attachment) (allowLocalAttachmentPaths : Bool)
  | interrupt (reason : String)
  | sessionOpen

/-- An `_STTInput`; `pushedBy` is what its own chunk was pushed with. -/
structure STTInput where
  data : List UInt8
  endOfUtterance : Bool
  owner : Owner
  encoding : String := ""
  sampleRate : Nat := 0
  pushedBy : Owner
  utterance : Nat
  place : Nat

/-- A queued event; `speech` is what the recogniser heard when it yielded the text. -/
structure Queued where
  event : Event
  owner : Owner
  speech : List STTInput := []

/-- `_event_ingresses` of a queued event; a `SessionOpen` is not entered there. -/
def Queued.ingress (q : Queued) : Option Ingress :=
  match q.event with
  | .sessionOpen => none
  | _ => q.owner.ingressIdentity

/-! ### Messages and turns -/

structure Piece where
  serial : Nat
  text : String
  author : Option String
  owner : Owner
  speech : List STTInput

structure Item where
  owner : Owner
  attachment : Attachment
  deriving DecidableEq

/-- A `TextFinal` on its way to a turn, with the origin and identity the turn will run under. -/
structure Message where
  text : String
  source : TextSource
  attachments : List Item
  author : Option String
  owner : Owner
  pieces : List Piece

inductive Phase
  /-- The task is created and has not taken a step. -/
  | scheduled
  /-- It reads the sequence floors; `run_stream` is not called yet. -/
  | preparing
  | streaming
  /-- In the `finally` block, before `OutTextFinal`. -/
  | finishing
  /-- After `OutTextFinal`, before `TurnComplete`. -/
  | answered
  | completed
  | done
  /-- Turned down by the hook, so that there never was a task. -/
  | refused
  deriving DecidableEq

structure Turn where
  message : Message
  attachments : List Item
  author : Option String
  phase : Phase := .scheduled
  /-- `task.cancel()` was called and the task has not seen it. -/
  cancelling : Bool := false
  /-- `agent.run_stream` was called with the message. -/
  handed : Bool := false
  /-- The stream of the agent has yielded an event. -/
  engaged : Bool := false
  streamError : Option String := none
  /-- The stream was cancelled, with the reason of the cancellation if one was in progress. -/
  cancelled : Option (Option String) := none

def Turn.over (t : Turn) : Bool := t.phase = .done || t.phase = .refused

/-! ### Speech -/

/-- The utterance whose chunks the dispatch accepts: `_stt_utterance_open` and its two owners. -/
structure Utterance where
  owner : Owner
  number : Nat
  chunks : Nat

structure Recognition where
  owner : Owner
  encoding : String
  sampleRate : Option Nat
  heard : List STTInput
  /-- `_live_audio` has not returned. -/
  live : Bool

structure VideoFrame where
  imageBytes : List UInt8
  pushedBy : Owner

/-! ### The dispatch lock -/

/-- How far `_cancel_active_turn` has come. -/
inductive CancelStage
  /-- `request_cancel` is awaited. -/
  | asking
  /-- The turn may finish by itself. -/
  | draining
  /-- The task was cancelled. -/
  | killing
  deriving DecidableEq

structure Cancel where
  turn : Nat
  reason : String
  suppressCompletion : Bool
  salvaged : Option Message
  stage : CancelStage

inductive Work
  /-- `_dispatch_turn` -/
  | dispatch (m : Message)
  /-- The rest of `_dispatch_turn` once no turn is in flight. -/
  | launch (m : Message)
  /-- The rest of `_on_user_turn_complete` for typed text once no turn is in flight. -/
  | buffer (m : Message)
  /-- Its last two steps: into the burst, and the timer restarted. -/
  | append (m : Message)

inductive Await
  | cancelling (c : Cancel)
  /-- `pre_dispatch_hook` runs. -/
  | hook (m : Message)
  /-- The cancelled recogniser pump is waited for. -/
  | pump

inductive Caller
  | dispatchLoop
  | burstDrain
  | revocation (deviceId : String) (epoch : Nat)
  deriving DecidableEq

structure Holder where
  caller : Caller
  await : Await
  rest : List Work

inductive Waiter
  | text (m : Message)
  | interrupt (reason : String)
  | burstDrain
  | revocation (deviceId : String) (epoch : Nat)

def Waiter.dispatches : Waiter → Bool
  | .text _ | .interrupt _ => true
  | .burstDrain | .revocation _ _ => false

def Waiter.drains : Waiter → Bool
  | .burstDrain => true
  | .text _ | .interrupt _ | .revocation _ _ => false

inductive BurstTimer
  | sleeping
  /-- It has fired and waits for the lock. -/
  | waiting
  deriving DecidableEq

/-! ### Outbound frames -/

inductive TurnEnd
  | completed
  | error
  | cancelled
  | empty
  deriving DecidableEq

inductive FrameKind
  | textDelta
  /-- Reasoning, tool status, audio, compaction, context and frames of child sessions. -/
  | notice
  | textFinal
  | error (text : String)
  | turnComplete (reason : TurnEnd) (error : String)
  /-- A recognised text or a part of one. -/
  | transcript
  deriving DecidableEq

/-- A frame of the outbound queue, with its turn if it has one and the connection it is for. -/
structure Frame where
  turn : Option Nat
  ingress : Option Ingress
  kind : FrameKind

/-! ### The session -/

structure Taken where
  piece : Piece
  attachments : List Attachment

structure StreamSession where
  revokedIngressEpochs : Dict String Nat := .empty
  /-- Texts whose `push_in` awaits the journal. -/
  journaling : List Queued := []
  inbound : List Queued := []
  sttIn : List STTInput := []
  sttUtterance : Option Utterance := none
  utterances : Nat := 0
  recognition : Option Recognition := none
  videoBuffers : Dict (Option Ingress × String) VideoFrame := .empty
  pendingAttachments : List Item := []
  pendingBurst : List Message := []
  burstTimer : Option BurstTimer := none
  lock : Option Holder := none
  waiters : List Waiter := []
  turns : List Turn := []
  currentTurn : Option Nat := none
  currentTurnStarted : Bool := false
  suppressRunnerCompletion : Bool := false
  outbound : List Frame := []
  taken : List Taken := []
  returned : List (String × Nat) := []

structure Settings where
  coalesceWindowMs : Nat
  /-- A recogniser is configured. -/
  stt : Bool
  handle : Option String

namespace StreamSession

/-- `_ingress_is_revoked` -/
def ingressIsRevoked (s : StreamSession) (ingress : Option Ingress) : Bool :=
  match ingressDeviceId ingress with
  | none => false
  | some deviceId =>
    match s.revokedIngressEpochs.get? deviceId with
    | none => false
    | some blockedEpoch => ingressAuthEpoch ingress < blockedEpoch

/-- The turn in flight: `_current_turn`, if it is not done. -/
def running (s : StreamSession) : Option Nat :=
  match s.currentTurn with
  | none => none
  | some j =>
    match s.turns[j]? with
    | none => none
    | some t => if t.over then none else some j

/-- `_cancel_burst_timer` -/
def cancelBurstTimer (s : StreamSession) : StreamSession :=
  { s with
    burstTimer := none
    waiters := s.waiters.filter fun w => !w.drains }

def dispatching (s : StreamSession) : Bool :=
  (s.lock.any fun h => h.caller = .dispatchLoop) || s.waiters.any Waiter.dispatches

def lockFree (s : StreamSession) : Bool := s.lock.isNone && s.waiters.isEmpty

end StreamSession

end OpenAgent.Session
