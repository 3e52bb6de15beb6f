import OpenAgent.Session.State
import OpenAgent.Lib.Text
import OpenAgent.Lib.Trim

/-!
# The steps of a stream session

Between two awaits a coroutine of the session runs alone, so each function below is what one of them does
from one await to the next. The dispatch loop, the burst drain and a revocation hold the lock across
several of these; what they still have to do is the rest of their work. A turn's task, the recogniser and
the clients move in between.
-/

namespace OpenAgent.Session

open Lib

/-- `text.strip()` -/
def strip (text : String) : String := String.ofList (Lib.trim isSpace text.toList)

/-- `"\n\n".join(text.strip() for text in texts if text.strip())` -/
def joinTexts (texts : List String) : String :=
  String.ofList (List.intercalate "\n\n".toList ((texts.map fun t => Lib.trim isSpace t.toList).filter (· ≠ [])))

/-- `_merge_burst`, with the origin and identity of the first message as its callers pass them on. -/
def mergeBurst (msgs : List Message) : Message where
  text := joinTexts (msgs.map (·.text))
  source := (msgs.getLast?.map (·.source)).getD .userTyped
  attachments := msgs.flatMap (·.attachments)
  author := msgs.getLast?.bind (·.author)
  owner := (msgs.head?.map (·.owner)).getD ⟨none, none⟩
  pieces := msgs.flatMap (·.pieces)

def Attachment.isAudio (a : Attachment) : Bool :=
  a.kind.map Char.toLower = "voice" || a.kind.map Char.toLower = "audio" ||
    "audio/".toList.isPrefixOf ((a.mimeType.getD "").map Char.toLower).toList

/-- The attachments of the message that `agent.run_stream` is called with. -/
def Turn.modelAttachments (t : Turn) : List Item :=
  if t.message.source = .stt then t.attachments.filter fun i => !i.attachment.isAudio else t.attachments

namespace StreamSession

variable (settings : Settings)

/-! ### The lock and the turn in flight -/

def release (s : StreamSession) (caller : Caller) : StreamSession :=
  match caller with
  | .revocation deviceId epoch => { s with lock := none, returned := s.returned ++ [(deviceId, epoch)] }
  | .dispatchLoop | .burstDrain => { s with lock := none }

/-- `task.cancel()` -/
def kill (s : StreamSession) (j : Nat) : StreamSession :=
  { s with turns := s.turns.modify j fun t => { t with cancelling := true } }

/-- `_cancel_active_turn` up to its first await. -/
def cancelActiveTurn (s : StreamSession) (caller : Caller) (j : Nat) (reason : String)
    (suppressCompletion salvageToBurst : Bool) (rest : List Work) : StreamSession :=
  let s := { s with suppressRunnerCompletion := s.suppressRunnerCompletion || suppressCompletion }
  match if salvageToBurst && !s.currentTurnStarted then s.turns[j]?.map (·.message) else none with
  | some salvaged =>
    { s.kill j with
      lock := some ⟨caller, .cancelling ⟨j, reason, suppressCompletion, some salvaged, .killing⟩, rest⟩ }
  | none =>
    { s with lock := some ⟨caller, .cancelling ⟨j, reason, suppressCompletion, none, .asking⟩, rest⟩ }

/-- `_dispatch_turn` up to its first await. -/
def dispatchTurn (s : StreamSession) (caller : Caller) (m : Message) (rest : List Work) : StreamSession :=
  match s.running with
  | some j => s.cancelActiveTurn caller j "user_text" true false (.launch m :: rest)
  | none => { s with lock := some ⟨caller, .hook m, rest⟩ }

def appendToBurst (s : StreamSession) (m : Message) : StreamSession :=
  { s.cancelBurstTimer with pendingBurst := s.pendingBurst ++ [m], burstTimer := some .sleeping }

def proceed (caller : Caller) : StreamSession → List Work → StreamSession
  | s, [] => s.release caller
  | s, .dispatch m :: rest => s.dispatchTurn caller m rest
  | s, .launch m :: rest => { s with lock := some ⟨caller, .hook m, rest⟩ }
  | s, .append m :: rest => proceed caller (s.appendToBurst m) rest
  | s, .buffer m :: rest =>
    match s.pendingBurst with
    | [] => proceed caller (s.appendToBurst m) rest
    | first :: _ =>
      if first.owner ≠ m.owner then
        { s with pendingBurst := [] }.dispatchTurn caller (mergeBurst s.pendingBurst) (.append m :: rest)
      else proceed caller (s.appendToBurst m) rest

/-- The end of `_cancel_active_turn`. -/
def settleCancel (s : StreamSession) (h : Holder) (c : Cancel) : StreamSession :=
  proceed h.caller
    { s with
      currentTurn := none
      currentTurnStarted := false
      suppressRunnerCompletion := if c.suppressCompletion then false else s.suppressRunnerCompletion
      pendingBurst := c.salvaged.toList ++ s.pendingBurst } h.rest

/-- The first await of `_cancel_active_turn` is over; only a run that is registered drains by itself. -/
def requestAnswered (s : StreamSession) (registered : Bool) : Option StreamSession :=
  match s.lock with
  | some h =>
    match h.await with
    | .cancelling c =>
      if c.stage = .asking then
        if registered then
          some { s with lock := some { h with await := .cancelling { c with stage := .draining } } }
        else if s.turns[c.turn]?.all Turn.over then some (s.settleCancel h c)
        else some { s.kill c.turn with
          lock := some { h with await := .cancelling { c with stage := .killing } } }
      else none
    | _ => none
  | none => none

def drained (s : StreamSession) : Option StreamSession :=
  match s.lock with
  | some h =>
    match h.await with
    | .cancelling c =>
      if c.stage ≠ .asking ∧ s.turns[c.turn]?.all Turn.over = true then some (s.settleCancel h c) else none
    | _ => none
  | none => none

def expired (s : StreamSession) : Option StreamSession :=
  match s.lock with
  | some h =>
    match h.await with
    | .cancelling c =>
      if s.turns[c.turn]?.all Turn.over then none
      else
        match c.stage with
        | .asking => none
        | .draining => some { s.kill c.turn with
            lock := some { h with await := .cancelling { c with stage := .killing } } }
        | .killing => some (s.settleCancel h c)
    | _ => none
  | none => none

/-! ### Starting a turn -/

/-- `_snapshot_video_frames`: the latest frame of every stream of the connection, without the name of the
temporary file. -/
def snapshotVideoFrames (s : StreamSession) (ingress : Option Ingress) : List Item :=
  (s.videoBuffers.entries.filter fun e => e.1.1 = ingress && !e.2.imageBytes.isEmpty).map fun e =>
    ⟨e.2.pushedBy, { kind := "image", filename := e.1.2 ++ "-snapshot.jpg" }⟩

/-- `_dispatch_turn` after the hook let the message pass. -/
def startTurn (s : StreamSession) (m : Message) : StreamSession :=
  let ingress := m.owner.ingressIdentity
  let attachments := m.attachments ++
    s.pendingAttachments.filter (·.owner.ingressIdentity = ingress) ++ s.snapshotVideoFrames ingress
  let s := { s with
    pendingAttachments := s.pendingAttachments.filter (·.owner.ingressIdentity ≠ ingress)
    videoBuffers := s.videoBuffers.filter fun key frame => !(key.1 = ingress && !frame.imageBytes.isEmpty) }
  if m.text = "" ∧ attachments = [] then s
  else
    { s with
      turns := s.turns ++ [{ message := m, attachments, author := m.author <|> settings.handle }]
      currentTurn := some s.turns.length
      currentTurnStarted := false }

def refuse (s : StreamSession) (m : Message) (error : String) : StreamSession :=
  let frame := fun kind => Frame.mk (some s.turns.length) m.owner.ingressIdentity kind
  let author := m.author <|> settings.handle
  { s with
    turns := s.turns ++ [{ message := m, attachments := [], author, phase := .refused }]
    outbound := s.outbound ++ [frame (.error error), frame (.turnComplete .error (clip 500 error))] }

/-- `pre_dispatch_hook` has answered; without a hook it answers nothing. -/
def hooked (s : StreamSession) (error : Option String) : Option StreamSession :=
  match s.lock with
  | some h =>
    match h.await with
    | .hook m =>
      match error with
      | some text =>
        if text = "" then some (proceed h.caller (s.startTurn settings m) h.rest)
        else some (proceed h.caller (s.refuse settings m text) h.rest)
      | none => some (proceed h.caller (s.startTurn settings m) h.rest)
    | _ => none
  | none => none

/-! ### Texts, bursts and interrupts -/

/-- `_on_user_turn_complete` under the lock. -/
def onUserTurnComplete (s : StreamSession) (m : Message) : StreamSession :=
  if m.source ≠ .userTyped then
    let s := s.cancelBurstTimer
    match s.pendingBurst with
    | [] => s.dispatchTurn .dispatchLoop m []
    | pending =>
      if pending.any (·.owner ≠ m.owner) then
        { s with pendingBurst := [] }.dispatchTurn .dispatchLoop (mergeBurst pending) [.dispatch m]
      else
        { s with pendingBurst := [] }.dispatchTurn .dispatchLoop
          { mergeBurst (pending ++ [m]) with owner := m.owner } []
  else if settings.coalesceWindowMs = 0 then s.dispatchTurn .dispatchLoop m []
  else
    match s.running with
    | some j => s.cancelActiveTurn .dispatchLoop j "user_text" true true [.buffer m]
    | none => proceed .dispatchLoop s [.buffer m]

/-- `_burst_drain` under the lock. -/
def drainBurst (s : StreamSession) : StreamSession :=
  let s := { s with burstTimer := none }
  match s.pendingBurst with
  | [] => s
  | msgs => { s with pendingBurst := [] }.dispatchTurn .burstDrain (mergeBurst msgs) []

/-- `_dispatch` of an `Interrupt` under the lock. -/
def interrupt (s : StreamSession) (reason : String) : StreamSession :=
  let s := { s.cancelBurstTimer with pendingBurst := [] }
  match s.running with
  | some j => s.cancelActiveTurn .dispatchLoop j reason false false []
  | none => s

/-! ### Revocation -/

/-- The last part of `revoke_ingress_device`. -/
def revokeTurn (s : StreamSession) (deviceId : String) (epoch : Nat) : StreamSession :=
  let caller := Caller.revocation deviceId epoch
  match s.running with
  | some j =>
    if s.turns[j]?.any fun t => isRevokedOwner deviceId epoch t.message.owner.ingressIdentity then
      s.cancelActiveTurn caller j "device_revoked" false false []
    else s.release caller
  | none => s.release caller

/-- The first part of `revoke_ingress_device` under the lock: the buffers lose what the device owns. -/
def dropRevoked (s : StreamSession) (deviceId : String) (epoch : Nat) : StreamSession :=
  let keptBurst := s.pendingBurst.filter fun m => !isRevokedOwner deviceId epoch m.owner.ingressIdentity
  let s := if keptBurst.isEmpty then s.cancelBurstTimer else s
  { s with
    pendingBurst := keptBurst
    pendingAttachments := s.pendingAttachments.filter fun i =>
      !isRevokedOwner deviceId epoch i.owner.ingressIdentity
    videoBuffers := s.videoBuffers.filter fun key _ =>
      !key.1.any fun ingress : Ingress => ingress.deviceId = deviceId && ingress.authEpoch < epoch }

/-- `revoke_ingress_device` under the lock, up to its first await. -/
def revokeIngressDevice (s : StreamSession) (deviceId : String) (epoch : Nat) : StreamSession :=
  let s := s.dropRevoked deviceId epoch
  if s.sttUtterance.any fun u : Utterance => isRevokedOwner deviceId epoch u.owner.ingressIdentity then
    { s with sttUtterance := none, lock := some ⟨.revocation deviceId epoch, .pump, []⟩ }
  else s.revokeTurn deviceId epoch

def pumpStopped (s : StreamSession) : Option StreamSession :=
  match s.lock with
  | some ⟨.revocation deviceId epoch, .pump, _⟩ =>
    some (revokeTurn { s with
      recognition := none
      sttIn := s.sttIn.filter fun i => !isRevokedOwner deviceId epoch i.owner.ingressIdentity }
      deviceId epoch)
  | _ => none

def ownedEpochs (s : StreamSession) (deviceId : String) : List Nat :=
  let current := s.currentTurn.bind fun j => s.turns[j]?.map (·.message.owner.ingressIdentity)
  let owners := s.inbound.map Queued.ingress ++ s.pendingBurst.map (·.owner.ingressIdentity) ++ current.toList
  (owners.filter fun ingress => ingressDeviceId ingress = some deviceId).map ingressAuthEpoch

def revocationEpoch (s : StreamSession) (deviceId : String) (epoch : Option Nat) : Nat :=
  let previous := s.revokedIngressEpochs.get? deviceId
  match epoch with
  | some epoch => max (previous.getD 0) epoch
  | none =>
    let next := (previous.map (· + 1)).getD 1
    max (previous.getD 0) ((s.ownedEpochs deviceId).foldl (fun next owned => max next (owned + 1)) next)

/-- `revoke_ingress_device` up to the lock. -/
def revoke (s : StreamSession) (deviceId : String) (epoch : Option Nat) : StreamSession :=
  let epoch := s.revocationEpoch deviceId epoch
  let s := { s with revokedIngressEpochs := s.revokedIngressEpochs.set deviceId epoch }
  if s.lockFree then s.revokeIngressDevice deviceId epoch
  else { s with waiters := s.waiters ++ [.revocation deviceId epoch] }

/-! ### The inbound queue -/

/-- `push_in` up to the journal. -/
def pushIn (s : StreamSession) (q : Queued) : StreamSession :=
  if s.ingressIsRevoked q.owner.ingressIdentity then s
  else
    match q.event with
    | .textFinal text _ _ _ =>
      if text = "" then { s with inbound := s.inbound ++ [q] }
      else { s with journaling := s.journaling ++ [q] }
    | _ => { s with inbound := s.inbound ++ [q] }

/-- `push_in` after the journal. -/
def journaled (s : StreamSession) (k : Nat) : Option StreamSession :=
  match s.journaling[k]? with
  | none => none
  | some q =>
    let s := { s with journaling := s.journaling.eraseIdx k }
    if s.ingressIsRevoked q.owner.ingressIdentity then some s
    else some { s with inbound := s.inbound ++ [q] }

def recordText (s : StreamSession) (piece : Piece) (attachments : List Attachment) : StreamSession :=
  let ready := s.pendingAttachments.filter (·.owner.ingressIdentity = piece.owner.ingressIdentity)
  { s with taken := s.taken ++ [⟨piece, attachments ++ ready.map (·.attachment)⟩] }

/-- A text that starts a turn goes to `_on_user_turn_complete`. -/
def takeText (s : StreamSession) (q : Queued) (text : String) (source : TextSource)
    (attachments : List Attachment) (author : Option String) : StreamSession :=
  let piece : Piece := ⟨s.taken.length, text, author, q.owner, q.speech⟩
  let m : Message := ⟨text, source, attachments.map (⟨q.owner, ·⟩), author, q.owner, [piece]⟩
  let s := s.recordText piece attachments
  if s.lockFree then s.onUserTurnComplete settings m else { s with waiters := s.waiters ++ [.text m] }

/-- The data of an `AudioChunk` joins the open utterance or opens one; another connection's is rejected. -/
def audioData (s : StreamSession) (owner : Owner) (data : List UInt8) (encoding : String)
    (sampleRate : Nat) : StreamSession :=
  if data = [] then s
  else
    match s.sttUtterance with
    | none =>
      { s with
        sttUtterance := some ⟨owner, s.utterances, 1⟩
        utterances := s.utterances + 1
        sttIn := s.sttIn ++ [⟨data, false, owner, encoding, sampleRate, owner, s.utterances, 0⟩] }
    | some u =>
      if owner.ingressIdentity ≠ u.owner.ingressIdentity then s
      else
        { s with
          sttUtterance := some { u with chunks := u.chunks + 1 }
          sttIn := s.sttIn ++ [⟨data, false, u.owner, encoding, sampleRate, owner, u.number, u.chunks⟩] }

def audioEnd (s : StreamSession) (owner : Owner) : StreamSession :=
  match s.sttUtterance with
  | none => s
  | some u =>
    if owner.ingressIdentity ≠ u.owner.ingressIdentity then s
    else
      { s with
        sttUtterance := none
        sttIn := s.sttIn ++ [⟨[], true, u.owner, "", 0, owner, u.number, u.chunks⟩] }

/-- `_dispatch` of an event whose connection is not revoked. -/
def dispatch (s : StreamSession) (q : Queued) : StreamSession :=
  match q.event with
  | .audioChunk data endOfSpeech encoding sampleRate =>
    if settings.stt then
      let s := s.audioData q.owner data encoding sampleRate
      if endOfSpeech then s.audioEnd q.owner else s
    else s
  | .videoFrame stream imageBytes =>
    { s with videoBuffers := s.videoBuffers.set (q.owner.ingressIdentity, stream) ⟨imageBytes, q.owner⟩ }
  | .textDelta text final =>
    if final ∧ text ≠ "" then s.takeText settings q text .userTyped [] none else s
  | .textFinal text source attachments author => s.takeText settings q text source attachments author
  | .attachment a allowed =>
    if a.path.getD "" ≠ "" ∧ a.artifactId.getD "" = "" ∧ allowed = false then
      { s with outbound := s.outbound ++
          [⟨none, none, .error "Local attachment paths require a trusted bridge or upload"⟩] }
    else { s with pendingAttachments := s.pendingAttachments ++ [⟨q.owner, a⟩] }
  | .interrupt reason =>
    if s.lockFree then s.interrupt reason else { s with waiters := s.waiters ++ [.interrupt reason] }
  | .sessionOpen => s

def take (s : StreamSession) : Option StreamSession :=
  match s.inbound with
  | [] => none
  | q :: rest =>
    if s.dispatching then none
    else
      let s := { s with inbound := rest }
      if s.ingressIsRevoked q.ingress then some s else some (s.dispatch settings q)

def grant (s : StreamSession) : Option StreamSession :=
  match s.lock, s.waiters with
  | none, w :: rest =>
    let s := { s with waiters := rest }
    match w with
    | .text m => some (s.onUserTurnComplete settings m)
    | .interrupt reason => some (s.interrupt reason)
    | .burstDrain => some s.drainBurst
    | .revocation deviceId epoch => some (s.revokeIngressDevice deviceId epoch)
  | _, _ => none

def timerFires (s : StreamSession) : Option StreamSession :=
  if s.burstTimer = some .sleeping then
    if s.lockFree then some s.drainBurst
    else some { s with burstTimer := some .waiting, waiters := s.waiters ++ [.burstDrain] }
  else none

/-! ### The recogniser -/

def pumpRuns (s : StreamSession) : Bool :=
  s.lock.all fun h => match h.await with | .pump => false | .hook _ | .cancelling _ => true

/-- `_stt_pump` looks for the first chunk of an utterance. -/
def listen (s : StreamSession) : Option StreamSession :=
  match s.recognition, s.sttIn with
  | none, first :: rest =>
    if s.pumpRuns then
      let s := { s with sttIn := rest }
      if first.endOfUtterance || s.ingressIsRevoked first.owner.ingressIdentity then some s
      else
        let encoding := if first.encoding = "" then "webm" else first.encoding
        let sampleRate := if first.sampleRate = 0 then none else some first.sampleRate
        some { s with recognition := some ⟨first.owner, encoding, sampleRate, [first], true⟩ }
    else none
  | _, _ => none

/-- The recogniser asks `_live_audio` for the next piece. -/
def pull (s : StreamSession) : Option StreamSession :=
  match s.recognition, s.sttIn with
  | some r, piece :: rest =>
    if s.pumpRuns && r.live then
      let s := { s with sttIn := rest }
      if piece.endOfUtterance then some { s with recognition := some { r with live := false } }
      else if s.ingressIsRevoked piece.owner.ingressIdentity then some s
      else if piece.owner.ingressIdentity ≠ r.owner.ingressIdentity then some s
      else some { s with recognition := some { r with heard := r.heard ++ [piece] } }
    else none
  | _, _ => none

def recognise (s : StreamSession) (text : String) (final : Bool) : Option StreamSession :=
  match s.recognition with
  | some r =>
    if s.pumpRuns then
      let ingress := r.owner.ingressIdentity
      if s.ingressIsRevoked ingress then some { s with recognition := none }
      else if final then
        if strip text = "" then some s
        else some { s with
          outbound := s.outbound ++ [⟨none, ingress, .transcript⟩]
          inbound := s.inbound ++ [⟨.textFinal (strip text) .stt [] none, r.owner, r.heard⟩] }
      else if text = "" then some s
      else some { s with outbound := s.outbound ++ [⟨none, ingress, .transcript⟩] }
    else none
  | none => none

def recognised (s : StreamSession) : Option StreamSession :=
  match s.recognition with
  | some _ => if s.pumpRuns then some { s with recognition := none } else none
  | none => none

end StreamSession

/-! ### The turn runner -/

inductive Move
  | start
  /-- `agent.run_stream` is called. -/
  | hand
  /-- The stream yields an event, one with visible text or not. -/
  | event (visible : Bool)
  | notice
  /-- The stream is over, or it raised or reported an error. -/
  | finish (error : Option String)
  /-- A pending cancellation is raised where the task awaits. -/
  | interrupted
  /-- What the task awaits swallows it. -/
  | swallow
  | answer
  | report
  | complete (blank : Bool)
  /-- A collaborator raises where nothing catches it. -/
  | fail
  | exit

namespace StreamSession

def setTurn (s : StreamSession) (j : Nat) (t : Turn) : StreamSession := { s with turns := s.turns.set j t }

/-- The frames that `_publish` holds back while a turn is being replaced. -/
def terminal : FrameKind → Bool
  | .textFinal | .turnComplete _ _ => true
  | .textDelta | .notice | .error _ | .transcript => false

/-- The runner's `publish`: only the current turn is heard, and no end of a turn that is being replaced. -/
def publish (s : StreamSession) (j : Nat) (t : Turn) (kind : FrameKind) : StreamSession :=
  if s.currentTurn = some j ∧ ¬ (s.suppressRunnerCompletion = true ∧ terminal kind = true) then
    { s with outbound := s.outbound ++ [⟨some j, t.message.owner.ingressIdentity, kind⟩] }
  else s

/-- The reason of the cancellation in progress, `_active_cancel_reason`. -/
def activeCancelReason (s : StreamSession) : Option String :=
  match s.lock with
  | some h => match h.await with | .cancelling c => some c.reason | .hook _ | .pump => none
  | none => none

/-- The `TurnComplete` of a turn. -/
def turnComplete (t : Turn) (blank : Bool) : FrameKind :=
  match t.cancelled, t.streamError with
  | some reason, _ => .turnComplete .cancelled (clip 500 (reason.getD ""))
  | none, some error => .turnComplete .error (clip 500 error)
  | none, none => if blank then .turnComplete .empty "" else .turnComplete .completed ""

/-- One step of `StreamTurnRunner.run` of turn `j`. -/
def runnerStep (s : StreamSession) (j : Nat) (t : Turn) : Move → Option StreamSession
  | .start =>
    if t.phase = .scheduled ∧ t.cancelling = false then some (s.setTurn j { t with phase := .preparing })
    else none
  | .hand =>
    if t.phase = .preparing ∧ t.cancelling = false then
      some (s.setTurn j { t with phase := .streaming, handed := true })
    else none
  | .event visible =>
    if t.phase = .streaming ∧ t.cancelling = false then
      let s := s.setTurn j { t with engaged := true }
      let s := { s with currentTurnStarted := s.currentTurnStarted || s.currentTurn = some j }
      some (if visible then s.publish j t .textDelta else s)
    else none
  | .notice => if t.handed then some (s.publish j t .notice) else none
  | .finish error =>
    if t.phase = .streaming ∧ t.cancelling = false then
      some (s.setTurn j { t with phase := .finishing, streamError := error })
    else none
  | .interrupted =>
    if t.cancelling = true ∧ t.over = false then
      if t.phase = .streaming then
        some (s.setTurn j
          { t with phase := .finishing, cancelling := false, cancelled := some s.activeCancelReason })
      else some (s.setTurn j { t with phase := .done, cancelling := false })
    else none
  | .swallow =>
    if t.cancelling = true ∧ t.handed = true ∧ t.over = false then
      some (s.setTurn j { t with cancelling := false })
    else none
  | .answer =>
    if t.phase = .finishing ∧ t.cancelling = false then
      some ((s.setTurn j { t with phase := .answered }).publish j t .textFinal)
    else none
  | .report =>
    match t.streamError with
    | some error =>
      if t.phase = .answered ∧ t.cancelling = false ∧ s.suppressRunnerCompletion = false then
        some (s.publish j t (.error error))
      else none
    | none => none
  | .complete blank =>
    if t.phase = .answered ∧ t.cancelling = false then
      some ((s.setTurn j { t with phase := .completed }).publish j t (turnComplete t blank))
    else none
  | .fail =>
    if (t.phase = .preparing ∨ t.phase = .finishing ∨ t.phase = .answered) ∧ t.cancelling = false then
      some (s.setTurn j { t with phase := .done })
    else none
  | .exit =>
    if t.phase = .completed ∧ t.cancelling = false then some (s.setTurn j { t with phase := .done })
    else none

end StreamSession

/-! ### Runs -/

inductive Step
  | push (event : Event) (owner : Owner)
  | journaled (k : Nat)
  | take
  | grant
  | timer
  | revoke (deviceId : String) (epoch : Option Nat)
  | requestAnswered (registered : Bool)
  | drained
  | expired
  | hooked (error : Option String)
  | pumpStopped
  | runner (j : Nat) (move : Move)
  | listen
  | pull
  | recognise (text : String) (final : Bool)
  | recognised

def step (settings : Settings) (s : StreamSession) : Step → Option StreamSession
  | .push event owner => some (s.pushIn { event, owner })
  | .journaled k => s.journaled k
  | .take => s.take settings
  | .grant => s.grant settings
  | .timer => s.timerFires
  | .revoke deviceId epoch => some (s.revoke deviceId epoch)
  | .requestAnswered registered => s.requestAnswered registered
  | .drained => s.drained
  | .expired => s.expired
  | .hooked error => s.hooked settings error
  | .pumpStopped => s.pumpStopped
  | .runner j move =>
    match s.turns[j]? with
    | some t => s.runnerStep j t move
    | none => none
  | .listen => s.listen
  | .pull => s.pull
  | .recognise text final => s.recognise text final
  | .recognised => s.recognised

end OpenAgent.Session
