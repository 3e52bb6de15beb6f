import OpenAgent.Storage.Ledger
import OpenAgent.Lib.Transaction

/-!
# The store's operations

`SqliteRuntimeStore` as it runs: every public operation is one transaction over the ledger, except
`recover`, which is a sequence of them. A body raises where the source raises, in the source's
order. The clock reading is one per transaction, and a constraint the schema puts on a time column
raises when the clock has gone back behind it.
-/

namespace OpenAgent

open Lib Lib.Tx

inductive Generated
  | event (sequence : Nat)
  | message (position : Nat)
  | output

/-- The content-privacy publication bound to a store: it reads the whole database inside the
operation's transaction, writes only its own tables, and may refuse the operation. -/
structure Publication (D P : Type) where
  id : Nat
  inherit : Ledger D P → (runId sessionId : String) → (parentRunId : Option String) →
    Except StoreError P
  generated : Ledger D P → Generated → (runId : String) → Except StoreError P
  recordInvocationIntent : Ledger D P → (runId callId : String) → List ContentOrigin →
    Except StoreError P
  recordCompletedTool : Ledger D P → (runId callId : String) → ResultProvenance →
    Except StoreError P
  recordFailedTool : Ledger D P → (runId callId : String) → Except StoreError P

/-- What the store takes from its surroundings: the request fingerprint and the publication. -/
structure Host (D P : Type) where
  fingerprint : RunRequest → ExecutionContext → D
  publication : Option (Publication D P) := none

/-- The clock reading of a transaction, and whether SQLite raises somewhere inside it. -/
structure Moment where
  now : Int
  fault : Bool := false

abbrev StoreTx (D P α : Type) := Tx (Ledger D P) StoreError α

namespace Store

variable {D P : Type}

/-- `with self._transaction() as db` -/
def transaction {α : Type} (m : Moment) (body : StoreTx D P α) (L : Ledger D P) :
    Except StoreError α × Ledger D P :=
  if m.fault then (.error (.operational "database operation failed"), L) else atomically body L

def publish (host : Host D P) (hook : Publication D P → Ledger D P → Except StoreError P) :
    StoreTx D P Unit := do
  match host.publication with
  | none => pure ()
  | some publication =>
    let L ← get
    match hook publication L with
    | .ok privacy => set { L with privacy := privacy }
    | .error e => throw e

def requireSessionNotQuarantined (row : Option SessionRow) : StoreTx D P Unit :=
  raiseIf ((row.map SessionRow.visibility) = some .quarantined)
    (.permission "Quarantined historical session is not readable")

def requireRunNotQuarantined (runId : String) : StoreTx D P Unit := do
  let L ← get
  requireSessionNotQuarantined ((L.runs.get? runId).bind fun run => L.sessions.get? run.sessionId)

/-- A `CHECK` that a time column does not lie before the creation of its row. -/
def checkNotBefore (created now : Int) : StoreTx D P Unit :=
  raiseIf (now < created) (.integrity "CHECK constraint failed")

/-! ### Events and messages -/

/-- The row `_event` inserts. -/
def eventRow (L : Ledger D P) (runId : String) (row : RunRow D) (kind : String)
    (payload : EventPayload D) : EventRow D where
  sequence := L.lastSequence + 1
  tenantId := row.tenantId
  actor := row.metadata.executionContext.map fun context => context.author.key
  sessionId := row.sessionId
  runId := runId
  eventType := kind
  payload := payload

/-- `_event` -/
def event (host : Host D P) (runId kind : String) (payload : EventPayload D) : StoreTx D P Nat := do
  let L ← get
  let row ← orRaise (L.runs.get? runId) (.lookup runId)
  set { L with
    lastSequence := L.lastSequence + 1
    events := L.events ++ [eventRow L runId row kind payload] }
  if payload.isGenerated kind then
    publish host fun publication L' => publication.generated L' (.event (L.lastSequence + 1)) runId
  return L.lastSequence + 1

/-- The row `_message` inserts. -/
def messageRow (L : Ledger D P) (runId : String) (run : RunRow D) (role : MessageRole) (text : Json)
    (principal : PrincipalKey) (kind : String) (now : Int) (toolCallId : Option String)
    (status : MessageStatus) : MessageRow where
  tenantId := run.tenantId
  sessionId := run.sessionId
  runId := runId
  sequence := nextOrdinal ((L.messages.filter fun m => m.sessionId = run.sessionId).map MessageRow.sequence)
  ordinal := nextOrdinal ((L.messages.filter fun m => m.runId = runId).map MessageRow.ordinal)
  role := role
  status := status
  authorKind := if kind = "user" ∨ kind = "agent" ∨ kind = "system" then kind else "system"
  author := principal
  text := text
  toolCallId := toolCallId
  createdAtMs := now
  updatedAtMs := now
  completedAtMs := if status = .complete then some now else none

/-- `_message` -/
def message (host : Host D P) (runId : String) (role : MessageRole) (text : Json)
    (principal : PrincipalKey) (kind : String) (now : Int) (toolCallId : Option String)
    (status : MessageStatus) : StoreTx D P Unit := do
  let L ← get
  let run ← orRaise (L.runs.get? runId) (.type "'NoneType' object is not subscriptable")
  let session ← orRaise (L.sessions.get? run.sessionId) (.lookup run.sessionId)
  checkNotBefore session.createdAtMs now
  set { L with
    messages := L.messages ++ [messageRow L runId run role text principal kind now toolCallId status]
    sessions := L.sessions.set run.sessionId (session.touched now) }
  if ((role = .assistant ∨ role = .compaction) ∧ status = .complete) ∨
      (role = .user ∧ kind = "agent" ∧ run.delegatedParentRunId.getD "" ≠ "") then
    publish host fun publication L' => publication.generated L' (.message L.messages.length) runId

/-! ### Accepting a run -/

def aclPrincipalType (kind : String) : String :=
  if kind ∈ ["user", "agent", "device", "system", "installation", "role"] then kind else "system"

def grantAudience (context : ExecutionContext) (sessionId : String) (now : Int) :
    List PrincipalRef → StoreTx D P Unit
  | [] => pure ()
  | recipient :: rest => do
    if recipient ≠ context.authority then
      for permission in ["view", "search"] do
        let L ← get
        let key : AclKey := ⟨context.tenantId, sessionId, aclPrincipalType recipient.kind,
          recipient.key, permission⟩
        raiseIf (L.acl.contains key = true) (.integrity "UNIQUE constraint failed: resource_acl")
        set { L with acl := L.acl.set key now }
    grantAudience context sessionId now rest

def sessionRow (context : ExecutionContext) (now : Int)
    (parent : Option (String × String)) : SessionRow where
  tenantId := context.tenantId
  ownerPrincipalId := some context.authority.key
  visibility := if 1 < context.audience.length then .shared else .private
  parentSessionId := parent.map Prod.fst
  rootSessionId := parent.map Prod.snd
  agentId := context.agentId
  runtimeContract := true
  createdAtMs := now
  updatedAtMs := now
  lastActivityAtMs := now

def parentSession (request : RunRequest) (context : ExecutionContext) :
    StoreTx D P (Option (String × String)) := do
  match context.parentRunId.filter (· ≠ "") with
  | none => return none
  | some parentRunId =>
    let L ← get
    let parent := do
      let run ← (L.runs.get? parentRunId).filter fun run => run.tenantId = context.tenantId
      let session ← L.sessions.get? run.sessionId
      return (run.sessionId, (session.rootSessionId.filter (· ≠ "")).getD run.sessionId)
    raiseIf (parent.all fun p => p.1 = request.sessionId)
      (.value "A child requires an existing parent in the same tenant")
    return parent

/-- Open the session of a new run, or mark the one that is there as written by the runtime. The
source reads the parent after it has opened the session, so a new session's grants come first. -/
def openSession (request : RunRequest) (context : ExecutionContext) (now : Int) :
    StoreTx D P Unit := do
  let L ← get
  match L.sessions.get? request.sessionId with
  | none =>
    set { L with sessions := L.sessions.set request.sessionId (sessionRow context now none) }
    grantAudience context request.sessionId now context.audience
    let parent ← parentSession request context
    modify fun L => { L with
      sessions := L.sessions.set request.sessionId (sessionRow context now parent) }
  | some existing =>
    set { L with
      sessions := L.sessions.set request.sessionId { existing with runtimeContract := true } }
    let parent ← parentSession request context
    raiseIf (∃ p ∈ parent, existing.parentSessionId ≠ some p.1)
      (.value "An existing session cannot acquire a different parent")

def acceptedRow (L : Ledger D P) (request : RunRequest) (context : ExecutionContext) (digest : D)
    (reserved : Bool) (now : Int) : RunRow D where
  tenantId := context.tenantId
  sessionId := request.sessionId
  ordinal := nextOrdinal
    ((L.runs.entries.filter fun e => e.2.sessionId = request.sessionId).map fun e => e.2.ordinal)
  idempotencyKey := some request.idempotencyKey
  agentId := context.agentId
  status := .queued
  statusRaw := "accepted"
  input := some request.input
  output := none
  metadata := {
    runtimeContract := true
    requestDigest := some digest
    executionContext := some context
    deadlineSeconds := request.deadlineSeconds
    cancelRequested := reserved
    attachments := request.attachments
    modelRef := request.modelRef
    steerRunId := request.steerRunId }
  createdAtMs := now
  finishedAtMs := none
  delegatedParentRunId := context.parentRunId

def settleReserved (runId : String) (row : RunRow D) (reserved : Bool) (now : Int) :
    StoreTx D P Unit :=
  if reserved then
    modify fun L => { L with runs := L.runs.set runId (row.cancelledBeforeAccept now) }
  else pure ()

/-- The part of `_accept` that finds no earlier run of the request. -/
def insertRun (host : Host D P) (request : RunRequest) (context : ExecutionContext) (digest : D)
    (now : Int) : StoreTx D P (RunRecord D × Bool) := do
  let L ← get
  let reservation := L.reservation request.runId
  raiseIf (∃ e ∈ reservation, e.tenantId ≠ context.tenantId ∨ e.sessionId ≠ request.sessionId)
    (.idempotencyConflict "Cancelled reservation belongs to another context")
  raiseIf (∃ session ∈ L.sessions.get? request.sessionId, session.tenantId ≠ context.tenantId)
    (.permission "Session belongs to another tenant")
  openSession request context now
  let L ← get
  -- the trigger on `delegated_parent_run_id`, which also sees an empty identifier
  raiseIf (∃ p ∈ context.parentRunId, ∀ run ∈ L.runs.get? p, run.tenantId ≠ context.tenantId)
    (.integrity "Delegated parent belongs to a different tenant")
  let row := acceptedRow L request context digest reservation.isSome now
  set { L with runs := L.runs.set request.runId row }
  publish host fun publication L' =>
    publication.inherit L' request.runId request.sessionId context.parentRunId
  settleReserved request.runId row reservation.isSome now
  message host request.runId .user (.str request.input) context.author.key context.author.kind now
    none .complete
  let _ ← event host request.runId "run.accepted"
    (.accepted (if reservation.isSome then .cancelled else .queued) digest)
  let L' ← get
  let accepted ← orRaise (L'.runs.get? request.runId) (.type "'NoneType' object is not subscriptable")
  return (accepted.record request.runId, reservation.isNone)

/-- `_accept` -/
def accept (host : Host D P) (request : RunRequest) (context : ExecutionContext) [DecidableEq D]
    (now : Int) : StoreTx D P (RunRecord D × Bool) := do
  let digest := host.fingerprint request context
  let L ← get
  requireSessionNotQuarantined (L.sessions.get? request.sessionId)
  match L.colliding request with
  | [] => insertRun host request context digest now
  | [(id, row)] =>
    raiseIf (id ≠ request.runId ∨ row.metadata.requestDigest ≠ some digest) conflict
    return (row.record id, false)
  | _ => throw conflict
where
  conflict : StoreError := .idempotencyConflict
    "Idempotency key or run ID already belongs to a different request or author"

/-! ### Moving a run -/

def publishOutput (host : Host D P) (runId : String) (output : Option Json) : StoreTx D P Unit :=
  if output.isSome then publish host fun publication L => publication.generated L .output runId
  else pure ()

def reply (host : Host D P) (runId : String) (row : RunRow D) (status : RunStatus)
    (output : Option Json) (now : Int) : StoreTx D P Unit :=
  match status, output with
  | .success, some text => do
    let context ← orRaise row.metadata.executionContext (.key "execution_context")
    message host runId .assistant text
      ⟨context.authority.authority, row.tenantId, context.agentId, "agent"⟩ "agent" now none .complete
  | _, _ => pure ()

/-- `_transition`; a status outside the vocabulary is refused as `pending` is. -/
def transition (host : Host D P) (runId : String) (status : RunStatus) (output : Option Json)
    (now : Int) : StoreTx D P (RunRecord D) := do
  requireRunNotQuarantined runId
  let L ← get
  let row ← orRaise (L.runs.get? runId) (.lookup runId)
  if row.status.terminal then
    return row.record runId
  raiseIf (status ≠ .running ∧ status.terminal = false) (.value "Unsupported run transition")
  raiseIf (status = .running ∧ row.status ≠ .queued) (.value "Run has already started")
  raiseIf (status.terminal = true ∧ now < row.createdAtMs) (.integrity "CHECK constraint failed")
  set { L with runs := L.runs.set runId (row.moved status output now) }
  publishOutput host runId output
  reply host runId row status output now
  let _ ← event host runId ("run." ++ status.text) (.status status output)
  return (row.moved status output now).record runId

/-- `_request_cancel` -/
def requestCancel (host : Host D P) (runId : String) : StoreTx D P (RunRecord D) := do
  requireRunNotQuarantined runId
  let L ← get
  let row ← orRaise (L.runs.get? runId) (.lookup runId)
  if row.status.terminal ∨ row.metadata.cancelRequested then
    return row.record runId
  set { L with runs := L.runs.set runId row.cancelAsked }
  let _ ← event host runId "run.cancel_requested" .cancelRequested
  return row.cancelAsked.record runId

def reservedRecord (runId sessionId tenantId : String) : RunRecord D where
  runId := runId
  sessionId := sessionId
  tenantId := tenantId
  status := .cancelled
  requestDigest := none
  cancelRequested := true

def reservationRow (L : Ledger D P) (runId : String) (context : ExecutionContext) : EventRow D where
  sequence := L.lastSequence + 1
  tenantId := context.tenantId
  actor := some context.initiator.key
  sessionId := context.sessionId
  runId := runId
  eventType := "run.cancel_reserved"
  payload := .cancelReserved

/-- `_reserve_cancel` -/
def reserveCancel (runId : String) (context : ExecutionContext) : StoreTx D P (RunRecord D) := do
  let L ← get
  requireSessionNotQuarantined (L.sessions.get? context.sessionId)
  requireRunNotQuarantined runId
  match L.runs.get? runId with
  | some existing =>
    raiseIf (existing.tenantId ≠ context.tenantId ∨ existing.sessionId ≠ context.sessionId)
      (.permission "Run belongs to another context")
    return existing.record runId
  | none =>
    match L.reservation runId with
    | some reserved =>
      raiseIf (reserved.tenantId ≠ context.tenantId ∨ reserved.sessionId ≠ context.sessionId)
        (.permission "Run reservation belongs to another context")
    | none =>
      set { L with
        lastSequence := L.lastSequence + 1
        events := L.events ++ [reservationRow L runId context] }
    return reservedRecord runId context.sessionId context.tenantId

/-- `_append_event` -/
def appendEvent (host : Host D P) (runId kind : String) (payload : Json) : StoreTx D P Nat := do
  requireRunNotQuarantined runId
  event host runId kind (.other payload)

/-- `_get` -/
protected def get (runId : String) (L : Ledger D P) : Except StoreError (Option (RunRecord D)) := do
  let _ ← requireRunNotQuarantined runId L
  match L.runs.get? runId with
  | some row => return some (row.record runId)
  | none => return (L.reservation runId).map fun e => reservedRecord runId e.sessionId e.tenantId

end Store

end OpenAgent
