import OpenAgent.ContentPrivacy
import OpenAgent.Lib.Dict

/-!
# The run ledger

The tables the run authority writes: sessions, their access grants, runs, messages, tool invocations
and the append-only event log. Tables with a text primary key are dictionaries, so a key cannot name
two rows. A digest column keeps the fingerprint it was given and a text column the value it renders,
so two cells agree here exactly when they agree there. `P` is whatever the content-privacy
publication keeps in the same database.
-/

namespace OpenAgent

open Lib

inductive Visibility
  | «private» | shared | installationShared | «public» | quarantined
deriving DecidableEq

/-- A row of `sessions_v2`. -/
structure SessionRow where
  tenantId : String
  ownerPrincipalId : Option PrincipalKey
  visibility : Visibility
  parentSessionId : Option String := none
  rootSessionId : Option String := none
  agentId : String
  runtimeContract : Bool
  createdAtMs : Int
  updatedAtMs : Int
  lastActivityAtMs : Int

/-- The `UPDATE` a message makes to its session. -/
def SessionRow.touched (row : SessionRow) (now : Int) : SessionRow :=
  { row with updatedAtMs := now, lastActivityAtMs := now }

/-- A row of `resource_acl`, identified by the columns of its primary key. -/
structure AclKey where
  tenantId : String
  sessionId : String
  principalType : String
  principal : PrincipalKey
  permission : String
deriving DecidableEq

/-- The facts an acceptance keeps in `metadata_json`; rows of other writers may lack them. -/
structure RunMetadata (D : Type) where
  runtimeContract : Bool
  requestDigest : Option D
  executionContext : Option ExecutionContext
  deadlineSeconds : Option ℚ
  cancelRequested : Bool
  attachments : List Json
  modelRef : Option String
  steerRunId : Option String

/-- A row of `session_runs`. -/
structure RunRow (D : Type) where
  tenantId : String
  sessionId : String
  ordinal : Nat
  idempotencyKey : Option String
  agentId : String
  status : RunStatus
  statusRaw : String
  input : Option String
  output : Option Json
  metadata : RunMetadata D
  createdAtMs : Int
  finishedAtMs : Option Int
  delegatedParentRunId : Option String

inductive MessageRole
  | user | assistant | tool | compaction
deriving DecidableEq

inductive MessageStatus
  | streaming | complete
deriving DecidableEq

/-- A row of `session_messages`; its place in the table stands for its random identifier. -/
structure MessageRow where
  tenantId : String
  sessionId : String
  runId : String
  sequence : Nat
  ordinal : Nat
  role : MessageRole
  status : MessageStatus
  authorKind : String
  author : PrincipalKey
  text : Json
  toolCallId : Option String
  createdAtMs : Int
  updatedAtMs : Int
  completedAtMs : Option Int

inductive InvocationStatus
  | pending | running | success | error | cancelled
deriving DecidableEq

/-- `ToolInvocationStatus` values that end an invocation. -/
def InvocationStatus.terminal : InvocationStatus → Bool
  | .success | .error => true
  | .pending | .running | .cancelled => false

structure ToolBinding where
  toolRef : String
  sourceId : String
  name : String
  targetLabel : String
  effects : List String
  executionHost : Json
  metadata : Json
  providerCallId : Option String := none

/-- What a finished invocation leaves behind; an executor that returns nothing leaves `null`. -/
inductive ToolOutcome
  | result (value : Json)
  | error (value : Json)
deriving DecidableEq

/-- A row of `tool_invocations`, stored under its run and call identifiers. -/
structure InvocationRow where
  tenantId : String
  ownerPrincipalId : Option PrincipalKey
  visibility : Visibility
  sessionId : String
  ordinal : Nat
  status : InvocationStatus
  statusRaw : String
  binding : ToolBinding
  arguments : Json
  result : Option Json
  error : Option Json
  resultComplete : Bool
  createdAtMs : Int
  finishedAtMs : Option Int

/-- The `metadata_json` of an event. -/
inductive EventPayload (D : Type)
  | accepted (status : RunStatus) (requestDigest : D)
  | status (status : RunStatus) (output : Option Json)
  | cancelRequested
  | cancelReserved
  | toolInvoking (callId : String) (binding : ToolBinding) (arguments : Json)
  | toolCompleted (callId : String) (status : InvocationStatus) (binding : ToolBinding)
      (arguments : Json) (outcome : ToolOutcome)
  | other (payload : Json)

/-- `payload.get('output')`, where the payload has one. -/
def EventPayload.output {D : Type} : EventPayload D → Option Json
  | .status _ output => output
  | .other payload => (payload.field "output").filter (· ≠ .null)
  | _ => none

/-- A row of `domain_events`. -/
structure EventRow (D : Type) where
  sequence : Nat
  tenantId : String
  actor : Option PrincipalKey
  sessionId : String
  runId : String
  eventType : String
  payload : EventPayload D

structure Ledger (D P : Type) where
  sessions : Dict String SessionRow
  acl : Dict AclKey Int
  runs : Dict String (RunRow D)
  messages : List MessageRow
  invocations : Dict (String × String) InvocationRow
  events : List (EventRow D)
  lastSequence : Nat
  privacy : P

def Ledger.empty {D P : Type} (privacy : P) : Ledger D P where
  sessions := .empty
  acl := .empty
  runs := .empty
  messages := []
  invocations := .empty
  events := []
  lastSequence := 0
  privacy := privacy

/-- `coalesce(max(column),-1)+1` -/
def nextOrdinal (column : List Nat) : Nat :=
  match column.max? with
  | none => 0
  | some m => m + 1

variable {D P : Type}

/-- `_record`: the public view of a stored row. -/
def RunRow.record (id : String) (row : RunRow D) : RunRecord D where
  runId := id
  sessionId := row.sessionId
  tenantId := row.tenantId
  status := row.status
  requestDigest := row.metadata.requestDigest
  output := row.output
  cancelRequested := row.metadata.cancelRequested
  parentRunId := row.delegatedParentRunId

def RunRow.cancelledBeforeAccept (row : RunRow D) (now : Int) : RunRow D :=
  { row with status := .cancelled, statusRaw := "cancelled_before_accept", finishedAtMs := some now }

/-- The `UPDATE` of `_transition`. -/
def RunRow.moved (row : RunRow D) (status : RunStatus) (output : Option Json) (now : Int) : RunRow D :=
  { row with
    status := status
    statusRaw := status.text
    output := output
    finishedAtMs := if status.terminal then some now else none }

/-- The `UPDATE` of `_request_cancel`. -/
def RunRow.cancelAsked (row : RunRow D) : RunRow D :=
  { row with metadata := { row.metadata with cancelRequested := true } }

def EventPayload.isGenerated (payload : EventPayload D) (kind : String) : Bool :=
  kind = "run.status" ||
    (kind = "run.stream" &&
      match payload with
      | .other value => value.field "kind" = some (.str "delta") || value.field "kind" = some (.str "done")
      | _ => false) ||
    ("run.".toList.isPrefixOf kind.toList && payload.output.isSome)

/-- `SELECT * FROM session_runs WHERE id=? OR (session_id=? AND idempotency_key=?)` -/
def Ledger.colliding (L : Ledger D P) (request : RunRequest) : List (String × RunRow D) :=
  L.runs.entries.filter fun e => e.1 = request.runId ∨
    (e.2.sessionId = request.sessionId ∧ e.2.idempotencyKey = some request.idempotencyKey)

theorem Ledger.mem_colliding {L : Ledger D P} {request : RunRequest} {id : String} {row : RunRow D} :
    (id, row) ∈ L.colliding request ↔ L.runs.get? id = some row ∧ (id = request.runId ∨
      (row.sessionId = request.sessionId ∧ row.idempotencyKey = some request.idempotencyKey)) := by
  simp [colliding, Dict.get?_eq_some_iff]

theorem Ledger.absent_of_colliding_eq_nil {L : Ledger D P} {request : RunRequest}
    (h : L.colliding request = []) : L.runs.get? request.runId = none := by
  cases hrow : L.runs.get? request.runId with
  | none => rfl
  | some row =>
    have hmem := Ledger.mem_colliding.mpr ⟨hrow, .inl rfl⟩
    simp [h] at hmem

/-- The first `run.cancel_reserved` event of a run. -/
def Ledger.reservation (L : Ledger D P) (runId : String) : Option (EventRow D) :=
  L.events.find? fun e => e.runId = runId ∧ e.eventType = "run.cancel_reserved"

end OpenAgent
