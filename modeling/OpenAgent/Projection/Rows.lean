import OpenAgent.Projection.Values
import OpenAgent.Search.Canonical

/-!
# Legacy sessions and the rows they project to

The compatibility table keeps a whole session in one row, its runs as one JSON text. The normalized
tables keep a session, its runs, its messages and its tool invocations apart. A column that is the
same in every projected row is left out.
-/

namespace OpenAgent.Projection

structure Header where
  sessionType : Option String := none
  agentId : Option String := none
  teamId : Option String := none
  workflowId : Option String := none
  userId : Option String := none
  sessionData : Option String := none
  agentData : Option String := none
  teamData : Option String := none
  workflowData : Option String := none
  metadata : Option String := none
  summary : Option String := none
  createdAt : Option Int := none
  updatedAt : Option Int := none
deriving DecidableEq

/-- A row of `sessions`. -/
structure LegacyRow extends header : Header where
  sessionId : String
  runs : Option String := none
deriving DecidableEq

inductive Completeness
  | complete | partialSource | malformedSource
deriving DecidableEq

/-- What the code reads back from `metadata_json`. -/
structure Metadata where
  projectionSchema : Nat := 0
  legacy : Json := .null
  legacyHeader : Option Header := none
  projectionError : Option String := none
  runtimeContract : Bool := false
deriving DecidableEq

inductive SessionStatus
  | active | deleted
deriving DecidableEq

/-- A row of `sessions_v2`, its version aside. -/
structure SessionRow (D : Type) where
  id : String
  tenantId : String
  ownerPrincipalId : Option String
  ownerHandleSnapshot : Option String
  visibility : Visibility
  aclVersion : Nat := 1
  title : String
  sessionType : String
  kind : String
  origin : String
  parentSessionId : Option String
  rootSessionId : Option String
  agentId : Option String
  teamId : Option String
  workflowId : Option String
  model : Json
  framework : Json
  status : SessionStatus := .active
  completeness : Completeness
  legacySourceHash : Option D
  metadata : Metadata
  createdAtMs : Int
  updatedAtMs : Int
  lastActivityAtMs : Int
  deletedAtMs : Option Int := none
deriving DecidableEq

/-- A projected row of `session_runs`. -/
structure RunRow where
  id : String
  ordinal : Nat
  idempotencyKey : Json
  parentRunId : Option String
  runnerKind : String
  agentId : Json
  teamId : Json
  workflowId : Json
  workflowStepId : Json
  status : RunStatus
  statusRaw : String
  model : Json
  modelProvider : Json
  inputJson : Json
  outputJson : Json
  metricsJson : Json
  metadataJson : Json
  completeness : Completeness
  rawEnvelope : Json
  createdAtMs : Int
  finishedAtMs : Option Int
deriving DecidableEq

inductive AuthorKind
  | user | agent | system
deriving DecidableEq

/-- A projected row of `session_messages`. -/
structure MessageRow where
  id : String
  runId : String
  sequence : Nat
  ordinal : Nat
  idempotencyKey : Json
  role : MessageRole
  status : MessageStatus
  authorKind : AuthorKind
  authorPrincipalId : Option String
  authorHandleSnapshot : Option String
  authorDisplay : Option String
  authorDeviceId : Json
  name : Json
  text : String
  contentJson : Json
  compressedContent : Json
  reasoningContent : Json
  redactedReasoningContent : Json
  toolCallId : Json
  visibility : Search.MessageVisibility
  rawEnvelope : Json
  legacyInferred : Bool
  createdAtMs : Int
  completedAtMs : Option Int
deriving DecidableEq

/-- A projected row of `tool_invocations`; its root is the session. -/
structure ToolRow where
  id : String
  rootId : String
  sessionRunId : String
  ordinal : Nat
  idempotencyKey : Json
  toolCallId : Option String
  toolServer : String
  toolName : String
  status : InvocationStatus
  statusRaw : String
  argsJson : Json
  resultJson : Json
  resultText : String
  errorText : Option String
  approvalJson : Json
  childRunId : Option String
  childSessionId : Json
  resultSha256 : Option String
  resultSizeBytes : Nat
  rawEnvelope : Json
  legacyInferred : Bool
  createdAtMs : Int
  finishedAtMs : Option Int
deriving DecidableEq

/-! ### Statuses -/

section

variable {D : Type} (py : Stdlib D)

/-- `_RUN_STATUS_MAP` -/
def runStatusMap : List (String × RunStatus) :=
  [("PENDING", .pending), ("PAUSED", .pending), ("QUEUED", .queued), ("RECEIVED", .received),
    ("RUNNING", .running), ("CANCELLING", .running), ("COMPLETED", .success), ("COMPLETE", .success),
    ("SUCCESS", .success), ("SUCCEEDED", .success), ("ERROR", .failed), ("FAILED", .failed),
    ("CANCELLED", .cancelled), ("CANCELED", .cancelled), ("REJECTED", .rejected),
    ("BLOCKED", .rejected), ("DENIED", .rejected), ("INTERRUPTED", .interrupted),
    ("SKIPPED", .skipped), ("TIMEOUT", .timedOut), ("TIMED_OUT", .timedOut)]

/-- `normalize_run_status` -/
def normalizeRunStatus (value : Json) : Except String (RunStatus × String) :=
  match runStatusMap.lookup (upper (named py value)) with
  | some status => .ok (status, named py value)
  | none => .error ("unmapped run status: " ++ py.repr (.str (named py value)))

/-- `_TOOL_STATUS_MAP` -/
def toolStatusMap : List (String × InvocationStatus) :=
  [("REQUESTED", .pending), ("PENDING", .pending), ("STARTED", .running), ("RUNNING", .running),
    ("COMPLETED", .success), ("SUCCEEDED", .success), ("SUCCESS", .success), ("FAILED", .error),
    ("ERROR", .error), ("DENIED", .error), ("CANCELLED", .cancelled), ("CANCELED", .cancelled),
    ("INTERRUPTED", .cancelled)]

/-- `normalize_tool_status` -/
def normalizeToolStatus (value : Json) (toolCallError : Json) (resultPresent : Bool) :
    Except String (InvocationStatus × String) :=
  let raw := named py value
  if raw = "" then
    .ok (if toolCallError = .bool true then (.error, "tool_call_error")
      else if resultPresent then (.success, "completed")
      else (.running, "running"))
  else
    match toolStatusMap.lookup (upper raw) with
    | none => .error ("unmapped tool status: " ++ py.repr (.str raw))
    | some status => .ok (if toolCallError = .bool true then .error else status, raw)

def populated (value : Json) (keys : List String) : List Json :=
  (keys.map value.get).filter fun v => named py v ≠ ""

/-- `_normalized_tool_lifecycle` -/
def normalizedToolLifecycle (tool : Json) : Except String (InvocationStatus × String) :=
  let present := tool.get "result" ≠ .null
  match populated py tool ["status", "state"] with
  | [] => normalizeToolStatus py .null (tool.get "tool_call_error") present
  | values => do
      let normalized ← values.mapM fun v => normalizeToolStatus py v (tool.get "tool_call_error") present
      match normalized with
      | first :: rest =>
        if rest.all (fun other => other.1 = first.1) then pure first
        else throw "tool has conflicting lifecycle statuses"
      | [] => throw "tool has conflicting lifecycle statuses"

/-- `_message_role` -/
def messageRole (raw : Json) : Option MessageRole :=
  match word py raw with
  | "user" => some .user
  | "assistant" => some .assistant
  | "tool" => some .tool
  | "compaction" => some .compaction
  | _ => none

def promptRole (raw : Json) : Bool := word py raw = "system" || word py raw = "developer"

def hasRole (message : Json) : Bool :=
  (messageRole py (message.get "role")).isSome || promptRole py (message.get "role")

end

end OpenAgent.Projection
