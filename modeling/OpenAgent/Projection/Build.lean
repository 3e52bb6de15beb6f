import OpenAgent.Projection.Rows

/-!
# Building a projection

A legacy session splits into one row for the session and one for each run, message and tool call. A
run's lists of messages and tools move out of its envelope, which keeps in their place, under a
reserved key, what did not become a row: values that are no dicts, messages of an unknown role, and
messages that an earlier run of the session already showed.
-/

namespace OpenAgent.Projection

variable {D : Type} (py : Stdlib D)

/-- `NESTED_LAYOUT_KEY` -/
def nestedLayoutKey : String := "__openagent_normalized_nested_v2__"

/-- `_json(value, object_only=True)` -/
def asObject (value : Json) : Json := if value.isDict then value else .obj [("value", value)]

/-! ### The envelope of a run -/

/-- The entries of a list that satisfy `p`, under their ordinals. -/
def passthrough (p : Json → Bool) (xs : List Json) : Json :=
  .obj (xs.zipIdx.filterMap fun e => if p e.1 then some (toString e.2, e.1) else none)

def unread (message : Json) : Bool := !message.isDict || !hasRole py message

def nestedLayout (run : Json) : List (String × Json) :=
  (if (run.get "messages").isList then
    [("messages", .obj [("passthrough", passthrough (unread py) (run.get "messages").items)])] else []) ++
  (if (run.get "tools").isList then
    [("tools", .obj [("passthrough", passthrough (fun tool => !tool.isDict) (run.get "tools").items)])]
  else [])

def withoutLists (run : Json) : Json :=
  let envelope := if (run.get "messages").isList then run.pop "messages" else run
  if (run.get "tools").isList then envelope.pop "tools" else envelope

/-- `_bounded_run_envelope` -/
def boundedRunEnvelope (run : Json) : Json :=
  match nestedLayout py run with
  | [] => run
  | layout =>
    let envelope := withoutLists run
    let reserved :=
      if envelope.has nestedLayoutKey then [("provider_reserved_value", envelope.get nestedLayoutKey)]
      else []
    (envelope.pop nestedLayoutKey).put nestedLayoutKey (.obj (layout ++ reserved))

/-- `passthrough.update(skipped)`, in the layout of the messages, where anything was skipped. -/
def withSkipped (envelope : Json) (skipped : List (String × Json)) : Json :=
  match skipped with
  | [] => envelope
  | _ =>
    let layout := envelope.get nestedLayoutKey
    let messages := layout.get "messages"
    let entries := skipped.foldl (fun value e => value.put e.1 e.2) (messages.get "passthrough")
    envelope.put nestedLayoutKey (layout.put "messages" (messages.put "passthrough" entries))

/-! ### Lifecycles -/

def materializedMessage (message : Json) : Bool :=
  message.isDict && hasRole py message &&
    (trim (text py (message.get "content")) ≠ "" || (message.get "tool_call_id").truthy ||
      (message.get "tool_calls").truthy || (message.get "reasoning_content").truthy)

def materializedTool (tool : Json) : Bool :=
  tool.isDict &&
    ((tool.get "tool_name").truthy || (tool.get "name").truthy || (tool.get "tool_call_id").truthy ||
      (tool.get "tool_use_id").truthy || tool.get "tool_args" ≠ .null || tool.get "result" ≠ .null ||
      (tool.get "tool_call_error").truthy)

/-- `_missing_run_status_inference` -/
def missingRunStatusInference (run : Json) : Except String (Option (RunStatus × String)) := do
  let contentText := trim (text py (run.get "content"))
  let messages := (run.get "messages").items.filter (materializedMessage py)
  let tools := (run.get "tools").items.filter materializedTool
  if contentText = "" ∧ messages = [] ∧ tools = [] then
    pure none
  else
    let states ← tools.mapM fun tool => (normalizedToolLifecycle py tool).map Prod.fst
    let rawStates := tools.flatMap fun tool =>
      (populated py tool ["status", "state"]).map fun v => upper (named py v)
    let answered := messages.any fun message =>
      messageRole py (message.get "role") = some .assistant && trim (text py (message.get "content")) ≠ ""
    let finished := InvocationStatus.success ∈ states || .error ∈ states || .cancelled ∈ states
    let inferred : RunStatus :=
      if InvocationStatus.error ∈ states then .failed
      else if "INTERRUPTED" ∈ rawStates then .interrupted
      else if InvocationStatus.cancelled ∈ states then .cancelled
      else if contentText ≠ "" || answered || finished then .success
      else .running
    pure (some (inferred, "legacy_missing_inferred_" ++ inferred.text))

def runLifecycle (ordinal : Nat) (run : Json) : Except String (RunStatus × String × Bool) :=
  match populated py run ["status", "run_status", "state"] with
  | [] => do
      match ← missingRunStatusInference py run with
      | none => throw ("run " ++ toString ordinal ++ " has no status or durable transcript")
      | some (status, raw) => pure (status, raw, true)
  | values => do
      match ← values.mapM (normalizeRunStatus py) with
      | first :: rest =>
        if rest.all (fun other => other.1 = first.1) then pure (first.1, first.2, false)
        else throw ("run " ++ toString ordinal ++ " has conflicting lifecycle statuses")
      | [] => throw ("run " ++ toString ordinal ++ " has conflicting lifecycle statuses")

/-! ### What every row of a session shares -/

structure Context where
  sessionId : String
  header : Header
  metadata : Json
  ownerRaw : String
  agentId : String
  updatedMs : Int
deriving DecidableEq

structure RunFrame where
  id : String
  created : Int
  terminal : Bool

def RunRow.frame (row : RunRow) : RunFrame := ⟨row.id, row.createdAtMs, row.status.terminal⟩

structure Author where
  kind : AuthorKind
  principalId : Option String
  handle : Option String
  display : Option String
  inferred : Bool

/-- `_author` -/
def author (message : Json) (role : MessageRole) (owner : Option String) (agentId : String) : Author :=
  let author := if (message.get "author").isDict then message.get "author" else .obj []
  let (kind, inferred) : AuthorKind × Bool :=
    match word py (author.get "kind"), role with
    | "human", _ | "user", _ => (.user, false)
    | "agent", _ => (.agent, false)
    | "system", _ => (.system, false)
    | _, .user => (.user, true)
    | _, .assistant => (.agent, true)
    | _, _ => (.system, true)
  let given := (author.get "principal_id").either (author.get "handle")
  let identity := if given ≠ .null then given
    else if kind = .user then jsonText owner else .str agentId
  let principalId :=
    match kind with
    | .user => principal py "user" identity
    | .agent => principal py "agent" identity
    | .system => none
  ⟨kind, principalId, namedOrNone py (author.get "handle"), namedOrNone py (author.get "display"), inferred⟩

/-! ### The messages of a run -/

abbrev Counts (D : Type) : Type := D → Nat

structure MessageLoop (D : Type) where
  rows : List MessageRow
  counts : Counts D
  skipped : List (String × Json)

def rowRole (message : Json) : MessageRole := (messageRole py (message.get "role")).getD .compaction

/-- `_message_fingerprint` -/
def messageFingerprint (message : Json) : D :=
  py.digest [.str (match rowRole py message with
      | .user => "user" | .assistant => "assistant" | .tool => "tool" | .compaction => "compaction"),
    message.get "id", message.get "created_at", message.get "content", message.get "tool_call_id",
    message.get "tool_calls"]

def messageRow (ctx : Context) (run : RunFrame) (sequence ordinal : Nat) (message : Json) : MessageRow :=
  let sourceId := named py (message.get "id")
  let role := rowRole py message
  let writer := author py message role (if ctx.ownerRaw = "" then none else some ctx.ownerRaw) ctx.agentId
  let created := ms py (message.get "created_at") run.created
  let status : MessageStatus := if run.terminal || role ≠ .assistant then .complete else .streaming
  { id := if sourceId ≠ "" then "msg:" ++ ctx.sessionId ++ ":" ++ sourceId
      else stableId py "msg" [.str ctx.sessionId, .str run.id, .num ordinal]
    runId := run.id
    sequence
    ordinal
    idempotencyKey := message.get "idempotency_key"
    role
    status
    authorKind := writer.kind
    authorPrincipalId := writer.principalId
    authorHandleSnapshot := writer.handle
    authorDisplay := writer.display
    authorDeviceId := (message.get "author").get "device_id"
    name := message.get "name"
    text := text py (message.get "content")
    contentJson := message.get "content"
    compressedContent := message.get "compressed_content"
    reasoningContent := message.get "reasoning_content"
    redactedReasoningContent := message.get "redacted_reasoning_content"
    toolCallId := message.get "tool_call_id"
    visibility := if (messageRole py (message.get "role")).isSome then .userVisible else .internal
    rawEnvelope := asObject message
    legacyInferred := writer.inferred
    createdAtMs := created
    completedAtMs := if status = .complete then some created else none }

variable [DecidableEq D]

def messageStep (ctx : Context) (run : RunFrame) (seen : Counts D) (before : Nat) (loop : MessageLoop D)
    (entry : Json × Nat) : MessageLoop D :=
  let (message, ordinal) := entry
  if unread py message then loop
  else
    let fingerprint := messageFingerprint py message
    let occurrence := loop.counts fingerprint
    let counts := fun f => if f = fingerprint then occurrence + 1 else loop.counts f
    if occurrence < seen fingerprint then
      { loop with counts, skipped := loop.skipped ++ [(toString ordinal, message)] }
    else
      { loop with
        counts
        rows := loop.rows ++ [messageRow py ctx run (before + loop.rows.length) ordinal message] }

/-- The loop over the messages of a run; `before` counts the session's rows so far. -/
def messageLoop (ctx : Context) (run : RunFrame) (seen : Counts D) (before : Nat) (messages : List Json) :
    MessageLoop D :=
  messages.zipIdx.foldl (messageStep py ctx run seen before) ⟨[], fun _ => 0, []⟩

/-- `{"source": "run.content"}` -/
def contentMarker : Json := .obj [("source", .str "run.content")]

/-- The row that shows `run.content` where no message carries it. -/
def contentRow (ctx : Context) (run : RunFrame) (value : Json) (sequence ordinal : Nat) : MessageRow where
  id := stableId py "msg" [.str ctx.sessionId, .str run.id, .str "content"]
  runId := run.id
  sequence
  ordinal
  idempotencyKey := .null
  role := .assistant
  status := if run.terminal then .complete else .streaming
  authorKind := .agent
  authorPrincipalId := principal py "agent" (.str ctx.agentId)
  authorHandleSnapshot := none
  authorDisplay := none
  authorDeviceId := .null
  name := .null
  text := text py (value.get "content")
  contentJson := value.get "content"
  compressedContent := .null
  reasoningContent := value.get "reasoning_content"
  redactedReasoningContent := .null
  toolCallId := .null
  visibility := .userVisible
  rawEnvelope := contentMarker
  legacyInferred := true
  createdAtMs := run.created
  completedAtMs := if run.terminal then some run.created else none

/-- The row for `run.content`, if one is needed after the rows so far. -/
def contentRows (ctx : Context) (run : RunFrame) (value : Json) (rows : List MessageRow) : List MessageRow :=
  let content := text py (value.get "content")
  let shown := rows.any fun row => row.runId = run.id && row.role = .assistant && row.text = content
  if content = "" || shown then []
  else [contentRow py ctx run value rows.length (value.get "messages").items.length]

/-! ### The tools of a run -/

/-- `name.split("_", 1)[0] if "_" in name else "unknown"` -/
def serverOfName (name : String) : String :=
  if '_' ∈ name.toList then String.ofList (name.toList.takeWhile (· ≠ '_')) else "unknown"

def approvalKeys : List String :=
  ["requires_confirmation", "confirmed", "confirmation_note", "requires_user_input", "answered",
    "approval_type", "approval_id"]

/-- `result` as JSON, unless it is a text. -/
def resultJson : Json → Json
  | .null | .str _ => .null
  | value => value

def toolRow (ctx : Context) (run : RunFrame) (ordinal position : Nat) (tool : Json) :
    Except String ToolRow := do
  let (status, statusRaw) ← normalizedToolLifecycle py tool
  let callId := namedOrNone py ((tool.get "tool_call_id").either (tool.get "tool_use_id"))
  let name := pyStr py (((tool.get "tool_name").either (tool.get "name")).either (.str "unknown"))
  let resultText := text py (tool.get "result")
  let created := ms py (tool.get "created_at") run.created
  pure
    { id := match callId with
        | some call => "tool:" ++ ctx.sessionId ++ ":" ++ run.id ++ ":" ++ call
        | none => stableId py "tool" [.str ctx.sessionId, .str run.id, .num position]
      rootId := ctx.sessionId
      sessionRunId := run.id
      ordinal
      idempotencyKey := tool.get "idempotency_key"
      toolCallId := callId
      toolServer := pyStr py
        (((tool.get "tool_server").either (tool.get "server")).either (.str (serverOfName name)))
      toolName := name
      status
      statusRaw
      argsJson := tool.get "tool_args"
      resultJson := resultJson (tool.get "result")
      resultText
      errorText := if (tool.get "tool_call_error").truthy then some resultText else none
      approvalJson := .obj (approvalKeys.filterMap fun key =>
        if tool.get key = .null then none else some (key, tool.get key))
      childRunId := if (tool.get "child_run_id").truthy then
        some ("run:" ++ ctx.sessionId ++ ":" ++ pyStr py (tool.get "child_run_id")) else none
      childSessionId := tool.get "child_session_id"
      resultSha256 := if resultText = "" then none else some (py.sha256 resultText)
      resultSizeBytes := resultText.utf8ByteSize
      rawEnvelope := asObject tool
      legacyInferred := callId = none
      createdAtMs := created
      finishedAtMs := if status = .success ∨ status = .error ∨ status = .cancelled then some created
        else none }

/-- The rows of a run's tool calls; `before` counts the session's rows so far. -/
def toolRows (ctx : Context) (run : RunFrame) : (before position : Nat) → List Json →
    Except String (List ToolRow)
  | _, _, [] => pure []
  | before, position, tool :: rest =>
    if tool.isDict then do
      let row ← toolRow py ctx run before position tool
      let rows ← toolRows ctx run (before + 1) (position + 1) rest
      pure (row :: rows)
    else toolRows ctx run before (position + 1) rest

/-! ### Runs -/

/-- `run_id` -/
def runId (ctx : Context) (ordinal : Nat) (run : Json) : String :=
  let sourceId := named py ((run.get "run_id").either (run.get "id"))
  if sourceId ≠ "" then "run:" ++ ctx.sessionId ++ ":" ++ sourceId
  else stableId py "run" [.str ctx.sessionId, .num ordinal]

def runRow (ctx : Context) (ordinal : Nat) (run : Json) (lifecycle : RunStatus × String × Bool)
    (envelope : Json) : RunRow :=
  let status := lifecycle.1
  let inferred := lifecycle.2.2
  let created := ms py ((run.get "created_at").either (run.get "started_at")) ctx.updatedMs
  let finished := (run.get "finished_at").either (run.get "completed_at")
  { id := runId py ctx ordinal run
    ordinal
    idempotencyKey := run.get "idempotency_key"
    parentRunId := if (run.get "parent_run_id").truthy then
      some ("run:" ++ ctx.sessionId ++ ":" ++ pyStr py (run.get "parent_run_id")) else none
    runnerKind := pyStr py ((jsonText ctx.header.sessionType).either (.str "agent"))
    agentId := (run.get "agent_id").either (jsonText ctx.header.agentId)
    teamId := (run.get "team_id").either (jsonText ctx.header.teamId)
    workflowId := (run.get "workflow_id").either (jsonText ctx.header.workflowId)
    workflowStepId := run.get "workflow_step_id"
    status
    statusRaw := lifecycle.2.1
    model := (run.get "model").either (ctx.metadata.get "model")
    modelProvider := run.get "model_provider"
    inputJson := run.get "input"
    outputJson := run.get "content"
    metricsJson := run.get "metrics"
    metadataJson := asObject ((run.get "metadata").either (.obj []))
    completeness := if inferred then .partialSource else .complete
    rawEnvelope := asObject envelope
    createdAtMs := created
    finishedAtMs := if status.terminal && (finished ≠ .null || !inferred) then
      some (ms py finished created) else none }

structure Progress (D : Type) where
  runs : List RunRow := []
  messages : List MessageRow := []
  tools : List ToolRow := []
  seen : Counts D := fun _ => 0
  partialNote : Option String := none

/-- `run {ordinal} status missing; …` -/
def partialNoteOf (ordinal : Nat) (status : RunStatus) : String :=
  "run " ++ toString ordinal ++ " status missing; inferred " ++ status.text ++
    " for normalized transcript indexing"

def projectRun (ctx : Context) (progress : Progress D) (entry : Json × Nat) : Except String (Progress D) := do
  let (run, ordinal) := entry
  if !run.isDict then throw ("run " ++ toString ordinal ++ " is not an object")
  let lifecycle ← runLifecycle py ordinal run
  let envelope := boundedRunEnvelope py run
  let frame := (runRow py ctx ordinal run lifecycle envelope).frame
  let loop := messageLoop py ctx frame progress.seen progress.messages.length (run.get "messages").items
  let row := runRow py ctx ordinal run lifecycle (withSkipped envelope loop.skipped)
  let messages := progress.messages ++ loop.rows
  let content := contentRows py ctx frame run messages
  let tools ← toolRows py ctx frame progress.tools.length 0 (run.get "tools").items
  pure
    { runs := progress.runs ++ [row]
      messages := messages ++ content
      tools := progress.tools ++ tools
      seen := fun f => max (progress.seen f) (loop.counts f)
      partialNote := progress.partialNote.or
        (if lifecycle.2.2 then some (partialNoteOf ordinal lifecycle.1) else none) }

/-! ### Sessions -/

/-- `SessionProjection` -/
structure SessionProjection (D : Type) where
  session : SessionRow D
  runs : List RunRow
  messages : List MessageRow
  tools : List ToolRow
  sourceHash : D
  malformedError : Option String

def dictColumn (column : Option String) : Json :=
  if (loadsMaybeDouble py column (.obj [])).isDict then loadsMaybeDouble py column (.obj []) else .obj []

/-- `runs_raw`, and whether the column holds a list at all. -/
def runsRaw (legacy : LegacyRow) : List Json × Bool :=
  match legacy.runs with
  | none => ([], true)
  | some _ =>
    match loadsMaybeDouble py legacy.runs (.arr []) with
    | .arr runs => (runs, true)
    | _ => ([], false)

/-- What `source_hash` digests. -/
def sourceParts (legacy : LegacyRow) : List Json :=
  [.str (trim legacy.sessionId), jsonText legacy.sessionType, jsonText legacy.agentId,
    jsonText legacy.teamId, jsonText legacy.workflowId, jsonText legacy.userId,
    dictColumn py legacy.metadata, dictColumn py legacy.sessionData, jsonText legacy.agentData,
    jsonText legacy.teamData, jsonText legacy.workflowData, .arr (runsRaw py legacy).1,
    jsonText legacy.summary, jsonInt legacy.createdAt, jsonInt legacy.updatedAt]

/-- `created_ms` -/
def createdMs (legacy : LegacyRow) (nowMs : Int) : Int := ms py (jsonInt legacy.createdAt) nowMs

/-- `updated_ms` -/
def updatedMs (legacy : LegacyRow) (nowMs : Int) : Int :=
  max (createdMs py legacy nowMs) (ms py (jsonInt legacy.updatedAt) (createdMs py legacy nowMs))

def context (legacy : LegacyRow) (nowMs : Int) : Context where
  sessionId := trim legacy.sessionId
  header := legacy.header
  metadata := dictColumn py legacy.metadata
  ownerRaw := named py ((dictColumn py legacy.metadata).get "client_id")
  agentId :=
    let given := trim (legacy.agentId.filter (· ≠ "") |>.getD "openagent")
    if given = "" then "openagent" else given
  updatedMs := updatedMs py legacy nowMs

def projectRuns (ctx : Context) (runs : List Json) : Except String (Progress D) :=
  runs.zipIdx.foldlM (projectRun py ctx) {}

def sessionRow (legacy : LegacyRow) (tenantId : String) (nowMs : Int) (malformed note : Option String) :
    SessionRow D :=
  let ctx := context py legacy nowMs
  let sessionData := dictColumn py legacy.sessionData
  let owner := principal py (if "agent:".toList.isPrefixOf ctx.ownerRaw.toList then "agent" else "user")
    (.str ctx.ownerRaw)
  let parent := namedOrNone py (ctx.metadata.get "parent_session_id")
  { id := ctx.sessionId
    tenantId
    ownerPrincipalId := owner
    ownerHandleSnapshot := if ctx.ownerRaw = "" then none else some ctx.ownerRaw
    visibility := if owner.isSome then .private else .quarantined
    title := Lib.clip 1024 (pyStr py (((ctx.metadata.get "title").either
      (sessionData.get "session_name")).either (.str ctx.sessionId)))
    sessionType := pyStr py ((jsonText legacy.sessionType).either (.str "agent"))
    kind := pyStr py (((ctx.metadata.get "kind").either (jsonText legacy.sessionType)).either (.str "chat"))
    origin :=
      let given := named py ((ctx.metadata.get "origin").either (.str "chat"))
      if given = "" then "chat" else given
    parentSessionId := parent
    rootSessionId := some ((namedOrNone py (ctx.metadata.get "root_session_id")).getD
      (parent.getD ctx.sessionId))
    agentId := legacy.agentId
    teamId := legacy.teamId
    workflowId := legacy.workflowId
    model := ctx.metadata.get "model"
    framework := ctx.metadata.get "framework"
    completeness := if malformed.isSome then .malformedSource else if note.isSome then .partialSource
      else .complete
    legacySourceHash := some (py.digest (sourceParts py legacy))
    metadata :=
      { projectionSchema := 3
        legacy := ctx.metadata
        legacyHeader := some legacy.header
        projectionError := malformed.or note }
    createdAtMs := createdMs py legacy nowMs
    updatedAtMs := updatedMs py legacy nowMs
    lastActivityAtMs := updatedMs py legacy nowMs }

/-- `build_session_projection` -/
def buildSessionProjection (legacy : LegacyRow) (tenantId : String) (nowMs : Int) :
    Except String (SessionProjection D) :=
  if trim legacy.sessionId = "" then .error "legacy session has no session_id"
  else
    let unreadable := if (runsRaw py legacy).2 then none else some "runs is not a JSON array"
    let hash := py.digest (sourceParts py legacy)
    .ok <| match projectRuns py (context py legacy nowMs) (runsRaw py legacy).1 with
      | .ok progress =>
        ⟨sessionRow py legacy tenantId nowMs unreadable progress.partialNote, progress.runs,
          progress.messages, progress.tools, hash, unreadable⟩
      | .error text =>
        ⟨sessionRow py legacy tenantId nowMs (some text) none, [], [], [], hash, some text⟩

end OpenAgent.Projection
