import OpenAgent.Search.Canonical

/-!
# The writers of the canonical rows

The store's operations as far as the index can see them: the columns that a document shows, the
versions, and the outbox rows each transaction adds. A body raises where the source raises for a
reason that lies in these tables; a refusal for another reason (a quarantine, a publication that
raises) leaves the tables as they are. An operation that finds its request already accepted, or its
run already ended, writes nothing.
-/

namespace OpenAgent.Search

open Lib Lib.Tx

structure SessionRef where
  authority : String
  tenantId : String
  agentId : String
  sessionId : String
  valid : (present authority && present tenantId && present agentId && present sessionId) = true

abbrev WriterTx (α : Type) := Tx Canonical StoreError α

/-! ### Announcing a source -/

def Canonical.upsert (C : Canonical) (key : SourceKey) : Option (Notice SourceKey Mark) :=
  match key with
  | .session id => do
    let s ← C.sessions.get? id
    return ⟨key, false, ⟨s.tenantId, s.sourceVersion, s.aclVersion⟩⟩
  | .message id => do
    let m ← C.messages.get? id
    let s ← C.sessions.get? m.sessionId
    return ⟨key, false, ⟨m.tenantId, m.sourceVersion, s.aclVersion⟩⟩
  | .toolInvocation runId callId => do
    let t ← C.tools.get? (runId, callId)
    return ⟨key, false, ⟨t.tenantId, t.sourceVersion, t.aclVersion⟩⟩

/-- `enqueue_source`: called inside the canonical writer's transaction. -/
def enqueueSource (key : SourceKey) : WriterTx Unit := do
  let C ← get
  let notice ← orRaise (C.upsert key) (.lookup "source_id")
  set { C with outbox := C.outbox.enqueue notice }

def enqueueSources : List SourceKey → WriterTx Unit
  | [] => pure ()
  | key :: rest => do
    enqueueSource key
    enqueueSources rest

/-- `restore_runtime_search_intents` -/
def restoreRuntimeSearchIntents : WriterTx Unit := do
  let C ← get
  enqueueSources C.sources

/-! ### Messages -/

def SessionRow.touched (row : SessionRow) : SessionRow := { row with sourceVersion := row.sourceVersion + 1 }

def ToolRow.touched (row : ToolRow) : ToolRow := { row with sourceVersion := row.sourceVersion + 1 }

/-- `text if isinstance(text,str) else canonical_json(text)` -/
def textColumn (ex : Extractors) : Json → String
  | .str text => text
  | value => ex.canonicalJson value

/-- The row `_message` inserts. -/
def messageRow (ex : Extractors) (C : Canonical) (runId : String) (run : RunRow) (role : MessageRole)
    (text : Json) (toolCallId : Option String) : MessageRow where
  tenantId := run.tenantId
  sessionId := run.sessionId
  runId := runId
  sequence := nextOrdinal ((C.messages.values.filter fun m => m.sessionId = run.sessionId).map MessageRow.sequence)
  role := role
  text := textColumn ex text
  toolCallId := toolCallId

def Canonical.calls (C : Canonical) (runId : String) : List String :=
  (C.tools.keys.filter fun key => key.1 = runId).map Prod.snd

def refreshTools (runId : String) : List String → WriterTx Unit
  | [] => pure ()
  | callId :: rest => do
    modify fun C => { C with tools := C.tools.update (runId, callId) ToolRow.touched }
    enqueueSource (.toolInvocation runId callId)
    refreshTools runId rest

/-- `_message` -/
def message (ex : Extractors) (runId : String) (role : MessageRole) (text : Json)
    (toolCallId : Option String) : WriterTx Unit := do
  let C ← get
  let run ← orRaise (C.runs.get? runId) (.type "'NoneType' object is not subscriptable")
  set { C with
    messages := C.messages.set C.nextMessage (messageRow ex C runId run role text toolCallId)
    nextMessage := C.nextMessage + 1
    sessions := C.sessions.update run.sessionId SessionRow.touched }
  enqueueSource (.message C.nextMessage)
  enqueueSource (.session run.sessionId)
  refreshTools runId (C.calls runId)

/-! ### Runs -/

def parentSession (C : Canonical) (context : ExecutionContext) : Option (Option String) :=
  (context.parentRunId.filter (· ≠ "")).map fun parentRunId =>
    ((C.runs.get? parentRunId).filter fun run => run.tenantId = context.tenantId).map RunRow.sessionId

def openSession (request : RunRequest) (context : ExecutionContext) : WriterTx Unit := do
  let C ← get
  let parent := parentSession C context
  raiseIf (∃ p ∈ parent, p = none ∨ p = some request.sessionId)
    (.value "A child requires an existing parent in the same tenant")
  match C.sessions.get? request.sessionId with
  | none =>
    set { C with sessions := C.sessions.set request.sessionId {
      tenantId := context.tenantId
      agentId := context.agentId
      title := none
      parentSessionId := parent.join } }
  | some existing =>
    raiseIf (existing.tenantId ≠ context.tenantId) (.permission "Session belongs to another tenant")
    raiseIf (∃ p ∈ parent, existing.parentSessionId ≠ p)
      (.value "An existing session cannot acquire a different parent")

/-- `SELECT * FROM session_runs WHERE id=? OR (session_id=? AND idempotency_key=?)` -/
def Canonical.collides (C : Canonical) (request : RunRequest) : Bool :=
  C.runs.entries.any fun e => e.1 = request.runId ∨
    (e.2.sessionId = request.sessionId ∧ e.2.idempotencyKey = request.idempotencyKey)

/-- `_accept` -/
def accept (ex : Extractors) (request : RunRequest) (context : ExecutionContext) : WriterTx Unit := do
  let C ← get
  -- the stored record is returned, or the request conflicts with it
  if C.collides request then
    return
  openSession request context
  modify fun C => { C with
    runs := C.runs.set request.runId
      ⟨context.tenantId, request.sessionId, request.idempotencyKey, .queued⟩ }
  message ex request.runId .user (.str request.input) none

def reply (ex : Extractors) (runId : String) : RunStatus → Option Json → WriterTx Unit
  | .success, some text => message ex runId .assistant text none
  | _, _ => pure ()

/-- `_transition` -/
def transition (ex : Extractors) (runId : String) (status : RunStatus) (output : Option Json) :
    WriterTx Unit := do
  let C ← get
  let row ← orRaise (C.runs.get? runId) (.lookup runId)
  if row.status.terminal then
    return
  raiseIf (status ≠ .running ∧ status.terminal = false) (.value "Unsupported run transition")
  raiseIf (status = .running ∧ row.status ≠ .queued) (.value "Run has already started")
  set { C with runs := C.runs.set runId { row with status := status } }
  reply ex runId status output

/-! ### Tool invocations -/

/-- The row `_begin_tool` inserts. -/
def toolRow (ex : Extractors) (run : RunRow) (binding : ToolBinding) (arguments : Json) : ToolRow where
  tenantId := run.tenantId
  sessionId := run.sessionId
  toolServer := binding.sourceId
  toolName := binding.name
  status := "running"
  argsJson := ex.canonicalJson arguments

/-- `_begin_tool` -/
def beginTool (ex : Extractors) (runId callId : String) (binding : ToolBinding) (arguments : Json) :
    WriterTx Unit := do
  let C ← get
  let run ← orRaise ((C.runs.get? runId).filter fun run => run.status = .running)
    (.runtime "A tool invocation requires an active run")
  raiseIf (C.tools.contains (runId, callId) = true) (.idempotencyConflict
    "This invocation already has a durable intent; reconcile its outcome before retrying")
  set { C with tools := C.tools.set (runId, callId) (toolRow ex run binding arguments) }
  enqueueSource (.toolInvocation runId callId)
  message ex runId .tool (.str "") (some callId)

/-- The `UPDATE` of `_finish_tool`. -/
def ToolRow.finished (ex : Extractors) (row : ToolRow) (outcome : ToolOutcome) (now : Int) : ToolRow :=
  { row with
    status := if outcome.failed then "error" else "success"
    resultJson := match outcome with
      | .result value => some (ex.canonicalJson value)
      | .error _ => none
    errorJson := match outcome with
      | .error detail => if detail.truthy then some (ex.canonicalJson detail) else none
      | .result _ => none
    finishedAtMs := some now
    sourceVersion := row.sourceVersion + 1 }

def MessageRow.anchored (ex : Extractors) (outcome : ToolOutcome) (row : MessageRow) : MessageRow :=
  { row with
    text := match outcome with
      | .result value => ex.canonicalJson value
      | .error detail => ex.canonicalJson detail
    sourceVersion := row.sourceVersion + 1 }

/-- `SELECT id FROM session_messages WHERE run_id=? AND tool_call_id=? AND role=?` -/
def Canonical.anchorOf (C : Canonical) (runId callId : String) : Option Nat :=
  (C.messages.entries.find? fun e =>
    e.2.runId = runId ∧ e.2.toolCallId = some callId ∧ e.2.role = .tool).map Prod.fst

def completeAnchor (ex : Extractors) (outcome : ToolOutcome) : Option Nat → WriterTx Unit
  | none => pure ()
  | some id => do
    modify fun C => { C with messages := C.messages.update id (MessageRow.anchored ex outcome) }
    enqueueSource (.message id)

/-- `_finish_tool` -/
def finishTool (ex : Extractors) (runId callId : String) (outcome : ToolOutcome) (now : Int) :
    WriterTx Unit := do
  let C ← get
  let row ← orRaise (C.tools.get? (runId, callId)) (.lookup "No durable invocation intent")
  raiseIf (row.finishedAtMs.isSome = true)
    (.idempotencyConflict "The invocation already has a terminal result")
  set { C with tools := C.tools.set (runId, callId) (row.finished ex outcome now) }
  enqueueSource (.toolInvocation runId callId)
  completeAnchor ex outcome (C.anchorOf runId callId)

/-! ### Sessions -/

/-- The part of `_require_local_session` that compares a reference with its caller. -/
def SessionRef.isLocal (reference : SessionRef) (context : ExecutionContext) : Bool :=
  reference.tenantId = context.tenantId ∧ reference.agentId = context.agentId ∧
    reference.authority = context.authority.authority

def Canonical.localSession (C : Canonical) (reference : SessionRef) (context : ExecutionContext) :
    Option SessionRow :=
  (C.sessions.get? reference.sessionId).filter fun row => reference.isLocal context ∧
    row.tenantId = reference.tenantId ∧ row.agentId = reference.agentId

/-- `_require_local_session` -/
def requireLocalSession (reference : SessionRef) (context : ExecutionContext) : WriterTx SessionRow := do
  raiseIf (reference.isLocal context = false)
    (.permission "Session reference belongs to another runtime boundary")
  let C ← get
  orRaise (C.localSession reference context) (.lookup reference.sessionId)

/-- `_create_session` -/
def createSession (reference : SessionRef) (context : ExecutionContext) (title : Option String)
    (parent : Option SessionRef) : WriterTx Unit := do
  raiseIf (reference.isLocal context = false)
    (.permission "Session reference belongs to another runtime boundary")
  let C ← get
  raiseIf (C.sessions.contains reference.sessionId = true)
    (.idempotencyConflict "Session ID already exists")
  match parent with
  | none => pure ()
  | some parent => do
    let _ ← requireLocalSession parent context
  set { C with sessions := C.sessions.set reference.sessionId {
    tenantId := context.tenantId
    agentId := context.agentId
    title := title
    parentSessionId := parent.map SessionRef.sessionId } }
  enqueueSource (.session reference.sessionId)

def SessionRow.renamed (title : String) (row : SessionRow) : SessionRow := { row with title := some title }

def SessionRow.archived (now : Int) (row : SessionRow) : SessionRow :=
  { row with deletedAtMs := row.deletedAtMs.or (some now) }

def SessionRow.restored (row : SessionRow) : SessionRow := { row with deletedAtMs := none }

def changeSession (sessionId : String) (row : SessionRow) : WriterTx Unit := do
  modify fun C => { C with sessions := C.sessions.set sessionId row.touched }
  enqueueSource (.session sessionId)

/-- `title.strip()` -/
def strip (title : String) : String :=
  String.ofList ((title.toList.dropWhile isSpace).reverse.dropWhile isSpace).reverse

/-- `_rename_session` -/
def renameSession (reference : SessionRef) (context : ExecutionContext) (title : String) :
    WriterTx Unit := do
  let row ← requireLocalSession reference context
  raiseIf (strip title = "" ∨ 240 < (strip title).length)
    (.value "Session title must contain 1 to 240 characters")
  changeSession reference.sessionId (row.renamed (strip title))

/-- `_archive_session` -/
def archiveSession (reference : SessionRef) (context : ExecutionContext) (now : Int) : WriterTx Unit := do
  let row ← requireLocalSession reference context
  changeSession reference.sessionId (row.archived now)

/-- `_restore_session` -/
def restoreSession (reference : SessionRef) (context : ExecutionContext) : WriterTx Unit := do
  let row ← requireLocalSession reference context
  changeSession reference.sessionId row.restored

def purgeNotices (C : Canonical) (context : ExecutionContext) (sessionId : String) (row : SessionRow) :
    List (Notice SourceKey Mark) :=
  ((C.messages.entries.filter fun e => e.2.sessionId = sessionId).map fun e =>
    ⟨.message e.1, true, ⟨context.tenantId, e.2.sourceVersion + 1, row.aclVersion⟩⟩) ++
  [⟨.session sessionId, true, ⟨context.tenantId, row.sourceVersion + 1, row.aclVersion⟩⟩]

/-- `DELETE FROM sessions_v2 WHERE id=?`, with what the foreign keys delete along. -/
def Canonical.withoutSession (C : Canonical) (sessionId : String) : Canonical :=
  { C with
    sessions := C.sessions.pop sessionId
    runs := C.runs.filter fun _ run => run.sessionId ≠ sessionId
    messages := C.messages.filter fun _ m => m.sessionId ≠ sessionId
    tools := C.tools.filter fun _ t => t.sessionId ≠ sessionId }

/-- `_purge_session` -/
def purgeSession (reference : SessionRef) (context : ExecutionContext) : WriterTx Unit := do
  let row ← requireLocalSession reference context
  raiseIf (row.deletedAtMs = none) (.value "Archive a session before purging it")
  let C ← get
  raiseIf ((C.runs.values.any fun run =>
      run.sessionId = reference.sessionId ∧ run.status.terminal = false) = true)
    (.runtime "A session with active runs cannot be purged")
  raiseIf ((C.sessions.values.any fun child => child.parentSessionId = some reference.sessionId) = true)
    (.runtime "A session with child sessions cannot be purged")
  set { C.withoutSession reference.sessionId with
    outbox := C.outbox.enqueueAll (purgeNotices C context reference.sessionId row) }

/-! ### The operations -/

inductive Operation
  | accept (request : RunRequest) (context : ExecutionContext)
  | transition (runId : String) (status : RunStatus) (output : Option Json)
  | beginTool (runId callId : String) (binding : ToolBinding) (arguments : Json)
  | finishTool (runId callId : String) (outcome : ToolOutcome) (now : Int)
  | createSession (reference : SessionRef) (context : ExecutionContext) (title : Option String)
      (parent : Option SessionRef)
  | renameSession (reference : SessionRef) (context : ExecutionContext) (title : String)
  | archiveSession (reference : SessionRef) (context : ExecutionContext) (now : Int)
  | restoreSession (reference : SessionRef) (context : ExecutionContext)
  | purgeSession (reference : SessionRef) (context : ExecutionContext)
  | restoreIntents

def perform (ex : Extractors) : Operation → WriterTx Unit
  | .accept request context => accept ex request context
  | .transition runId status output => transition ex runId status output
  | .beginTool runId callId binding arguments => beginTool ex runId callId binding arguments
  | .finishTool runId callId outcome now => finishTool ex runId callId outcome now
  | .createSession reference context title parent => createSession reference context title parent
  | .renameSession reference context title => renameSession reference context title
  | .archiveSession reference context now => archiveSession reference context now
  | .restoreSession reference context => restoreSession reference context
  | .purgeSession reference context => purgeSession reference context
  | .restoreIntents => restoreRuntimeSearchIntents

end OpenAgent.Search
