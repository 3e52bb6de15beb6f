import OpenAgent.Storage.Store

/-!
# Durable tool invocations

The two writes around an external effect, and the recovery that settles what an earlier process left
open. `begin_tool` commits the intent before the effect may happen, and `finish_tool` writes the
outcome once. Recovery runs one transaction for each open invocation and then one for each open run,
and stops at the first that raises.
-/

namespace OpenAgent

open Lib Lib.Tx

variable {D P : Type}

/-- The identity of the publisher that made an intent or a provenance, and what it attests. -/
structure Attestation (α : Type) where
  publisher : Nat
  value : α

/-- `error is not None or (isinstance(result,dict) and bool(result.get('isError')))` -/
def ToolOutcome.failed : ToolOutcome → Bool
  | .error _ => true
  | .result value => ((value.field "isError").map Json.truthy).getD false

def ToolOutcome.status (outcome : ToolOutcome) : InvocationStatus :=
  if outcome.failed then .error else .success

/-- The `UPDATE` of `_finish_tool`. -/
def InvocationRow.finished (row : InvocationRow) (outcome : ToolOutcome) (now : Int) : InvocationRow :=
  { row with
    status := outcome.status
    statusRaw :=
      match outcome with
      | .error detail => if detail.truthy then "effects_unknown" else "error"
      | .result _ => if outcome.failed then "error" else "success"
    result := match outcome with
      | .result value => some value
      | .error _ => none
    error := match outcome with
      | .error detail => if detail.truthy then some detail else none
      | .result _ => none
    resultComplete := match outcome with
      | .result _ => true
      | .error _ => false
    finishedAtMs := some now }

def MessageRow.isAnchor (runId callId : String) (m : MessageRow) : Bool :=
  m.runId = runId ∧ m.toolCallId = some callId ∧ m.role = .tool

def MessageRow.anchored (outcome : ToolOutcome) (now : Int) (m : MessageRow) : MessageRow :=
  { m with
    text := match outcome with
      | .result value => value
      | .error detail => detail
    status := .complete
    updatedAtMs := now
    completedAtMs := some now }

namespace Store

def publishAttested {α : Type} (host : Host D P) (attested : Attestation α) (stale : String)
    (hook : Publication D P → Ledger D P → α → Except StoreError P) : StoreTx D P Unit := do
  raiseIf (host.publication.map Publication.id ≠ some attested.publisher) (.privacyConflict stale)
  publish host fun publication L => hook publication L attested.value

/-- The row `_begin_tool` inserts. -/
def invocationRow (L : Ledger D P) (run : RunRow D) (session : SessionRow) (binding : ToolBinding)
    (arguments : Json) (now : Int) : InvocationRow where
  tenantId := run.tenantId
  ownerPrincipalId := session.ownerPrincipalId
  visibility := session.visibility
  sessionId := run.sessionId
  ordinal := nextOrdinal ((L.invocations.entries.filter fun e =>
    e.2.sessionId = run.sessionId).map fun e => e.2.ordinal)
  status := .running
  statusRaw := "invoking"
  binding := binding
  arguments := arguments
  result := none
  error := none
  resultComplete := true
  createdAtMs := now
  finishedAtMs := none

def publishIntent (host : Host D P) (runId callId : String) :
    Option (Attestation (List ContentOrigin)) → StoreTx D P Unit
  | some attested =>
    publishAttested host attested "A stale intent publisher cannot write this store"
      fun publication L origins => publication.recordInvocationIntent L runId callId origins
  | none => publish host fun publication L => publication.recordInvocationIntent L runId callId []

/-- `_begin_tool`: commit the invocation intent before allowing an external effect. -/
def beginTool (host : Host D P) (runId callId : String) (binding : ToolBinding) (arguments : Json)
    (intent : Option (Attestation (List ContentOrigin))) (now : Int) : StoreTx D P Unit := do
  requireRunNotQuarantined runId
  let L ← get
  let run ← orRaise ((L.runs.get? runId).filter fun run => run.status = .running)
    (.runtime "A tool invocation requires an active run")
  raiseIf (L.invocations.contains (runId, callId) = true) (.idempotencyConflict
    "This invocation already has a durable intent; reconcile its outcome before retrying")
  let session ← orRaise (L.sessions.get? run.sessionId) (.type "'NoneType' object is not subscriptable")
  set { L with
    invocations := L.invocations.set (runId, callId)
      (invocationRow L run session binding arguments now) }
  let context ← orRaise run.metadata.executionContext (.key "execution_context")
  let principal : PrincipalKey :=
    ⟨context.authority.authority, run.tenantId, context.agentId, "agent"⟩
  raiseIf (principal.complete = false) (.value "A principal requires authority, tenant, subject and kind")
  message host runId .tool (.str "") principal "agent" now (some callId) .streaming
  let _ ← event host runId "tool.invoking" (.toolInvoking callId binding arguments)
  publishIntent host runId callId intent

def completeAnchor (runId callId : String) (outcome : ToolOutcome) (now : Int) : StoreTx D P Unit := do
  let L ← get
  match L.messages.findIdx? (MessageRow.isAnchor runId callId) with
  | none => pure ()
  | some i =>
    checkNotBefore ((L.messages.map MessageRow.createdAtMs).getD i now) now
    set { L with messages := L.messages.modify i (MessageRow.anchored outcome now) }

def publishFinished (host : Host D P) (runId callId : String) (outcome : ToolOutcome) :
    Option (Attestation ResultProvenance) → StoreTx D P Unit
  | some attested =>
    publishAttested host attested "A stale provenance publisher cannot write this store"
      fun publication L provenance => publication.recordCompletedTool L runId callId provenance
  | none => publish host fun publication L =>
    match outcome with
    | .error _ => publication.recordFailedTool L runId callId
    | .result _ => publication.recordCompletedTool L runId callId (.origins [])

/-- `_finish_tool` -/
def finishTool (host : Host D P) (runId callId : String) (outcome : ToolOutcome)
    (provenance : Option (Attestation ResultProvenance)) (now : Int) : StoreTx D P Unit := do
  requireRunNotQuarantined runId
  let L ← get
  let row ← orRaise (L.invocations.get? (runId, callId)) (.lookup "No durable invocation intent")
  raiseIf (row.finishedAtMs.isSome = true)
    (.idempotencyConflict "The invocation already has a terminal result")
  checkNotBefore row.createdAtMs now
  set { L with
    invocations := L.invocations.set (runId, callId) (row.finished outcome now) }
  completeAnchor runId callId outcome now
  let _ ← event host runId "tool.completed"
    (.toolCompleted callId (outcome.status) row.binding row.arguments outcome)
  publishFinished host runId callId outcome provenance

/-! ### Recovery -/

def runtimeRestarted : Json :=
  .obj [("reason", .str "runtime_restarted"), ("effects", .str "unknown"), ("retry_allowed", .bool false)]

def forEach {κ : Type} (operation : Moment → κ → Ledger D P → Except StoreError Unit × Ledger D P) :
    List Moment → List κ → Ledger D P → Except StoreError Unit × Ledger D P
  | _, [], L => (.ok (), L)
  | [], _ :: _, L => (.error (.operational "database operation failed"), L)
  | moment :: moments, item :: rest, L =>
    match operation moment item L with
    | (.ok _, L') => forEach operation moments rest L'
    | (.error e, L') => (.error e, L')

def openInvocations (L : Ledger D P) : List (String × String) :=
  (L.invocations.entries.filter fun e => e.2.finishedAtMs.isNone ∧
    ((L.runs.get? e.1.1).any fun run => run.metadata.runtimeContract) = true).map Prod.fst

def openRuns (L : Ledger D P) : List String :=
  (L.runs.entries.filter fun e =>
    e.2.metadata.runtimeContract ∧ e.2.finishedAtMs.isNone).map Prod.fst

/-- `_recover`. The moments are those of its transactions, in order; where they end, so does the
life of the database connection. -/
def recover (host : Host D P) (moments : List Moment) (L : Ledger D P) :
    Except StoreError Unit × Ledger D P :=
  let pending := openInvocations L
  match forEach (fun m key => transaction m
      (finishTool host key.1 key.2 (.error runtimeRestarted) none m.now)) moments pending L with
  | (.error e, L') => (.error e, L')
  | (.ok _, L') =>
    forEach (fun m runId => transaction m do
        let _ ← transition host runId .interrupted (some runtimeRestarted) m.now)
      (moments.drop pending.length) (openRuns L') L'

end Store

end OpenAgent
