import Mathlib.Data.Finset.Basic
import Mathlib.Data.Finset.Filter
import OpenAgent.Privacy.Provenance
import OpenAgent.Storage.Invocations

/-!
# The publisher of a run store

`SqliteToolResultPrivacyPublisher`: the hooks that the run store calls inside its own transactions.
They keep the origins of every run in the same database, refuse what a redaction has fenced off, and
record what was generated from protected content in the provenance ledger. What a record or a part of
it is called and hashes to is a matter of its bytes and stays a parameter.
-/

namespace OpenAgent.Privacy

open Lib Lib.Tx

/-- A record of the canonical store that the ledger of provenance can name. -/
inductive RecordRef
  | message (position : Nat)
  | tool (runId callId : String)
  | event (sequence : Nat)
  | output (runId : String)
  | input (runId : String)
deriving DecidableEq

/-- A row of `runtime_privacy_fragments`. -/
structure FragmentRow where
  tenant : String
  record : RecordRef
  field : String
  path : List PathComponent
deriving DecidableEq

structure Part where
  origins : Finset ContentOrigin
  record : RecordRef
  field : String
  path : List PathComponent

/-- The ledger of provenance, and the publisher's own tables beside it: the origins of a run, the
admitted origins of an invocation, and the parts of records that artifacts stand for. -/
structure RuntimePrivacy where
  tables : Tables
  origins : Dict String (Finset ContentOrigin)
  intents : Dict (String × String) (List ContentOrigin)
  fragments : Dict String FragmentRow

def RuntimePrivacy.empty : RuntimePrivacy := ⟨.empty, .empty, .empty, .empty⟩

abbrev PublisherTx (α : Type) := Tx RuntimePrivacy StoreError α

/-- The revision that a record, or the part of a record at a path of one of its columns, is now. -/
structure Rendering (D : Type) where
  record : Ledger D RuntimePrivacy → RecordRef → Except StoreError ContentRevision
  fragment : Ledger D RuntimePrivacy → RecordRef → (field : String) → List PathComponent →
    Except StoreError ContentRevision

/-- `_origins` -/
def RuntimePrivacy.originsOf (db : RuntimePrivacy) (runId : String) : Finset ContentOrigin :=
  (db.origins.get? runId).getD ∅

def Tables.erased (T : Tables) (origin : ContentOrigin) : Bool :=
  T.requests.values.any fun row =>
    row.request.operation = .redact && row.status = .complete && row.request.selects origin

/-- `_retained_origins` -/
def RuntimePrivacy.retained (db : RuntimePrivacy) (origins : Finset ContentOrigin) :
    Finset ContentOrigin :=
  origins.filter fun origin => db.tables.erased origin = false

/-- `_merge` -/
def mergeOrigins (runId : String) (origins : Finset ContentOrigin) : PublisherTx Unit :=
  modify fun db => { db with origins := db.origins.set runId (db.originsOf runId ∪ origins) }

/-- `_guard` -/
def guardRun (runId : String) : PublisherTx Unit := do
  let db ← get
  raiseIf (db.tables.fenced (db.originsOf runId) = true)
    (.privacyFence "Revoked run context cannot invoke or publish derived content")

theorem recordTransaction_perm {revision : ContentRevision} {origins origins' : List ContentOrigin}
    (h : origins.Perm origins') : recordTransaction revision origins [] =
      recordTransaction revision origins' [] := by
  rw [recordTransaction, recordTransaction, h.length_eq, List.toFinset_eq_of_perm _ _ h]

def recordOrigins (revision : ContentRevision) (origins : Finset ContentOrigin) : LedgerTx Unit :=
  Quotient.liftOn origins.val (fun origins => recordTransaction revision origins [])
    fun _ _ => recordTransaction_perm

def onTables {α : Type} (body : LedgerTx α) : PublisherTx α := fun db =>
  match body db.tables with
  | .ok (a, T) => .ok (a, { db with tables := T })
  | .error e => .error e

def orThrow {α : Type} : Except StoreError α → PublisherTx α
  | .ok a => pure a
  | .error e => throw e

section

variable {D : Type} (rendering : Rendering D) (L : Ledger D RuntimePrivacy)

/-- `_record` -/
def record (ref : RecordRef) (origins : Finset ContentOrigin) : PublisherTx Unit :=
  if origins = ∅ then pure ()
  else do
    let revision ← orThrow (rendering.record L ref)
    onTables (recordOrigins revision origins)

/-- `_fragment` -/
def fragment (part : Part) : PublisherTx Unit :=
  if part.origins = ∅ then pure ()
  else do
    let revision ← orThrow (rendering.fragment L part.record part.field part.path)
    onTables (recordOrigins revision part.origins)
    modify fun db =>
      if db.fragments.contains revision.artifactId then db
      else
        let row : FragmentRow := ⟨revision.tenantId, part.record, part.field, part.path⟩
        { db with fragments := db.fragments.set revision.artifactId row }

def fragments : List Part → PublisherTx Unit
  | [] => pure ()
  | part :: rest => do
    fragment rendering L part
    fragments rest

/-! ### Admission -/

/-- The origins a new run has from its parent, which must not be fenced off: a delegated mission may
itself contain the old context. -/
def parentScope : Option String → PublisherTx (Finset ContentOrigin)
  | none => pure ∅
  | some parentId => do
    guardRun parentId
    let db ← get
    return db.originsOf parentId

def RuntimePrivacy.sessionScope (db : RuntimePrivacy) (runId sessionId : String) : Finset ContentOrigin :=
  ((L.runs.entries.filter fun e => e.2.sessionId = sessionId ∧ e.1 ≠ runId).map fun e =>
    db.retained (db.originsOf e.1)).foldr (· ∪ ·) ∅

def recordInput (runId : String) (origins : Finset ContentOrigin) : PublisherTx Unit := do
  let row ← orRaise (L.runs.get? runId) (.type "'NoneType' object is not subscriptable")
  raiseIf (row.metadata.attachments ≠ [])
    (.privacyFence "Protected child attachments require an attested managed-copy bridge")
  if row.metadata.executionContext.any fun context => context.author.kind = "agent" then
    record rendering L (.input runId) origins
  else pure ()

/-- `inherit`: a new run starts with the origins of its parent and with those of its session that no
finished erasure has settled. -/
def inherit (runId sessionId : String) (parentRunId : Option String) : PublisherTx Unit := do
  let parent := parentRunId.filter (· ≠ "")
  let fromParent ← parentScope parent
  let db ← get
  let origins := fromParent ∪ db.sessionScope L runId sessionId
  if origins = ∅ then pure ()
  else do
    mergeOrigins runId origins
    guardRun runId
    if parent.isSome then recordInput rendering L runId origins else pure ()

/-! ### Tools -/

def EventPayload.callOf {D : Type} : EventPayload D → Option String
  | .toolInvoking callId _ _ => some callId
  | .toolCompleted callId _ _ _ _ => some callId
  | .other payload => match payload.field "call_id" with
    | some (.str callId) => some callId
    | _ => none
  | _ => none

def callEvents (runId callId : String) (kinds : List String) : List RecordRef :=
  (L.events.filter fun e => e.runId = runId ∧ e.eventType ∈ kinds ∧
    EventPayload.callOf e.payload = some callId).map fun e => .event e.sequence

def callAnchors (runId callId : String) : List RecordRef :=
  ((L.messages.zipIdx).filter fun m => m.1.isAnchor runId callId).map fun m => .message m.2

def argumentParts (runId callId : String) (origins : Finset ContentOrigin) : List Part :=
  [⟨origins, .tool runId callId, "args_json", []⟩,
    ⟨origins, .tool runId callId, "raw_envelope_json", [.key "arguments"]⟩]

def eventParts (runId callId : String) (kinds : List String) (origins : Finset ContentOrigin)
    (path : List PathComponent) : List Part :=
  (callEvents L runId callId kinds).map fun ref => ⟨origins, ref, "metadata_json", path⟩

/-- `argument_origins`: the origins recorded last for the arguments of a call. -/
def RuntimePrivacy.argumentOrigins (db : RuntimePrivacy) (runId callId : String) :
    Finset ContentOrigin :=
  ((db.tables.revisions.entries.reverse.find? fun e =>
    (db.fragments.get? e.1.artifact).any fun row => row.tenant = e.1.tenant ∧
      row.record = .tool runId callId ∧ row.field = "args_json" ∧ row.path = []).map fun e =>
    e.2.origins).getD ∅

def RuntimePrivacy.argumentScope (db : RuntimePrivacy) (runId callId : String) : Finset ContentOrigin :=
  if db.argumentOrigins runId callId = ∅ then db.originsOf runId else db.argumentOrigins runId callId

def admitIntent (runId callId : String) (origins : List ContentOrigin) : PublisherTx Unit :=
  if origins = [] then pure ()
  else do
    mergeOrigins runId origins.toFinset
    let db ← get
    raiseIf (db.intents.contains (runId, callId) = true)
      (.integrity "UNIQUE constraint failed: runtime_privacy_intent_scopes.invocation")
    set { db with intents := db.intents.set (runId, callId) origins }

/-- `record_invocation_intent` -/
def recordInvocationIntent (runId callId : String) (origins : List ContentOrigin) : PublisherTx Unit := do
  guardRun runId
  admitIntent runId callId origins
  let db ← get
  let origins := db.originsOf runId
  fragments rendering L (argumentParts runId callId origins ++
    eventParts L runId callId ["tool.invoking"] origins [.key "arguments"])

def connection (origin : ContentOrigin) : String × String × String × Nat :=
  (origin.tenantId, origin.sourceId, origin.groupId, origin.generation)

def resultParts (runId callId : String) (path : List PathComponent) (origins : Finset ContentOrigin) :
    List Part :=
  [⟨origins, .tool runId callId, "result_json", path⟩,
    ⟨origins, .tool runId callId, "raw_envelope_json", .key "result" :: path⟩] ++
  (callAnchors L runId callId).map (fun ref => ⟨origins, ref, "text", path⟩) ++
  eventParts L runId callId ["tool.completed"] origins (.key "result" :: path)

/-- `record_completed_tool`; a result without an attested partition is one part. -/
def recordCompletedTool (runId callId : String) (provenance : ResultProvenance) : PublisherTx Unit := do
  guardRun runId
  let db ← get
  let origins := match provenance with
    | .partition provenance => (provenance.fragments.flatMap ContentFragment.origins).toFinset
    | .origins [] => db.originsOf runId
    | .origins origins => origins.toFinset
  let asserted := match provenance with
    | .origins [] => false
    | _ => true
  raiseIf (asserted = true ∧ ∃ intent ∈ db.intents.get? (runId, callId), ∃ origin ∈ origins,
      connection origin ∉ intent.map connection)
    (.privacyConflict "Provider result does not retain its admitted connection scope")
  mergeOrigins runId origins
  if asserted = false ∧ origins = ∅ then pure ()
  else do
    fragments rendering L (match provenance with
      | .partition provenance => provenance.fragments.flatMap fun f =>
        resultParts L runId callId f.path f.origins.toFinset
      | .origins _ => resultParts L runId callId [] origins)
    let db ← get
    let scope := db.argumentScope runId callId
    fragments rendering L (argumentParts runId callId scope ++
      eventParts L runId callId ["tool.invoking", "tool.completed"] scope [.key "arguments"])

/-- `record_failed_tool` -/
def recordFailedTool (runId callId : String) : PublisherTx Unit := do
  guardRun runId
  let db ← get
  let origins := db.originsOf runId
  if origins = ∅ then pure ()
  else do
    let scope := db.argumentScope runId callId
    fragments rendering L (argumentParts runId callId scope ++
      [⟨origins, .tool runId callId, "error_json", []⟩,
        ⟨origins, .tool runId callId, "raw_envelope_json", [.key "error"]⟩] ++
      (callAnchors L runId callId).map (fun ref => ⟨origins, ref, "text", []⟩) ++
      (callEvents L runId callId ["tool.completed"]).flatMap fun ref =>
        [⟨scope, ref, "metadata_json", [.key "arguments"]⟩, ⟨origins, ref, "metadata_json", [.key "error"]⟩])

/-- `generated` -/
def recordGenerated (generated : Generated) (runId : String) : PublisherTx Unit := do
  let db ← get
  let ref : RecordRef := match generated with
    | .event sequence => .event sequence
    | .message position => .message position
    | .output => .output runId
  record rendering L ref (db.originsOf runId)

end

def hooked {D : Type} (L : Ledger D RuntimePrivacy) (body : PublisherTx Unit) :
    Except StoreError RuntimePrivacy :=
  (body L.privacy).map Prod.snd

/-- `SqliteToolResultPrivacyPublisher` -/
def publisher {D : Type} (rendering : Rendering D) (id : Nat) : Publication D RuntimePrivacy where
  id := id
  inherit L runId sessionId parentRunId := hooked L (inherit rendering L runId sessionId parentRunId)
  generated L generated runId := hooked L (recordGenerated rendering L generated runId)
  recordInvocationIntent L runId callId origins :=
    hooked L (recordInvocationIntent rendering L runId callId origins)
  recordCompletedTool L runId callId provenance :=
    hooked L (recordCompletedTool rendering L runId callId provenance)
  recordFailedTool L runId callId := hooked L (recordFailedTool rendering L runId callId)

end OpenAgent.Privacy
