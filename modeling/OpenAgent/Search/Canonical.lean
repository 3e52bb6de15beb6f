import Mathlib.Data.List.MinMax
import OpenAgent.Storage.Invocations
import OpenAgent.Lib.Outbox

/-!
# The rows behind the search index

The canonical tables as the operational search index reads them. A session, a message and a tool
invocation are each the source of one document, derived from the row and from the session it belongs
to; an archived session hides all three. The identifier of a tool invocation is a digest of its run
and call, which stand for it here, and the random identifier of a message is a number never given
before. What extraction does to a text is left open: redaction and the description of a JSON value
are any functions.
-/

namespace OpenAgent.Search

open Lib

structure Extractors where
  canonicalJson : Json → String
  redactSearchText : String → Nat → String
  safeStructureTokens : Option String → String

/-- `source_kind` and `source_id` -/
inductive SourceKey
  | session (id : String)
  | message (id : Nat)
  | toolInvocation (runId callId : String)
deriving DecidableEq

/-- The columns of an outbox row that are unique together with its source and operation. -/
structure Mark where
  tenantId : String
  sourceVersion : Nat
  aclVersion : Nat
deriving DecidableEq

abbrev SearchOutbox := Outbox SourceKey Mark

/-- A row of `sessions_v2`. -/
structure SessionRow where
  tenantId : String
  agentId : String
  title : Option String
  parentSessionId : Option String
  deletedAtMs : Option Int := none
  sourceVersion : Nat := 1
  aclVersion : Nat := 1
deriving DecidableEq

/-- A row of `session_runs`. -/
structure RunRow where
  tenantId : String
  sessionId : String
  idempotencyKey : String
  status : RunStatus
deriving DecidableEq

inductive MessageVisibility
  | userVisible | internal | hidden | providerPrivate
deriving DecidableEq

/-- A row of `session_messages`. -/
structure MessageRow where
  tenantId : String
  sessionId : String
  runId : String
  sequence : Nat
  role : MessageRole
  text : String
  toolCallId : Option String
  visibility : MessageVisibility := .userVisible
  sourceVersion : Nat := 1
deriving DecidableEq

/-- A row of `tool_invocations` whose root is a session. -/
structure ToolRow where
  tenantId : String
  sessionId : String
  toolServer : String
  toolName : String
  status : String
  argsJson : String
  resultJson : Option String := none
  errorJson : Option String := none
  finishedAtMs : Option Int := none
  sourceVersion : Nat := 1
  aclVersion : Nat := 1
deriving DecidableEq

structure Canonical where
  sessions : Dict String SessionRow
  runs : Dict String RunRow
  messages : Dict Nat MessageRow
  nextMessage : Nat
  tools : Dict (String × String) ToolRow
  outbox : SearchOutbox

def Canonical.empty : Canonical := ⟨.empty, .empty, .empty, 0, .empty, .empty⟩

/-! ### Documents -/

/-- A row of `search_documents` with its indexed text. -/
structure Document where
  title : String
  body : String
  rootKind : String
  rootId : String
  messageId : Option Nat := none
deriving DecidableEq

/-- `value or default`, for a text. -/
def orElse (value : Option String) (default : String) : String := (value.filter (· ≠ "")).getD default

/-- `_redact_text(value)` -/
def Extractors.redactText (ex : Extractors) (value : String) : String := ex.redactSearchText value 98304

/-- The title of a document: `_source_row` redacts what it shows and `_put_document` redacts it again. -/
def Extractors.titleSafe (ex : Extractors) (value : String) : String :=
  ex.redactSearchText (ex.redactSearchText value 4096) 4096

structure Heading where
  title : Option String
  parentSessionId : Option String
deriving DecidableEq

def SessionRow.heading (row : SessionRow) : Option Heading :=
  if row.deletedAtMs = none then some ⟨row.title, row.parentSessionId⟩ else none

def Heading.rootKind (heading : Heading) : String :=
  if heading.parentSessionId.filter (· ≠ "") = none then "chat" else "delegated_session"

structure Place where
  id : Nat
  sessionId : String
  runId : String
  sequence : Nat
  toolCallId : Option String
deriving DecidableEq

def MessageRow.place (id : Nat) (m : MessageRow) : Place := ⟨id, m.sessionId, m.runId, m.sequence, m.toolCallId⟩

def Canonical.places (C : Canonical) : List Place := C.messages.entries.map fun e => e.2.place e.1

def anchor (places : List Place) (sessionId runId callId : String) : Option Nat :=
  let ofRun := places.filter fun p => p.sessionId = sessionId ∧ p.runId = runId
  ((ofRun.filter fun p => p.toolCallId = some callId).argmin Place.sequence |>.map Place.id).or
    (ofRun.argmax Place.sequence |>.map Place.id)

def Canonical.heading (C : Canonical) (sessionId : String) : Option Heading :=
  (C.sessions.get? sessionId).bind SessionRow.heading

def sessionDocument (ex : Extractors) (id : String) (heading : Heading) : Document where
  title := ex.titleSafe (orElse heading.title "Untitled chat")
  body := ex.redactText (ex.redactSearchText (orElse heading.title "Untitled chat") 4096)
  rootKind := heading.rootKind
  rootId := id

def messageDocument (ex : Extractors) (id : Nat) (m : MessageRow) (heading : Heading) : Document where
  title := ex.titleSafe (orElse heading.title "Untitled chat")
  body := ex.redactText (ex.redactText m.text)
  rootKind := heading.rootKind
  rootId := m.sessionId
  messageId := some id

def toolBody (ex : Extractors) (t : ToolRow) : String :=
  let structured := ex.safeStructureTokens (some t.argsJson) ++ " " ++ ex.safeStructureTokens t.resultJson
  " ".intercalate (["tool " ++ t.toolServer ++ " " ++ t.toolName ++ " status " ++ t.status, structured,
    if t.errorJson.isSome then "tool error" else ""].filter (· ≠ ""))

def toolDocument (ex : Extractors) (t : ToolRow) (heading : Heading) (messageId : Nat) : Document where
  title := ex.titleSafe (orElse heading.title t.toolName)
  body := ex.redactText (toolBody ex t)
  rootKind := heading.rootKind
  rootId := t.sessionId
  messageId := some messageId

/-- `_source_row`, and the document `_put_document` makes of it. -/
def sourceRow (ex : Extractors) (C : Canonical) : SourceKey → Option Document
  | .session id => do
    let heading ← C.heading id
    return sessionDocument ex id heading
  | .message id => do
    let m ← C.messages.get? id
    let heading ← C.heading m.sessionId
    if m.visibility = .userVisible then some (messageDocument ex id m heading) else none
  | .toolInvocation runId callId => do
    let t ← C.tools.get? (runId, callId)
    let heading ← C.heading t.sessionId
    let messageId ← anchor C.places t.sessionId runId callId
    return toolDocument ex t heading messageId

def Canonical.sources (C : Canonical) : List SourceKey :=
  C.sessions.keys.map .session ++ C.messages.keys.map .message ++
    C.tools.keys.map fun key => .toolInvocation key.1 key.2

def indexFromScratch (ex : Extractors) (C : Canonical) : Dict SourceKey Document :=
  C.sources.foldl (fun docs key => (sourceRow ex C key).elim docs (docs.set key)) .empty

end OpenAgent.Search
