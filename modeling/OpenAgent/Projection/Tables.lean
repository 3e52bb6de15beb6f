import OpenAgent.Projection.Build
import OpenAgent.Lib.Table

/-!
# The normalized tables

The rows of `sessions_v2`, `session_runs`, `session_messages` and `tool_invocations`, with the
constraints that a projection can meet: unique ordinals, sequences, keys and call identifiers, the
checks on single rows, and foreign keys that cascade or restrict. A statement that violates one raises,
and the caller's savepoint undoes the whole projection.
-/

namespace OpenAgent.Projection

open Lib

structure Stored (α : Type) where
  tenantId : String
  sessionId : String
  sourceVersion : Nat
  row : α
deriving DecidableEq

/-- A row of `sessions_v2` with its version. -/
structure StoredSession (D : Type) where
  sourceVersion : Nat
  row : SessionRow D

/-- What `_tool_values` adds to a row. -/
structure ToolValues extends ToolRow where
  ownerPrincipalId : Option String
  visibility : Visibility
  aclVersion : Nat
deriving DecidableEq

structure Tables (D : Type) where
  sessions : Dict String (StoredSession D)
  runs : Dict String (Stored RunRow)
  messages : Dict String (Stored MessageRow)
  tools : Dict String (Stored ToolValues)

def Tables.empty {D : Type} : Tables D := ⟨.empty, .empty, .empty, .empty⟩

/-- Rows that differ in nothing but the revision that last wrote them: `not _row_changed`. -/
def Stored.same {α : Type} [DecidableEq α] (a b : Stored α) : Bool :=
  a.tenantId = b.tenantId && a.sessionId = b.sessionId && a.row = b.row

/-- `_fetch_nested_rows` -/
def rowsOf {α : Type} (table : Dict String (Stored α)) (sessionId : String) : Dict String (Stored α) :=
  table.filter fun _ stored => stored.sessionId = sessionId

/-! ### Unique slots -/

inductive RunSlot
  | ordinal (sessionId : String) (ordinal : Nat)
  | idempotencyKey (sessionId : String) (key : Json)
deriving DecidableEq

inductive MessageSlot
  | sequence (sessionId : String) (sequence : Nat)
  | ordinal (runId : String) (ordinal : Nat)
  | idempotencyKey (sessionId : String) (key : Json)
deriving DecidableEq

inductive ToolSlot
  | ordinal (rootId : String) (ordinal : Nat)
  | idempotencyKey (rootId : String) (key : Json)
  | call (rootId : String) (toolCallId : String)
deriving DecidableEq

def keySlot {σ : Type} (slot : Json → σ) (key : Json) : List σ := if key = .null then [] else [slot key]

/-- The table holds exactly these rows for the session: none of another make, and none missing. -/
structure Holds {α : Type} (table : Dict String (Stored α)) (key : α → String) (tenantId sessionId : String)
    (rows : List α) : Prop where
  noneStale : ∀ id stored, table.get? id = some stored → stored.sessionId = sessionId →
    stored.tenantId = tenantId ∧ stored.row ∈ rows ∧ key stored.row = id
  noneMissing : ∀ row ∈ rows, ∃ version, table.get? (key row) = some ⟨tenantId, sessionId, version, row⟩

theorem holds_iff {α : Type} {table : Dict String (Stored α)} {key : α → String}
    {tenantId sessionId : String} {rows : List α} :
    Holds table key tenantId sessionId rows ↔
      (∀ e ∈ table.entries, e.2.sessionId = sessionId →
        e.2.tenantId = tenantId ∧ e.2.row ∈ rows ∧ key e.2.row = e.1) ∧
      ∀ row ∈ rows, ∃ e ∈ table.entries, e.1 = key row ∧ e.2.tenantId = tenantId ∧
        e.2.sessionId = sessionId ∧ e.2.row = row := by
  constructor
  · intro h
    refine ⟨fun e he => h.noneStale e.1 e.2 (Dict.get?_eq_some_iff.mpr he), fun row hrow => ?_⟩
    obtain ⟨version, hget⟩ := h.noneMissing row hrow
    exact ⟨_, Dict.get?_eq_some_iff.mp hget, rfl, rfl, rfl, rfl⟩
  · rintro ⟨hstale, hmissing⟩
    refine ⟨fun id stored hget => hstale (id, stored) (Dict.get?_eq_some_iff.mp hget), fun row hrow => ?_⟩
    obtain ⟨⟨id, stored⟩, he, rfl, rfl, rfl, hrow'⟩ := hmissing row hrow
    refine ⟨stored.sourceVersion, ?_⟩
    rw [← hrow']
    rw [← hrow'] at he
    exact Dict.get?_eq_some_iff.mpr he

instance {α : Type} [DecidableEq α] (table : Dict String (Stored α)) (key : α → String)
    (tenantId sessionId : String) (rows : List α) : Decidable (Holds table key tenantId sessionId rows) :=
  decidable_of_iff _ holds_iff.symm

theorem Stored.same_refl {α : Type} [DecidableEq α] (a : Stored α) : a.same a = true := by
  simp [Stored.same]

theorem Stored.same_iff {α : Type} [DecidableEq α] {a b : Stored α} :
    a.same b = true ↔ a.tenantId = b.tenantId ∧ a.sessionId = b.sessionId ∧ a.row = b.row := by
  simp [Stored.same, and_assoc]

def runSchema : Schema String RunSlot (Stored RunRow) where
  key stored := stored.row.id
  slots stored := .ordinal stored.sessionId stored.row.ordinal ::
    keySlot (.idempotencyKey stored.sessionId) stored.row.idempotencyKey
  same := Stored.same
  same_refl := Stored.same_refl
  slots_same a b h := by
    obtain ⟨-, hsession, hrow⟩ := Stored.same_iff.mp h
    rw [hsession, hrow]

def messageSchema : Schema String MessageSlot (Stored MessageRow) where
  key stored := stored.row.id
  slots stored := .sequence stored.sessionId stored.row.sequence ::
    .ordinal stored.row.runId stored.row.ordinal ::
    keySlot (.idempotencyKey stored.sessionId) stored.row.idempotencyKey
  same := Stored.same
  same_refl := Stored.same_refl
  slots_same a b h := by
    obtain ⟨-, hsession, hrow⟩ := Stored.same_iff.mp h
    rw [hsession, hrow]

def toolSchema : Schema String ToolSlot (Stored ToolValues) where
  key stored := stored.row.id
  slots stored := .ordinal stored.row.rootId stored.row.ordinal ::
    (keySlot (.idempotencyKey stored.row.rootId) stored.row.idempotencyKey ++
      (stored.row.toolCallId.map (.call stored.row.rootId)).toList)
  same := Stored.same
  same_refl := Stored.same_refl
  slots_same a b h := by
    obtain ⟨-, -, hrow⟩ := Stored.same_iff.mp h
    rw [hrow]

section

variable {D : Type} (py : Stdlib D) (tenantId : String) (t : Tables D)

/-! ### References and checks -/

/-- `_existing_id(conn, "sessions_v2", …)` -/
def Tables.hasSession (id : String) : Bool :=
  (t.sessions.get? id).any fun stored => stored.row.tenantId = tenantId

/-- `_existing_id(conn, "session_runs", …)` -/
def Tables.hasRun (id : String) : Bool := (t.runs.get? id).any fun stored => stored.tenantId = tenantId

def Tables.ownsRun (sessionId runId : String) : Bool :=
  (t.runs.get? runId).any fun stored => stored.sessionId = sessionId

def SessionRow.accepted (row : SessionRow D) : Bool :=
  row.parentSessionId ≠ some row.id && row.model.bindable && row.framework.bindable

def RunRow.accepted (row : RunRow) : Bool :=
  row.idempotencyKey.bindable && row.agentId.bindable && row.teamId.bindable &&
    row.workflowId.bindable && row.workflowStepId.bindable && row.model.bindable &&
    row.modelProvider.bindable && row.finishedAtMs.all (row.createdAtMs ≤ ·)

def MessageRow.accepted (row : MessageRow) : Bool :=
  row.idempotencyKey.bindable && row.authorDeviceId.bindable && row.name.bindable &&
    row.compressedContent.bindable && row.reasoningContent.bindable &&
    row.redactedReasoningContent.bindable && row.toolCallId.bindable &&
    (row.authorKind = .system || row.authorPrincipalId.isSome || row.legacyInferred)

def Tables.acceptsRun (stored : Stored RunRow) : Bool :=
  stored.row.accepted && t.hasSession stored.tenantId stored.sessionId

def Tables.acceptsMessage (stored : Stored MessageRow) : Bool :=
  stored.row.accepted && t.hasSession stored.tenantId stored.sessionId &&
    t.ownsRun stored.sessionId stored.row.runId

def Tables.acceptsTool (stored : Stored ToolValues) : Bool :=
  stored.row.idempotencyKey.bindable && t.hasSession stored.tenantId stored.sessionId &&
    t.ownsRun stored.sessionId stored.row.sessionRunId &&
    stored.row.childRunId.all (t.hasRun stored.tenantId) &&
    (stored.row.childSessionId = .null || stored.row.childSessionId.bindable &&
      t.hasSession stored.tenantId (pyStr py stored.row.childSessionId))

/-- `_tool_values`: a link whose target is not there is left out. -/
def toolValues (session : SessionRow D) (row : ToolRow) : ToolValues :=
  { row with
    childRunId := row.childRunId.filter (t.hasRun tenantId)
    childSessionId :=
      if row.childSessionId.truthy && !t.hasSession tenantId (pyStr py row.childSessionId) then .null
      else row.childSessionId
    ownerPrincipalId := session.ownerPrincipalId
    visibility := session.visibility
    aclVersion := session.aclVersion }

/-- `_lineage_for_write` -/
def lineageForWrite (row : SessionRow D) : Option String × Option String :=
  match row.parentSessionId.filter (t.hasSession tenantId) with
  | none => (none, some row.id)
  | some parent =>
    let root := (row.rootSessionId.filter (· ≠ "")).getD parent
    (some parent, some (if root ≠ row.id ∧ t.hasSession tenantId root = false then parent else root))

/-! ### Deletes -/

def Tables.childRuns (ids : List String) : List String :=
  (t.runs.entries.filter fun e => e.2.row.parentRunId.any fun parent =>
    decide (parent ∈ ids) && t.ownsRun e.2.sessionId parent).map Prod.fst

def Tables.descendants (ids : List String) : Nat → List String
  | 0 => ids
  | n + 1 => descendants (ids ++ t.childRuns ids) n

/-- `DELETE FROM session_runs`: the runs that descend from a deleted one go with it, and so do the messages
and tools of each; a tool that names one of them as its child run forbids it all. -/
def Tables.deleteRuns (ids : List String) : Option (Tables D) :=
  let gone := t.descendants ids t.runs.entries.length
  if t.tools.entries.any fun e => e.2.row.childRunId.any fun child => decide (child ∈ gone) then none
  else some
    { t with
      runs := t.runs.filter fun id _ => decide (id ∉ gone)
      messages := t.messages.filter fun _ stored => decide (stored.row.runId ∉ gone)
      tools := t.tools.filter fun _ stored => decide (stored.row.sessionRunId ∉ gone) }

end

end OpenAgent.Projection
