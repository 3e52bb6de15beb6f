import OpenAgent.Projection.Tables

/-!
# Projecting a session incrementally

A projection compares what the tables hold for a session with what its legacy row asks for. Rows that
are no longer asked for go, so do rows that moved to another place, and then the session and its runs,
messages and tools are written in turn. A source that was projected before, to the same digest, is left
alone.
-/

namespace OpenAgent.Projection

open Lib

variable {D : Type} [DecidableEq D] (py : Stdlib D) (tenantId : String)

inductive Outcome (D : Type)
  | tombstoned
  | refreshed
  | unchanged (sourceVersion : Nat)
  | written (sourceVersion : Nat) (sourceHash : D) (completeness : Completeness)
deriving DecidableEq

/-! ### Sessions that are gone -/

def SessionRow.tombstone (row : SessionRow D) (nowMs : Int) : SessionRow D :=
  let deletedAt := max nowMs (max row.createdAtMs (max row.updatedAtMs row.lastActivityAtMs))
  { row with
    status := .deleted
    updatedAtMs := max row.updatedAtMs deletedAt
    lastActivityAtMs := max row.lastActivityAtMs deletedAt
    deletedAtMs := some deletedAt }

/-- `tombstone_session` -/
def tombstoneSession (t : Tables D) (sessionId : String) (nowMs : Int) : Tables D :=
  match t.sessions.get? sessionId with
  | none => t
  | some stored =>
    if stored.row.deletedAtMs.isSome then t
    else
      { t with
        sessions := t.sessions.set sessionId ⟨stored.sourceVersion + 1, stored.row.tombstone nowMs⟩ }

/-! ### Sessions that the runtime owns -/

def ownedByRuntime (row : SessionRow D) : Bool :=
  (row.deletedAtMs.isNone || row.status ≠ .deleted) && row.metadata.runtimeContract

/-- The envelopes of the legacy row, `json.loads` refusing what is no JSON. -/
def rawRuns (legacy : LegacyRow) : Option (List Json) :=
  match legacy.runs.filter (· ≠ "") with
  | none => some []
  | some text => (py.loads text).map Json.items

def refreshEnvelope (sessionId : String) (t : Tables D) (envelope : Json) : Tables D :=
  let id := (envelope.get "run_id").either (envelope.get "id")
  if envelope.isDict && id.truthy then
    { t with
      runs := t.runs.update (pyStr py id) fun stored =>
        if stored.sessionId = sessionId && stored.row.metadataJson.get "runtime_contract" = .num 1 then
          { stored with row := { stored.row with rawEnvelope := envelope } }
        else stored }
  else t

/-! ### Comparing -/

def ownRuns (runs : List RunRow) : List RunRow :=
  runs.map fun row =>
    { row with parentRunId := row.parentRunId.filter fun parent => decide (parent ∈ runs.map (·.id)) }

def desiredRuns (sessionId : String) (version : Nat) (runs : List RunRow) : List (Stored RunRow) :=
  (ownRuns runs).map fun row => ⟨tenantId, sessionId, version, row⟩

def desiredMessages (sessionId : String) (version : Nat) (messages : List MessageRow) :
    List (Stored MessageRow) :=
  messages.map fun row => ⟨tenantId, sessionId, version, row⟩

def desiredTools (t : Tables D) (session : SessionRow D) (sessionId : String) (version : Nat)
    (tools : List ToolRow) : List (Stored ToolValues) :=
  tools.map fun row => ⟨tenantId, sessionId, version, toolValues py tenantId t session row⟩

def staleIds {α : Type} (existing : Dict String (Stored α)) (desired : List String) : List String :=
  existing.keys.filter fun id => decide (id ∉ desired)

/-- `_ids_requiring_reinsert`: rows whose place moved. -/
def movedIds {α β γ : Type} [DecidableEq γ] (existing : Dict String (Stored α)) (desired : List β)
    (id : β → String) (place : α → γ) (place' : β → γ) : List String :=
  (desired.filter fun row => (existing.get? (id row)).any fun prior => place prior.row ≠ place' row).map id

structure Removals where
  staleRuns : List String
  movedRuns : List String
  staleMessages : List String
  movedMessages : List String
  staleTools : List String
  movedTools : List String

def removals (t : Tables D) (sessionId : String) (p : SessionProjection D) : Removals :=
  let movedRuns := movedIds (rowsOf t.runs sessionId) p.runs (·.id) (·.ordinal) (·.ordinal)
  { staleRuns := staleIds (rowsOf t.runs sessionId) (p.runs.map (·.id))
    movedRuns
    staleMessages := staleIds (rowsOf t.messages sessionId) (p.messages.map (·.id))
    movedMessages :=
      movedIds (rowsOf t.messages sessionId) p.messages (·.id) (fun row => (row.runId, row.sequence, row.ordinal))
          (fun row => (row.runId, row.sequence, row.ordinal)) ++
        (p.messages.filter fun row => decide (row.runId ∈ movedRuns)).map (·.id)
    staleTools := staleIds (rowsOf t.tools sessionId) (p.tools.map (·.id))
    movedTools :=
      movedIds (rowsOf t.tools sessionId) p.tools (·.id) (fun row => (row.rootId, row.sessionRunId, row.ordinal))
          (fun row => (row.rootId, row.sessionRunId, row.ordinal)) ++
        (p.tools.filter fun row => decide (row.sessionRunId ∈ movedRuns)).map (·.id) }

def applyRemovals (t : Tables D) (r : Removals) : Option (Tables D) :=
  let t :=
    { t with
      messages := t.messages.filter fun id _ => decide (id ∉ r.staleMessages ++ r.movedMessages)
      tools := t.tools.filter fun id _ => decide (id ∉ r.staleTools ++ r.movedTools) }
  t.deleteRuns (r.staleRuns ++ r.movedRuns)

/-! ### Writing -/

def linked (t : Tables D) (row : SessionRow D) : SessionRow D :=
  { row with
    parentSessionId := (lineageForWrite tenantId t row).1
    rootSessionId := (lineageForWrite tenantId t row).2 }

/-- The tables hold for a session what its projection asks for, every link resolved as far as it can be. -/
structure Matches (t : Tables D) (sessionId : String) (p : SessionProjection D) : Prop where
  session : (t.sessions.get? sessionId).map (·.row) =
    if p.session.id = sessionId then some (linked tenantId t p.session) else none
  runs : Holds t.runs (·.id) tenantId sessionId (ownRuns p.runs)
  messages : Holds t.messages (·.id) tenantId sessionId p.messages
  tools : Holds t.tools (·.id) tenantId sessionId
    (p.tools.map (toolValues py tenantId t (linked tenantId t p.session)))

instance (t : Tables D) (sessionId : String) (p : SessionProjection D) :
    Decidable (Matches py tenantId t sessionId p) :=
  decidable_of_iff
    (((t.sessions.get? sessionId).map (·.row) =
        if p.session.id = sessionId then some (linked tenantId t p.session) else none) ∧
      Holds t.runs (·.id) tenantId sessionId (ownRuns p.runs) ∧
      Holds t.messages (·.id) tenantId sessionId p.messages ∧
      Holds t.tools (·.id) tenantId sessionId
        (p.tools.map (toolValues py tenantId t (linked tenantId t p.session))))
    ⟨fun ⟨hsession, hruns, hmessages, htools⟩ => ⟨hsession, hruns, hmessages, htools⟩,
      fun h => ⟨h.session, h.runs, h.messages, h.tools⟩⟩

/-- `_has_deferred_projection_links` -/
def hasDeferredLinks (p : SessionProjection D) : Bool :=
  p.session.parentSessionId.isSome ||
    p.tools.any fun row => row.childSessionId.truthy || row.childRunId.isSome

def parentsPresent (t : Tables D) (sessionId : String) : Bool :=
  (rowsOf t.runs sessionId).entries.all fun e => e.2.row.parentRunId.all (t.ownsRun sessionId)

def upToDate (stored : StoredSession D) (p : SessionProjection D) : Bool :=
  stored.row.deletedAtMs.isNone && stored.row.legacySourceHash = some p.sourceHash &&
    3 ≤ stored.row.metadata.projectionSchema && !hasDeferredLinks p

def writeProjection (t : Tables D) (sessionId : String) (p : SessionProjection D) (version : Nat) :
    Option (Tables D) := do
  let session := linked tenantId t p.session
  let removed := removals t sessionId p
  let bare ← applyRemovals t removed
  guard session.accepted
  let t₁ := { bare with sessions := bare.sessions.set session.id ⟨version, session⟩ }
  let runs ← runSchema.sync t₁.acceptsRun (rowsOf t.runs sessionId) removed.movedRuns t₁.runs
    (desiredRuns tenantId sessionId version p.runs)
  let t₂ := { t₁ with runs }
  let messages ← messageSchema.sync t₂.acceptsMessage (rowsOf t.messages sessionId) removed.movedMessages
    t₂.messages (desiredMessages tenantId sessionId version p.messages)
  let t₃ := { t₂ with messages }
  let tools ← toolSchema.sync (t₃.acceptsTool py) (rowsOf t.tools sessionId) removed.movedTools t₃.tools
    (desiredTools py tenantId t₃ session sessionId version p.tools)
  let t₄ := { t₃ with tools }
  guard (parentsPresent t₄ sessionId)
  pure t₄

/-- `_assert_unique_projection_ids`, for the three kinds of rows. -/
def uniqueIds (p : SessionProjection D) : Bool :=
  (p.runs.map (·.id)).Nodup && (p.messages.map (·.id)).Nodup && (p.tools.map (·.id)).Nodup

def nextVersion (t : Tables D) (sessionId : String) : Nat :=
  match t.sessions.get? sessionId with
  | some stored => stored.sourceVersion + 1
  | none => 1

/-- `project_legacy_session`, once the projection of the row is built. -/
def projectBuilt (t : Tables D) (sessionId : String) (p : SessionProjection D) :
    Option (Tables D × Outcome D) :=
  let write := do
    guard (uniqueIds p)
    let t' ← writeProjection py tenantId t sessionId p (nextVersion t sessionId)
    pure (t', .written (nextVersion t sessionId) p.sourceHash p.session.completeness)
  match t.sessions.get? sessionId with
  | none => write
  | some stored =>
    if stored.row.tenantId ≠ tenantId then none
    else if upToDate stored p then some (t, .unchanged stored.sourceVersion)
    else write

/-- `project_legacy_session`; nothing is what a raised exception leaves to commit. -/
def projectLegacySession (t : Tables D) (sessionId : String) (legacy : Option LegacyRow) (nowMs : Int) :
    Option (Tables D × Outcome D) :=
  match legacy with
  | none => some (tombstoneSession t sessionId nowMs, .tombstoned)
  | some legacy =>
    if legacy.sessionId ≠ sessionId then none
    else if (t.sessions.get? sessionId).any fun stored => ownedByRuntime stored.row then
      (rawRuns py legacy).map fun envelopes => (envelopes.foldl (refreshEnvelope py sessionId) t, .refreshed)
    else
      match buildSessionProjection py legacy tenantId nowMs with
      | .error _ => none
      | .ok p => projectBuilt py tenantId t sessionId p

end OpenAgent.Projection
