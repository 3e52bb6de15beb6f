import OpenAgent.Projection.Tables

/-!
# Loading a session back

The runtime's view of a session is put together again from the normalized rows: the header from the
session, every run from its envelope, and the two lists that were moved out of it from their rows and
from what the envelope kept in their place.
-/

namespace OpenAgent.Projection

open Lib

/-- The number that a text of digits stands for: `int(text)`, for the ordinals that a layout keeps. -/
def parseInt (text : String) : Option Nat :=
  if text.toList ≠ [] ∧ text.toList.all Char.isDigit then some (Nat.ofDigitChars 10 text.toList 0) else none

theorem parseInt_toString (n : Nat) : parseInt (toString n) = some n := by
  have hdigits : (toString n).toList = Nat.toDigits 10 n := Nat.toList_repr
  rw [parseInt, hdigits, if_pos, Nat.ofDigitChars_toDigits (by decide) (by decide)]
  refine ⟨Nat.toDigits_ne_nil, ?_⟩
  rw [List.all_eq_true]
  intro c hc
  exact Nat.isDigit_of_mem_toDigits (by decide) (by decide) hc

/-! ### Lists that were moved out -/

def place (slots : List (Option Json)) (values : List (Nat × Json)) : List (Option Json) :=
  values.foldl (fun slots e => slots.set e.1 (some e.2)) slots

def fill : List (Option Json) → List Json → List (Option Json)
  | [], values => values.map some
  | slots, [] => slots
  | some x :: slots, values => some x :: fill slots values
  | none :: slots, value :: values => some value :: fill slots values

def passthroughOf (spec : Json) : Option (List (Nat × Json)) :=
  if spec.isDict then
    match (spec.get "passthrough").either (.obj []) with
    | .obj fields => fields.mapM fun e => (parseInt e.1).map fun n => (n, e.2)
    | _ => none
  else none

/-- `restore_list(…, positioned=True)` -/
def restorePositioned (spec : Json) (normalized : List (Nat × Json)) : Option (List Json) := do
  let kept ← passthroughOf spec
  let count := (kept ++ normalized).foldr (fun e n => max (e.1 + 1) n) 0
  (place (place (List.replicate count none) kept) normalized).mapM id

/-- `restore_list(…, positioned=False)` -/
def restorePacked (spec : Json) (normalized : List Json) : Option (List Json) := do
  let kept ← passthroughOf spec
  let count := kept.length + normalized.length
  if kept.all fun e => e.1 < count then (fill (place (List.replicate count none) kept) normalized).mapM id
  else none

/-! ### Runs and sessions -/

/-- The messages that a run has rows for, in their order; the row that shows `run.content` is not one. -/
def messageGroup (messages : List MessageRow) (runId : String) : List (Nat × Json) :=
  (messages.filter fun row => row.runId = runId && row.rawEnvelope ≠ contentMarker).map fun row =>
    (row.ordinal, row.rawEnvelope)

def toolGroup (tools : List ToolValues) (runId : String) : List Json :=
  (tools.filter fun row => row.sessionRunId = runId).map (·.rawEnvelope)

def restoreKey (envelope layout : Json) (key : String) (restored : Json → Option (List Json)) :
    Option Json :=
  if layout.has key then (restored (layout.get key)).map fun items => envelope.put key (.arr items)
  else some envelope

def restoreRun (messages : List MessageRow) (tools : List ToolValues) (run : RunRow) : Option Json :=
  let layout := run.rawEnvelope.get nestedLayoutKey
  if !run.rawEnvelope.isDict || !layout.isDict then none
  else do
    let envelope := run.rawEnvelope.pop nestedLayoutKey
    let envelope := if layout.has "provider_reserved_value" then
      envelope.put nestedLayoutKey (layout.get "provider_reserved_value") else envelope
    let envelope ← restoreKey envelope layout "messages" fun spec =>
      restorePositioned spec (messageGroup messages run.id)
    restoreKey envelope layout "tools" fun spec => restorePacked spec (toolGroup tools run.id)

structure LoadedSession where
  header : Header
  sessionId : String
  runs : List Json

def rowsInOrder {α : Type} (table : Dict String (Stored α)) (sessionId : String) (column : α → Nat) : List α :=
  orderBy column ((rowsOf table sessionId).values.map (·.row))

variable {D : Type}

/-- `load_v2_legacy_session` -/
def loadV2LegacySession (t : Tables D) (sessionId : String) : Option LoadedSession := do
  let stored ← t.sessions.get? sessionId
  guard stored.row.deletedAtMs.isNone
  guard (decide (3 ≤ stored.row.metadata.projectionSchema))
  let header ← stored.row.metadata.legacyHeader
  let runRows := rowsInOrder t.runs sessionId (·.ordinal)
  let messages := rowsInOrder t.messages sessionId (·.sequence)
  guard (messages.all fun row => row.rawEnvelope.isDict)
  let tools := rowsInOrder t.tools sessionId (·.ordinal)
  guard (tools.all fun row => row.rawEnvelope.isDict)
  guard (runRows.zipIdx.all fun e => decide (e.1.ordinal = e.2))
  let runs ← runRows.mapM (restoreRun messages tools)
  pure ⟨header, sessionId, runs⟩

end OpenAgent.Projection
