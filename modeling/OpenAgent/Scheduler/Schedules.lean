import OpenAgent.Lib.Dict
import OpenAgent.Lib.Place
import OpenAgent.Lib.Transition
import OpenAgent.Scheduler.Expressions

/-!
# Schedule rows of workflows

The graph of a workflow says which of its blocks fire on a schedule, and the table `workflow_schedules` is
kept to match. A save goes through the blocks one by one, each with a read and a write of its row, and
prunes the rows of the blocks that are gone. A tick reads the rows that are due, and writes the next run of
each one after the other.
-/

namespace OpenAgent.Scheduler

open Lib

variable {Zone : Type}

structure Croniter (Zone : Type) extends Calendar Zone where
  readsCron : String → Bool

/-- `validate_schedule_expression` -/
def Croniter.validates (cal : Croniter Zone) (expr : String) (timezone : Option String) : Bool :=
  (cal.resolveTimezone timezone).isSome &&
    if isOneShotExpression expr then (cal.parseOneShotExpression expr).isSome else cal.readsCron expr

/-- A `trigger-schedule` node of a graph: its id, and the fields of its config. -/
structure Block where
  nodeId : String
  cronExpression : Option String
  timezone : Option String := none
  enabled : Bool := true

/-- `config.get("timezone") or None` -/
def Block.zone (b : Block) : Option String := if b.timezone = some "" then none else b.timezone

def Block.expression (cal : Croniter Zone) (b : Block) : Option String :=
  match b.cronExpression with
  | none => none
  | some cron =>
    if b.nodeId = "" || cron = "" then none else if cal.validates cron b.zone then some cron else none

/-- The schedule blocks of a graph that the validator let pass: no two nodes have the same id. -/
structure Blocks where
  list : List Block
  nodup : (list.map (·.nodeId)).Nodup

structure ScheduleRow where
  id : Nat
  workflowId : String
  nodeId : String
  cronExpression : String
  timezone : Option String
  nextRunAt : Int
  lastRunAt : Option Int := none
  enabled : Bool

/-- What `UNIQUE(workflow_id, node_id)` is about. -/
def ScheduleRow.key (r : ScheduleRow) : String × String := (r.workflowId, r.nodeId)

/-- An `upsert_schedule` that has read the row it is about. -/
structure Upsert where
  nodeId : String
  cronExpression : String
  timezone : Option String
  nextRunAt : Int
  enabled : Bool
  existing : Option ScheduleRow

/-- A run of `sync_workflow_schedules`: the blocks that are left, the nodes to keep so far, and the upsert
that is on its way. -/
structure Save where
  workflowId : String
  todo : List Block
  keepNodeIds : List String := []
  upsert : Option Upsert := none
  done : Bool := false

structure ScheduleTick where
  now : Int
  due : List ScheduleRow

structure Schedules where
  rows : List ScheduleRow := []
  graphs : Dict String Blocks := .empty
  saves : List Save := []
  ticks : List ScheduleTick := []
  clock : Int
  nextId : Nat := 0

inductive ScheduleEvent
  /-- A workflow's graph is saved, and its schedules begin to be synced. -/
  | save (workflowId : String) (blocks : Blocks)
  /-- A save goes on to its next block, up to the read of the block's row. -/
  | look (save : Nat)
  /-- The second half of `upsert_schedule`. -/
  | write (save : Nat)
  /-- `delete_schedules_not_in`, and the save is over. -/
  | prune (save : Nat)
  /-- `get_due_schedules`, where these workflows are enabled. -/
  | tick (workflowEnabled : String → Bool)
  /-- A tick goes on to its next row. -/
  | fire (tick : Nat) (authorized : Bool)
  | wait (time : Nat)

/-! ### The steps -/

/-- `UPDATE workflow_schedules SET ... WHERE id = ?` -/
def updateRow (rows : List ScheduleRow) (id : Nat) (f : ScheduleRow → ScheduleRow) : List ScheduleRow :=
  rows.map fun r => if r.id = id then f r else r

/-- The loop body of `sync_workflow_schedules`, up to the read of `upsert_schedule`. -/
def lookStep (cal : Croniter Zone) (s : Schedules) (v : Save) : Option Save :=
  match v.todo with
  | [] => none
  | b :: rest =>
    match b.expression cal with
    | none => some { v with todo := rest }
    | some cron =>
      let v := { v with todo := rest, keepNodeIds := v.keepNodeIds ++ [b.nodeId] }
      match cal.nextRunForExpression cron s.clock b.zone with
      | none => some v
      | some next =>
        some { v with
          upsert := some {
            nodeId := b.nodeId
            cronExpression := cron
            timezone := b.zone
            nextRunAt := next
            enabled := b.enabled
            existing := s.rows.find? fun r => r.key = (v.workflowId, b.nodeId) } }

def Upsert.applied (u : Upsert) (old r : ScheduleRow) : ScheduleRow :=
  { r with
    cronExpression := u.cronExpression
    timezone := u.timezone
    nextRunAt :=
      if old.cronExpression = u.cronExpression ∧ old.timezone = u.timezone then old.nextRunAt
      else u.nextRunAt
    enabled := u.enabled }

/-- The write of `upsert_schedule`; an insert that the table refuses ends the save. -/
def writeStep (s : Schedules) (k : Nat) (v : Save) (u : Upsert) : Schedules :=
  match u.existing with
  | some old =>
    { s with
      rows := updateRow s.rows old.id (u.applied old)
      saves := s.saves.set k { v with upsert := none } }
  | none =>
    if s.rows.any fun r => r.key = (v.workflowId, u.nodeId) then
      { s with saves := s.saves.set k { v with upsert := none, done := true } }
    else
      { s with
        rows := s.rows ++ [{
          id := s.nextId
          workflowId := v.workflowId
          nodeId := u.nodeId
          cronExpression := u.cronExpression
          timezone := u.timezone
          nextRunAt := u.nextRunAt
          enabled := u.enabled }]
        nextId := s.nextId + 1
        saves := s.saves.set k { v with upsert := none } }

def fireRow (cal : Croniter Zone) (rows : List ScheduleRow) (now : Int) (r : ScheduleRow) :
    List ScheduleRow :=
  if isOneShotExpression r.cronExpression then
    updateRow rows r.id fun row => { row with lastRunAt := some now, enabled := false }
  else
    match cal.nextRunForExpression r.cronExpression now r.timezone with
    | none => rows
    | some next => updateRow rows r.id fun row => { row with lastRunAt := some now, nextRunAt := next }

def scheduleStep (cal : Croniter Zone) (s : Schedules) : ScheduleEvent → Option Schedules
  | .save workflowId blocks =>
    some { s with
      graphs := s.graphs.set workflowId blocks
      saves := s.saves ++ [{ workflowId, todo := blocks.list }] }
  | .look k =>
    match s.saves[k]? with
    | none => none
    | some v =>
      if v.done || v.upsert.isSome then none
      else (lookStep cal s v).map fun v => { s with saves := s.saves.set k v }
  | .write k =>
    match s.saves[k]? with
    | none => none
    | some v => if v.done then none else v.upsert.map fun u => writeStep s k v u
  | .prune k =>
    match s.saves[k]? with
    | none => none
    | some v =>
      if v.done || v.upsert.isSome || !v.todo.isEmpty then none
      else some { s with
        rows := s.rows.filter fun r =>
          !(decide (r.workflowId = v.workflowId) && decide (r.nodeId ∉ v.keepNodeIds))
        saves := s.saves.set k { v with done := true } }
  | .tick workflowEnabled =>
    some { s with
      ticks := s.ticks ++ [{
        now := s.clock
        due := (s.rows.filter fun r =>
          r.enabled && workflowEnabled r.workflowId && decide (r.nextRunAt ≤ s.clock)).mergeSort
            fun r q => r.nextRunAt ≤ q.nextRunAt }] }
  | .fire k authorized =>
    match s.ticks[k]? with
    | none => none
    | some t =>
      match t.due with
      | [] => none
      | r :: rest =>
        let s := { s with ticks := s.ticks.set k { t with due := rest } }
        if (s.graphs.get? r.workflowId).isNone then
          some { s with rows := s.rows.filter fun row => row.id ≠ r.id }
        else if authorized then some { s with rows := fireRow cal s.rows t.now r }
        else some s
  | .wait time => some { s with clock := s.clock + time }

/-! ### What the table is to say -/

def Schedules.quiet (s : Schedules) : Bool :=
  s.saves.all (·.done) && s.ticks.all (·.due.isEmpty)

def Occurs (cal : Croniter Zone) (expr : String) (timezone : Option String) (t : Int) : Prop :=
  ∃ base, cal.nextRunForExpression expr base timezone = some t

/-- The rows are those of the blocks with a valid expression in the latest graphs, and the next run of
each is an occurrence of its own expression. -/
structure FollowsGraphs (cal : Croniter Zone) (s : Schedules) : Prop where
  one : ∀ workflowId blocks, s.graphs.get? workflowId = some blocks → ∀ b ∈ blocks.list,
    ∀ cron, b.expression cal = some cron → ∃ r, (s.rows.filter fun r => r.key = (workflowId, b.nodeId)) = [r] ∧
      r.cronExpression = cron ∧ r.timezone = b.zone
  no_more : ∀ r ∈ s.rows, ∀ blocks, s.graphs.get? r.workflowId = some blocks →
    ∃ b ∈ blocks.list, b.nodeId = r.nodeId ∧ (b.expression cal).isSome
  occurs : ∀ r ∈ s.rows, Occurs cal r.cronExpression r.timezone r.nextRunAt

/-- No two saves of a workflow overlap, a block whose expression is valid has a next run when it is saved,
and a tick writes the next run of a row only while the row has the expression that the tick read. -/
def undisturbed (cal : Croniter Zone) (s : Schedules) : ScheduleEvent → Bool
  | .save workflowId _ => s.saves.all fun v => v.done || decide (v.workflowId ≠ workflowId)
  | .look k =>
    match s.saves[k]? with
    | none => true
    | some v =>
      match v.todo with
      | [] => true
      | b :: _ =>
        match b.expression cal with
        | none => true
        | some cron => (cal.nextRunForExpression cron s.clock b.zone).isSome
  | .fire k authorized =>
    match s.ticks[k]? with
    | none => true
    | some t =>
      match t.due with
      | [] => true
      | r :: _ => !authorized || isOneShotExpression r.cronExpression ||
          s.rows.all fun row => decide (row.id ≠ r.id) ||
            (decide (row.cronExpression = r.cronExpression) && decide (row.timezone = r.timezone))
  | _ => true

end OpenAgent.Scheduler
