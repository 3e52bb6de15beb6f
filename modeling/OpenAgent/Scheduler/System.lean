import OpenAgent.Scheduler.Tasks
import OpenAgent.Lib.Place
import OpenAgent.Lib.Transition
import Mathlib.Data.List.Sort

/-!
# Schedulers over one task table

Any number of schedulers tick over the same tables while tasks are edited and domains switched. A tick
reads the due tasks and claims them one by one; a recalculation reads the enabled tasks and writes their
cursors one by one. Both work from what they read at first, and other writers come between.
-/

namespace OpenAgent.Scheduler

open Lib

variable {Zone : Type}

inductive Domain
  | scheduler | workflows | events
deriving DecidableEq

/-- A `Scheduler`: its enabled domains, and whether its loop runs. -/
structure Process where
  domains : List Domain := []
  looping : Bool := false
deriving DecidableEq

/-- A tick or a recalculation under way: the clock it read, and the rows it has yet to look at. -/
structure Pass where
  now : Int
  rest : List (String × Task)

/-- `spawned` lists the runs that were dispatched. `withdrawn` remembers the occurrences that an edit of
their task took back: an edit that reads the schedule anew, disables the task or deletes it. -/
structure System where
  now : Int := 0
  tables : Tables
  processes : List Process := []
  ticks : List Pass := []
  recalculations : List Pass := []
  spawned : List String := []
  withdrawn : List (String × Int) := []

/-- The arguments of `update_scheduled_task` that concern the schedule. -/
structure Edit where
  cronExpression : Option String := none
  timezone : Option (Option String) := none
  enabled : Option Bool := none
deriving DecidableEq

inductive Action
  | clock (now : Int)
  | boot (domains : List Domain)
  | start (p : Nat) (now : Int)
  | stop (p : Nat)
  | setEnabledDomains (p : Nat) (domains : List Domain) (now : Int)
  | tick (p : Nat) (now : Int)
  | claim (i : Nat) (authorized : Bool) (runId : String) (fault : Option Fault)
  | abandonTick (i : Nat)
  | recalculate (j : Nat) (authorized : Bool)
  | abandonRecalculation (j : Nat)
  | addTask (id : String) (cronExpression : String) (timezone : Option String) (now : Int)
  | updateTask (id : String) (edit : Edit) (now : Int)
  | deleteTask (id : String)
deriving DecidableEq

variable (cal : Calendar Zone) (s : System)

/-- `get_due_tasks` -/
def dueTasks (tasks : Dict String Task) (now : Int) : List (String × Task) :=
  (tasks.entries.filter fun e => e.2.enabled && e.2.nextRun.any (· ≤ now)).insertionSort
    fun a b => a.2.nextRun.getD 0 ≤ b.2.nextRun.getD 0

/-- `get_tasks(enabled_only=True)` -/
def enabledTasks (tasks : Dict String Task) : List (String × Task) :=
  tasks.entries.filter fun e => e.2.enabled

def System.setTask (id : String) (task : Task) : System :=
  { s with tables := { s.tables with tasks := s.tables.tasks.set id task } }

/-! ### Ticks -/

def tickArgs (now : Int) (runId id : String) (task : Task) (expected : Int) (nextRun : Option Int) :
    ClaimArgs where
  taskId := id
  expectedNextRun := expected
  firedAt := now
  nextRun := nextRun
  disable := isOneShotExpression task.cronExpression
  runId := runId

def tickNextRun (now : Int) (task : Task) : Option (Option Int) :=
  if isOneShotExpression task.cronExpression then some none
  else (cal.nextRunForExpression task.cronExpression now task.timezone).map some

def System.afterClaim (runId : String) (claim : Except ClaimError Bool × Tables) : System :=
  match claim.1 with
  | .ok true => { s with tables := claim.2, spawned := s.spawned ++ [runId] }
  | _ => { s with tables := claim.2 }

/-- One due task of `_check_and_run`. -/
def System.claimTask (i : Nat) (pass : Pass) (id : String) (task : Task) (rest : List (String × Task))
    (authorized : Bool) (runId : String) (fault : Option Fault) : System :=
  let s' : System := { s with ticks := s.ticks.set i { pass with rest := rest } }
  if authorized then
    match task.nextRun, tickNextRun cal pass.now task with
    | some expected, some nextRun =>
      s'.afterClaim runId
        (claimDueTaskRun (tickArgs pass.now runId id task expected nextRun) fault s.tables)
    | _, _ => s'
  else s'

/-! ### Recalculations -/

/-- What `_recalculate_next_runs` writes to a task it read, if anything. It writes by the task's id. -/
def recalculated (now : Int) (read : Task) (row : Task) : Task :=
  if isOneShotExpression read.cronExpression then
    if read.lastRun.any (· ≠ 0) then { row with enabled := false, nextRun := none } else row
  else
    match cal.nextRunForExpression read.cronExpression now read.timezone with
    | some nextRun => { row with nextRun := some nextRun }
    | none => row

def System.recalculateTask (j : Nat) (pass : Pass) (id : String) (read : Task)
    (rest : List (String × Task)) (authorized : Bool) : System :=
  let s' : System := { s with recalculations := s.recalculations.set j { pass with rest := rest } }
  if authorized then
    { s' with tables := { s.tables with
      tasks := s.tables.tasks.update id (recalculated cal pass.now read) } }
  else s'

def System.beginRecalculation (domains : List Domain) (now : Int) : System :=
  { s with recalculations := s.recalculations ++
      [⟨now, if .scheduler ∈ domains then enabledTasks s.tables.tasks else []⟩] }

/-! ### Edits -/

def Edit.reschedules (edit : Edit) : Bool :=
  edit.cronExpression.isSome || edit.timezone.isSome || edit.enabled = some true

/-- The task after `update_scheduled_task`, and `none` where it raises. -/
def Task.edit (task : Task) (edit : Edit) (now : Int) : Option Task :=
  let cron := edit.cronExpression.getD task.cronExpression
  let timezone := edit.timezone.getD task.timezone
  let edited : Task := { task with
    cronExpression := cron, timezone := timezone, enabled := edit.enabled.getD task.enabled }
  if edit.reschedules then
    (cal.nextRunForExpression cron now timezone).map fun nextRun => { edited with nextRun := some nextRun }
  else some edited

def Task.pending (task : Task) : Option Int := if task.enabled then task.nextRun else none

def System.withdraw (id : String) (task : Task) : System :=
  { s with withdrawn := s.withdrawn ++ (task.pending.map fun v => (id, v)).toList }

def System.editTask (id : String) (edit : Edit) (now : Int) : Option System :=
  match s.tables.tasks.get? id with
  | none => none
  | some task =>
    match task.edit cal edit now with
    | none => some s
    | some edited =>
      if edit.reschedules || edit.enabled = some false then some ((s.withdraw id task).setTask id edited)
      else some (s.setTask id edited)

def System.removeTask (id : String) : Option System :=
  match s.tables.tasks.get? id with
  | none => none
  | some task =>
    let t := s.tables
    some { s.withdraw id task with tables := { t with
      tasks := t.tasks.pop id
      runs := t.runs.filter fun _ run => run.taskId ≠ id } }

def nextOf (passes : List Pass) (i : Nat) : Option (Pass × String × Task × List (String × Task)) :=
  match passes[i]? with
  | some ⟨now, (id, task) :: rest⟩ => some (⟨now, (id, task) :: rest⟩, id, task, rest)
  | _ => none

def System.process? (p : Nat) : Option Process := s.processes[p]?

def System.setProcess (p : Nat) (process : Process) : System :=
  { s with processes := s.processes.set p process }

def step (cal : Calendar Zone) (s : System) : Action → Option System
  | .clock now => if s.now ≤ now then some { s with now := now } else none
  | .boot domains => some { s with processes := s.processes ++ [{ domains := domains }] }
  | .start p now => (s.process? p).bind fun process =>
    if process.looping then none
    else some ((s.setProcess p { process with looping := true }).beginRecalculation process.domains now)
  | .stop p => (s.process? p).map fun process => s.setProcess p { process with looping := false }
  | .setEnabledDomains p domains now => (s.process? p).map fun process =>
    let s' := s.setProcess p { process with domains := domains }
    if process.looping then s'.beginRecalculation domains now else s'
  | .tick p now => (s.process? p).bind fun process =>
    if process.looping then
      let due := if .scheduler ∈ process.domains then dueTasks s.tables.tasks now else []
      some { s with ticks := s.ticks ++ [⟨now, due⟩] }
    else none
  | .claim i authorized runId fault => (nextOf s.ticks i).map fun (pass, id, task, rest) =>
    s.claimTask cal i pass id task rest authorized runId fault
  | .abandonTick i => s.ticks[i]?.map fun pass => { s with ticks := s.ticks.set i { pass with rest := [] } }
  | .recalculate j authorized => (nextOf s.recalculations j).map fun (pass, id, read, rest) =>
    s.recalculateTask cal j pass id read rest authorized
  | .abandonRecalculation j => s.recalculations[j]?.map fun pass =>
    { s with recalculations := s.recalculations.set j { pass with rest := [] } }
  | .addTask id cronExpression timezone now =>
    if s.tables.tasks.contains id then none
    else (cal.nextRunForExpression cronExpression now timezone).map fun nextRun =>
      s.setTask id { cronExpression := cronExpression, timezone := timezone, nextRun := some nextRun }
  | .updateTask id edit now => s.editTask cal id edit now
  | .deleteTask id => s.removeTask id

/-! ### Reading a step -/

variable {cal : Calendar Zone} {s : System}

theorem nextOf_eq_some {passes : List Pass} {i : Nat} {pass : Pass} {id : String} {task : Task}
    {rest : List (String × Task)} (h : nextOf passes i = some (pass, id, task, rest)) :
    passes[i]? = some pass ∧ pass.rest = (id, task) :: rest := by
  rw [nextOf] at h
  split at h
  · rename_i now id' task' rest' hpass
    simp only [Option.some.injEq, Prod.mk.injEq] at h
    obtain ⟨rfl, rfl, rfl, rfl⟩ := h
    exact ⟨hpass, rfl⟩
  · cases h

theorem mem_dueTasks {tasks : Dict String Task} {now : Int} {e : String × Task} :
    e ∈ dueTasks tasks now ↔ tasks.get? e.1 = some e.2 ∧ e.2.enabled = true ∧
      ∃ v, e.2.nextRun = some v ∧ v ≤ now := by
  rw [dueTasks, List.mem_insertionSort, List.mem_filter, Dict.get?_eq_some_iff, Bool.and_eq_true]
  simp [Option.any_eq_true]

theorem afterClaim_tables (runId : String) (claim : Except ClaimError Bool × Tables) :
    (s.afterClaim runId claim).tables = claim.2 := by
  rw [System.afterClaim]
  split <;> rfl

theorem afterClaim_ticks (runId : String) (claim : Except ClaimError Bool × Tables) :
    (s.afterClaim runId claim).ticks = s.ticks := by
  rw [System.afterClaim]
  split <;> rfl

theorem afterClaim_frame (runId : String) (claim : Except ClaimError Bool × Tables) :
    (s.afterClaim runId claim).now = s.now ∧ (s.afterClaim runId claim).withdrawn = s.withdrawn := by
  rw [System.afterClaim]
  split <;> exact ⟨rfl, rfl⟩

variable (i : Nat) (pass : Pass) (id : String) (task : Task) (rest : List (String × Task))
  (authorized : Bool) (runId : String) (fault : Option Fault)

theorem claimTask_tables :
    (s.claimTask cal i pass id task rest authorized runId fault).tables = s.tables ∨
      ∃ expected nextRun row, task.nextRun = some expected ∧
        tickNextRun cal pass.now task = some nextRun ∧
        s.tables.dueRow (tickArgs pass.now runId id task expected nextRun) = some row ∧
        s.tables.runs.get? runId = none ∧
        (s.claimTask cal i pass id task rest authorized runId fault).tables =
          s.tables.claimed (tickArgs pass.now runId id task expected nextRun) row := by
  cases authorized with
  | false => exact .inl rfl
  | true =>
    simp only [System.claimTask, if_true]
    cases hcursor : task.nextRun with
    | none => exact .inl rfl
    | some expected =>
      cases hnext : tickNextRun cal pass.now task with
      | none => exact .inl rfl
      | some nextRun =>
        simp only [afterClaim_tables]
        rcases claimDueTaskRun_cases (tickArgs pass.now runId id task expected nextRun) fault
          s.tables with hsame | ⟨row, hdue, hfresh, hclaimed⟩
        · exact .inl hsame
        · exact .inr ⟨expected, nextRun, row, rfl, rfl, hdue, hfresh, hclaimed⟩

theorem claimTask_ticks :
    (s.claimTask cal i pass id task rest authorized runId fault).ticks =
      s.ticks.set i { pass with rest := rest } := by
  cases authorized with
  | false => rfl
  | true =>
    simp only [System.claimTask, if_true]
    split
    · exact afterClaim_ticks ..
    · rfl

theorem claimTask_frame :
    let s' := s.claimTask cal i pass id task rest authorized runId fault
    s'.now = s.now ∧ s'.withdrawn = s.withdrawn := by
  cases authorized with
  | false => exact ⟨rfl, rfl⟩
  | true =>
    simp only [System.claimTask, if_true]
    split
    · exact afterClaim_frame ..
    · exact ⟨rfl, rfl⟩

end OpenAgent.Scheduler
