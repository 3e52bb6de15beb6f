import OpenAgent.Lib.Dict
import OpenAgent.Lib.Transaction
import OpenAgent.Scheduler.Expressions

/-!
# Scheduled tasks and their runs

The tables `scheduled_tasks` and `task_runs`. Claiming a due task advances its cursor and opens its run
row in one transaction, guarded by the cursor that the claimant read; every other writer of the cursor
writes it without a guard.
-/

namespace OpenAgent.Scheduler

open Lib Option

structure Task where
  cronExpression : String
  timezone : Option String := none
  enabled : Bool := true
  lastRun : Option Int := none
  nextRun : Option Int
deriving DecidableEq

inductive Trigger
  | schedule | other
deriving DecidableEq

inductive RunStatus
  | running | finished
deriving DecidableEq

structure TaskRun where
  taskId : String
  trigger : Trigger
  status : RunStatus
  startedAt : Int
deriving DecidableEq

/-- One advance of a task by a claim: the due value that was claimed, and when it fired. -/
structure Advance where
  runId : String
  taskId : String
  occurrence : Int
  firedAt : Int
deriving DecidableEq

/-- `advances` is the history of the claims that were committed. -/
structure Tables where
  tasks : Dict String Task
  runs : Dict String TaskRun := .empty
  advances : List Advance := []

inductive ClaimError
  | locked | integrity
deriving DecidableEq

/-- Where a claim fails: before it has the write lock, between its two writes, when it commits, or after
it has committed. -/
inductive Fault
  | begin | insert | commit | reply
deriving DecidableEq

def Task.advance (task : Task) (firedAt : Int) (nextRun : Option Int) (disable : Bool) : Task :=
  { task with lastRun := some firedAt, nextRun := nextRun, enabled := !disable }

/-- The arguments of `claim_due_task_run`. -/
structure ClaimArgs where
  taskId : String
  expectedNextRun : Int
  firedAt : Int
  nextRun : Option Int
  disable : Bool
  runId : String

/-- The row that the `UPDATE` of a claim matches. -/
def Tables.dueRow (t : Tables) (args : ClaimArgs) : Option Task :=
  (t.tasks.get? args.taskId).filter fun row => row.enabled && row.nextRun = some args.expectedNextRun

def Tables.advanceTask (t : Tables) (args : ClaimArgs) (row : Task) : Tables :=
  { t with
    tasks := t.tasks.set args.taskId (row.advance args.firedAt args.nextRun args.disable)
    advances := t.advances ++ [⟨args.runId, args.taskId, args.expectedNextRun, args.firedAt⟩] }

/-- `INSERT INTO task_runs` -/
def openRun (args : ClaimArgs) : Tx Tables ClaimError Unit := do
  let t ← get
  Tx.raiseIf (t.runs.contains args.runId = true) .integrity
  set { t with runs := t.runs.set args.runId ⟨args.taskId, .schedule, .running, args.firedAt⟩ }

def claimBody (args : ClaimArgs) (fault : Option Fault) : Tx Tables ClaimError Bool := do
  Tx.raiseIf (fault = some .begin) .locked
  let t ← get
  match t.dueRow args with
  | none => pure false
  | some row =>
    set (t.advanceTask args row)
    Tx.raiseIf (fault = some .insert) .locked
    openRun args
    Tx.raiseIf (fault = some .commit) .locked
    pure true

/-- `claim_due_task_run`; a claim that fails after its commit has taken effect all the same. -/
def claimDueTaskRun (args : ClaimArgs) (fault : Option Fault) (t : Tables) :
    Except ClaimError Bool × Tables :=
  let (result, t') := atomically (claimBody args fault) t
  if fault = some .reply then (.error .locked, t') else (result, t')

variable {args : ClaimArgs}

theorem dueRow_eq_some {t : Tables} {row : Task} :
    t.dueRow args = some row ↔ t.tasks.get? args.taskId = some row ∧ row.enabled = true ∧
      row.nextRun = some args.expectedNextRun := by
  simp [Tables.dueRow, filter_eq_some_iff]

def Tables.claimed (t : Tables) (args : ClaimArgs) (row : Task) : Tables :=
  { t.advanceTask args row with
    runs := t.runs.set args.runId ⟨args.taskId, .schedule, .running, args.firedAt⟩ }

theorem openRun_ok {t : Tables} {r : Unit × Tables} :
    openRun args t = .ok r ↔ t.runs.get? args.runId = none ∧
      r = ((), { t with runs := t.runs.set args.runId ⟨args.taskId, .schedule, .running, args.firedAt⟩ }) := by
  rw [openRun, Tx.get_bind, Tx.raiseIf_bind_ok, Tx.set_ok, Bool.not_eq_true, Dict.contains,
    isSome_eq_false_iff, isNone_iff_eq_none]

/-- Both or neither: a claim leaves the tables as they were, or it found the task enabled at the
expected cursor, advanced it and opened a new run. -/
theorem claimBody_ok {fault : Option Fault} {t t' : Tables} {claimed : Bool}
    (h : claimBody args fault t = .ok (claimed, t')) :
    claimed = false ∧ t' = t ∧ t.dueRow args = none ∨
      claimed = true ∧ ∃ row, t.dueRow args = some row ∧ t.runs.get? args.runId = none ∧
        t' = t.claimed args row := by
  rw [claimBody, Tx.raiseIf_bind_ok, Tx.get_bind] at h
  obtain ⟨-, hbody⟩ := h
  cases hdue : t.dueRow args with
  | none =>
    rw [hdue] at hbody
    cases Tx.pure_ok.mp hbody
    exact .inl ⟨rfl, rfl, rfl⟩
  | some row =>
    simp only [hdue] at hbody
    rw [Tx.set_bind, Tx.raiseIf_bind_ok] at hbody
    obtain ⟨-, hopen⟩ := hbody
    obtain ⟨_, u, hrun, hrest⟩ := Tx.bind_ok.mp hopen
    obtain ⟨hfresh, hu⟩ := openRun_ok.mp hrun
    cases hu
    rw [Tx.raiseIf_bind_ok] at hrest
    cases Tx.pure_ok.mp hrest.2
    exact .inr ⟨rfl, row, rfl, hfresh, rfl⟩

theorem claimDueTaskRun_cases (args : ClaimArgs) (fault : Option Fault) (t : Tables) :
    (claimDueTaskRun args fault t).2 = t ∨ ∃ row, t.dueRow args = some row ∧
      t.runs.get? args.runId = none ∧ (claimDueTaskRun args fault t).2 = t.claimed args row := by
  have htables : (claimDueTaskRun args fault t).2 = (atomically (claimBody args fault) t).2 := by
    rw [claimDueTaskRun]
    dsimp only
    split <;> rfl
  rw [htables]
  rcases atomically_cases (claimBody args fault) t with ⟨claimed, t', hbody, hatomic⟩ | ⟨e, -, hatomic⟩
  · rw [hatomic]
    rcases claimBody_ok hbody with ⟨-, rfl, -⟩ | ⟨-, row, hdue, hfresh, rfl⟩
    · exact .inl rfl
    · exact .inr ⟨row, hdue, hfresh, rfl⟩
  · rw [hatomic]
    exact .inl rfl

end OpenAgent.Scheduler
