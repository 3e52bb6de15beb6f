import OpenAgent.Lib.Dict
import OpenAgent.Lib.Text
import OpenAgent.Scheduler.Expressions
import OpenAgent.Scheduler.Requests

/-!
# Automatic retries

A firing that failed for a passing reason, and before it touched anything, is requested again after a
delay. How often that was done already is written into the trigger of the request, which the next run
takes over: `automatic-retry`, the number of the attempt and the run that failed first. The functions
here are the parts of the retry logic between its reads and writes of the database.
-/

namespace OpenAgent.Scheduler.Retries

open Lib (Dict clip)

/-- What the retry logic takes from elsewhere: `int` of a text, which reads what `str` of a number gives,
`str.strip`, the classifier of provider failures, and the way an instant is written. -/
structure Python where
  int : String → Option Int
  int_str : ∀ n : Nat, int (toString n) = some (n : Int)
  strip : String → String
  transient : String → Bool
  unix : Int → String

inductive Status
  | running | cancelling | success | failed | cancelled
deriving DecidableEq

structure Task where
  cronExpression : String
  enabled : Bool := true
deriving DecidableEq

structure TaskRun where
  taskId : String
  trigger : String
  status : Status := .running
  error : Option String := none
  sessionId : Option String := none
deriving DecidableEq

/-- The columns of `tool_invocations` that tell which firing a call belongs to. -/
structure Invocation where
  taskRunId : Option String := none
  rootKind : String
  rootId : String
  sessionId : Option String := none
deriving DecidableEq

structure Tables where
  tasks : Dict String Task := .empty
  runs : Dict String TaskRun := .empty
  requests : List Request := []
  invocations : List Invocation := []

/-! ### The trigger of a retry -/

/-- `_TASK_RETRY_TRIGGER_PREFIX` -/
def retryTriggerWord : String := "automatic-retry"

def retryTrigger (attempt : Nat) (rootRunId : String) : String :=
  retryTriggerWord ++ ":" ++ toString attempt ++ ":" ++ rootRunId

/-- `text.split(":", 2)`, if it has three parts. -/
def splitThree (text : List Char) : Option (List Char × List Char × List Char) :=
  match text.dropWhile (· ≠ ':') with
  | [] => none
  | _ :: rest =>
    match rest.dropWhile (· ≠ ':') with
    | [] => none
    | _ :: last => some (text.takeWhile (· ≠ ':'), rest.takeWhile (· ≠ ':'), last)

/-- `_parse_task_retry_trigger` -/
def parseTaskRetryTrigger (py : Python) (trigger : String) : Nat × Option String :=
  if (retryTriggerWord ++ ":").toList.isPrefixOf trigger.toList then
    match splitThree trigger.toList with
    | none => (0, none)
    | some (_, number, root) =>
      match py.int (String.ofList number) with
      | none => (0, none)
      | some attempt => if 0 < attempt ∧ root ≠ [] then (attempt.toNat, some (String.ofList root)) else (0, none)
  else (0, none)

theorem splitThree_joined {a b : List Char} (ha : ':' ∉ a) (hb : ':' ∉ b) (c : List Char) :
    splitThree (a ++ ':' :: (b ++ ':' :: c)) = some (a, b, c) := by
  have hdrop : ∀ {w : List Char} (rest : List Char), ':' ∉ w →
      (w ++ ':' :: rest).dropWhile (· ≠ ':') = ':' :: rest ∧ (w ++ ':' :: rest).takeWhile (· ≠ ':') = w := by
    intro w rest hw
    have hall : ∀ c ∈ w, decide (c ≠ ':') = true := fun c hc => decide_eq_true fun h => hw (h ▸ hc)
    rw [List.dropWhile_append_of_pos hall, List.takeWhile_append_of_pos hall]
    simp
  obtain ⟨hfirst, hword⟩ := hdrop (b ++ ':' :: c) ha
  obtain ⟨hsecond, hnumber⟩ := hdrop c hb
  rw [splitThree, hfirst]
  dsimp only
  rw [hsecond, hword, hnumber]

theorem parse_retryTrigger (py : Python) {attempt : Nat} (hattempt : 0 < attempt) {root : String}
    (hroot : root ≠ "") : parseTaskRetryTrigger py (retryTrigger attempt root) = (attempt, some root) := by
  have hdigits : ':' ∉ (toString attempt).toList := by
    intro hmem
    rw [Nat.toString_eq_ofList_toDigits, String.toList_ofList] at hmem
    exact absurd (Nat.isDigit_of_mem_toDigits (by decide) (by decide) hmem) (by decide)
  have htext : (retryTrigger attempt root).toList =
      retryTriggerWord.toList ++ ':' :: ((toString attempt).toList ++ ':' :: root.toList) := by
    simp [retryTrigger, String.toList_append]
  have hfront : (retryTriggerWord ++ ":").toList.isPrefixOf (retryTrigger attempt root).toList = true := by
    rw [List.isPrefixOf_iff_prefix, htext]
    exact ⟨(toString attempt).toList ++ ':' :: root.toList, by simp [String.toList_append]⟩
  have hne : root.toList ≠ [] := fun h => hroot (String.toList_eq_nil_iff.mp h)
  rw [parseTaskRetryTrigger, if_pos hfront, htext, splitThree_joined (by decide) hdigits]
  dsimp only
  rw [String.ofList_toList, String.ofList_toList, py.int_str]
  dsimp only
  rw [if_pos ⟨by exact_mod_cast hattempt, hne⟩, Int.toNat_natCast]

inductive Cause
  | schedule | manual | ai | event | restart
deriving DecidableEq

def Cause.text : Cause → String
  | .schedule => "schedule"
  | .manual => "manual"
  | .ai => "ai"
  | .event => "event"
  | .restart => "restart-requeue"

theorem parse_cause (py : Python) (cause : Cause) : parseTaskRetryTrigger py cause.text = (0, none) := by
  cases cause <;> exact if_neg (by decide)

/-! ### The parts of a retry decision -/

/-- `task_run_has_tool_activity`; `failed` when the query does. -/
def taskRunHasToolActivity (t : Tables) (runId : String) (failed : Bool) : Bool :=
  if runId = "" || failed then true
  else
    match t.runs.get? runId with
    | none => true
    | some run => t.invocations.any fun row =>
      row.taskRunId = some runId || (row.rootKind = "scheduled_run" && row.rootId = runId) ||
        (run.sessionId.isSome && row.sessionId = run.sessionId)

/-- What `_maybe_schedule_task_retry` asks of the failure itself. -/
def retryable (py : Python) (delays : List Int) (task : Task) (run : TaskRun) : Bool :=
  let error := py.strip (run.error.getD "")
  run.status = .failed && delays ≠ [] && !isOneShotExpression task.cronExpression && error ≠ "" &&
    py.transient error

structure Next where
  attempt : Nat
  root : String
  delay : Int
deriving DecidableEq

def nextAttempt (py : Python) (delays : List Int) (runId : String) (run : TaskRun) : Option Next :=
  let (attempt, rootRunId) := parseTaskRetryTrigger py run.trigger
  let root := rootRunId.getD runId
  if root = "" then none else delays[attempt]?.map fun delay => ⟨attempt + 1, root, delay⟩

def Next.request (next : Next) (taskId : String) (at_ : Int) : Enqueued where
  taskId
  trigger := retryTrigger next.attempt next.root
  notBefore := some (at_ + next.delay)
  deduplicate := true

def retryNote (py : Python) (delays : List Int) (run : TaskRun) (next : Next) (notBefore : Int) : String :=
  clip 4000 (py.strip (run.error.getD "") ++ " | automatic retry " ++ toString next.attempt ++ "/" ++
    toString delays.length ++ " queued for unix=" ++ py.unix notBefore)

end OpenAgent.Scheduler.Retries
