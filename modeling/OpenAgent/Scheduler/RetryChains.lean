import Mathlib.Data.List.Perm.Basic
import OpenAgent.Lib.Transition
import OpenAgent.Scheduler.Retries

/-!
# Chains of retries

Firings, requests, claims and the handlers of failed runs, interleaved in any order: a handler reads the
run that its dispatch opened, looks for tool activity, reads the task again and asks the queue for the
next attempt, and between any two of these the rest of the system moves on. The history, which no step
reads, keeps which task a run or a request was made for, which runs were found without tool activity, and
which run each retry was queued for.
-/

namespace OpenAgent.Scheduler.Retries

open List

open Lib (Dict)

/-! ### The system -/

/-- A retry that entered the queue: its request, the run that it retries, and the time of the decision. -/
structure Retry where
  request : String
  cause : String
  next : Next
  decidedAt : Int
deriving DecidableEq

structure History where
  runs : Dict String String := .empty
  requests : Dict String String := .empty
  clears : List String := []
  retries : List Retry := []

inductive Source
  | cron (runId : String)
  | requested (requestId trigger : String)
deriving DecidableEq

/-- Where `_run_preclaimed_task`, `_run_requested_task` or the retry decision they enter stands. -/
inductive Stage
  | executing
  | judging (runId : String) (run : TaskRun)
  | cleared (runId : String) (run : TaskRun)
  | queueing (runId : String) (run : TaskRun) (next : Next)
  | noting (runId : String) (run : TaskRun) (next : Next) (notBefore : Int)
deriving DecidableEq

structure Dispatch where
  taskId : String
  task : Task
  source : Source
  stage : Stage := .executing
deriving DecidableEq

structure State where
  tables : Tables
  dispatches : List Dispatch := []
  history : History := {}

/-- The arguments of `update_task_run`; what is absent stays. -/
structure Update where
  status : Option Status := none
  error : Option String := none
  sessionId : Option String := none

/-- `update_task_run`: what was flagged for a stop only becomes cancelled. -/
def TaskRun.update (run : TaskRun) (u : Update) : TaskRun :=
  if run.status = .cancelling ∧ u.status.any (· ≠ .cancelled) then run
  else
    { run with
      status := u.status.getD run.status
      error := u.error.or run.error
      sessionId := u.sessionId.or run.sessionId }

inductive Label
  | fire (taskId runId : String) (sessionId : Option String)
  | request (id taskId : String) (cause : Cause) (now : Int)
  | claim (now : Int) (definitionIds : Option (List String)) (limit : Nat)
  | opened (i : Nat) (runId : String) (sessionId : Option String) (linked : Bool)
  | direct (taskId runId : String) (cause : Cause) (sessionId request : Option String)
  | update (runId : String) (u : Update)
  | invoke (row : Invocation)
  | editTask (taskId : String) (task : Task)
  | deleteTask (taskId : String)
  | prune (runId : String)
  | finish (i : Nat)
  | judge (i : Nat) (failed : Bool)
  | reread (i : Nat)
  | enqueue (i : Nat) (decidedAt now : Int) (id : String)
  | note (i : Nat)
  | crash

def Label.handler : Label → Option Nat
  | .opened i _ _ _ | .finish i | .judge i _ | .reread i | .enqueue i _ _ _ | .note i => some i
  | _ => none

def State.openRun (s : State) (taskId runId : String) (run : TaskRun) (request : Option String) : State :=
  { s with
    tables :=
      { s.tables with
        runs := s.tables.runs.set runId run
        requests := (request.map fun id => setTaskRequestRunId s.tables.requests id runId).getD s.tables.requests }
    history := { s.history with runs := s.history.runs.set runId taskId } }

def dispatchesOf (tasks : Dict String Task) (claimed : List Request) : List Dispatch :=
  claimed.filterMap fun q =>
    (tasks.get? q.taskId).map fun task => ⟨q.taskId, task, .requested q.id q.trigger, .executing⟩

def State.setStage (s : State) (i : Nat) (d : Dispatch) (stage : Stage) : State :=
  { s with dispatches := s.dispatches.set i { d with stage } }

def State.drop (s : State) (i : Nat) : State := { s with dispatches := s.dispatches.eraseIdx i }

def State.runOf (s : State) : Source → Option String
  | .cron runId => some runId
  | .requested requestId _ => (s.tables.requests.find? fun q : Request => q.id = requestId).bind (·.runId)

def State.readBack (s : State) (d : Dispatch) : Option (String × TaskRun) :=
  (s.runOf d.source).bind fun id => (s.tables.runs.get? id).map fun run => (id, run)

variable (py : Python) (delays : List Int)

def entersRetry (d : Dispatch) (run : TaskRun) : Bool :=
  run.status = .failed &&
    match d.source with
    | .cron _ => true
    | .requested _ trigger => 0 < (parseTaskRetryTrigger py trigger).1

/-- A step of the handler at `i`. -/
def State.handle (s : State) (i : Nat) (d : Dispatch) : Label → Option State
  | .opened _ runId sessionId linked =>
    match d.stage, d.source with
    | .executing, .requested requestId trigger =>
      if s.history.runs.contains runId then none
      else some (s.openRun d.taskId runId { taskId := d.taskId, trigger, sessionId }
        (if linked then some requestId else none))
    | _, _ => none
  | .finish _ =>
    if d.stage = .executing then
      match s.readBack d with
      | some (runId, run) =>
        if entersRetry py d run then some (s.setStage i d (.judging runId run)) else some (s.drop i)
      | none => some (s.drop i)
    else none
  | .judge _ failed =>
    match d.stage with
    | .judging runId run =>
      if retryable py delays d.task run && !taskRunHasToolActivity s.tables runId failed then
        some { s.setStage i d (.cleared runId run) with
          history := { s.history with clears := s.history.clears ++ [runId] } }
      else some (s.drop i)
    | _ => none
  | .reread _ =>
    match d.stage with
    | .cleared runId run =>
      if (s.tables.tasks.get? d.taskId).any (·.enabled) then
        match nextAttempt py delays runId run with
        | some next => some (s.setStage i d (.queueing runId run next))
        | none => some (s.drop i)
      else some (s.drop i)
    | _ => none
  | .enqueue _ decidedAt now id =>
    match d.stage with
    | .queueing runId run next =>
      if s.history.requests.contains id then none
      else
        let entered := enqueueTaskRunRequest s.tables.requests id now (next.request d.taskId decidedAt)
        let moved := s.setStage i d (.noting runId run next (decidedAt + next.delay))
        if entered.1 = id then
          some { moved with
            tables := { s.tables with requests := entered.2 }
            history :=
              { s.history with
                requests := s.history.requests.set id d.taskId
                retries := s.history.retries ++ [⟨id, runId, next, decidedAt⟩] } }
        else some moved
    | _ => none
  | .note _ =>
    match d.stage with
    | .noting runId run next notBefore =>
      some { s.drop i with
        tables :=
          { s.tables with
            runs := s.tables.runs.update runId fun row =>
              row.update { error := some (retryNote py delays run next notBefore) } } }
    | _ => none
  | _ => none

def step (s : State) : Label → Option State
  | .fire taskId runId sessionId =>
    match s.tables.tasks.get? taskId with
    | some task =>
      if task.enabled ∧ ¬ s.history.runs.contains runId then
        let opened := s.openRun taskId runId { taskId, trigger := Cause.schedule.text, sessionId } none
        some { opened with dispatches := s.dispatches ++ [⟨taskId, task, .cron runId, .executing⟩] }
      else none
    | none => none
  | .request id taskId cause now =>
    if s.history.requests.contains id then none
    else some
      { s with
        tables :=
          { s.tables with
            requests := (enqueueTaskRunRequest s.tables.requests id now
              { taskId, trigger := cause.text }).2 }
        history := { s.history with requests := s.history.requests.set id taskId } }
  | .claim now definitionIds limit =>
    let (claimed, requests) := claimAuthorizedRequests s.tables.requests now definitionIds limit
    some
      { s with
        tables := { s.tables with requests }
        dispatches := s.dispatches ++ dispatchesOf s.tables.tasks claimed }
  | .direct taskId runId cause sessionId request =>
    if s.history.runs.contains runId ∨ ¬ request.all (s.history.requests.get? · = some taskId) then none
    else some (s.openRun taskId runId { taskId, trigger := cause.text, sessionId } request)
  | .update runId u => some { s with tables := { s.tables with runs := s.tables.runs.update runId (·.update u) } }
  | .invoke row => some { s with tables := { s.tables with invocations := s.tables.invocations ++ [row] } }
  | .editTask taskId task =>
    some { s with tables := { s.tables with tasks := s.tables.tasks.set taskId task } }
  | .deleteTask taskId => some
      { s with
        tables :=
          { s.tables with
            tasks := s.tables.tasks.pop taskId
            runs := s.tables.runs.filter fun _ run => run.taskId ≠ taskId
            requests := s.tables.requests.filter fun q => q.taskId ≠ taskId } }
  | .prune runId => some { s with tables := { s.tables with runs := s.tables.runs.pop runId } }
  | .crash => some { s with dispatches := [] }
  | label => do
      let i ← label.handler
      let d ← s.dispatches[i]?
      s.handle py delays i d label

/-! ### What holds of every part -/

def Told (h : History) (taskId trigger : String) : Prop :=
  (∃ cause : Cause, trigger = cause.text) ∨
    ∃ attempt root, 0 < attempt ∧ attempt ≤ delays.length ∧ root ≠ "" ∧ trigger = retryTrigger attempt root ∧
      h.runs.get? root = some taskId

structure RunOk (h : History) (runId : String) (run : TaskRun) : Prop where
  told : Told delays h run.taskId run.trigger
  owner : h.runs.get? runId = some run.taskId

structure NextOk (h : History) (taskId : String) (next : Next) : Prop where
  positive : 0 < next.attempt
  delay : delays[next.attempt - 1]? = some next.delay
  named : next.root ≠ ""
  owner : h.runs.get? next.root = some taskId

structure RetryOk (h : History) (retry : Retry) : Prop where
  clear : retry.cause ∈ h.clears
  delay : delays[retry.next.attempt - 1]? = some retry.next.delay

structure RequestOk (h : History) (q : Request) : Prop where
  told : Told delays h q.taskId q.trigger
  owner : h.requests.get? q.id = some q.taskId
  linked : ∀ runId, q.runId = some runId → h.runs.get? runId = some q.taskId
  claimed : ∀ claimedAt, q.claimedAt = some claimedAt → q.createdAt ≤ claimedAt
  decided : ∀ attempt root, parseTaskRetryTrigger py q.trigger = (attempt, some root) →
    ∃ retry ∈ h.retries, retry.request = q.id ∧ retry.next.attempt = attempt ∧
      retry.decidedAt + retry.next.delay ≤ q.createdAt

def StageOk (h : History) (taskId : String) : Stage → Prop
  | .executing | .noting .. => True
  | .judging runId run => RunOk delays h runId run ∧ run.taskId = taskId
  | .cleared runId run => RunOk delays h runId run ∧ run.taskId = taskId ∧ runId ∈ h.clears
  | .queueing runId _ next => runId ∈ h.clears ∧ NextOk delays h taskId next

def SourceOk (h : History) (taskId : String) : Source → Prop
  | .cron runId => h.runs.get? runId = some taskId
  | .requested requestId trigger => h.requests.get? requestId = some taskId ∧ Told delays h taskId trigger

structure DispatchOk (h : History) (d : Dispatch) : Prop where
  source : SourceOk delays h d.taskId d.source
  stage : StageOk delays h d.taskId d.stage

def Apart (a b : Request) : Prop :=
  ∀ attempt root, parseTaskRetryTrigger py a.trigger = (attempt, some root) →
    parseTaskRetryTrigger py b.trigger ≠ (attempt, some root)

structure Inv (s : State) : Prop where
  requests : ∀ q ∈ s.tables.requests, RequestOk py delays s.history q
  runs : ∀ runId run, s.tables.runs.get? runId = some run → RunOk delays s.history runId run
  dispatches : ∀ d ∈ s.dispatches, DispatchOk delays s.history d
  retries : ∀ retry ∈ s.history.retries, RetryOk delays s.history retry
  ids : (s.tables.requests.map (·.id)).Nodup
  apart : s.tables.requests.Pairwise (Apart py)

/-! ### The history only grows -/

structure History.Extends (h h' : History) : Prop where
  runs : ∀ id taskId, h.runs.get? id = some taskId → h'.runs.get? id = some taskId
  requests : ∀ id taskId, h.requests.get? id = some taskId → h'.requests.get? id = some taskId
  clears : ∀ id ∈ h.clears, id ∈ h'.clears
  retries : ∀ retry ∈ h.retries, retry ∈ h'.retries

section

variable {py delays} {h h' : History}

variable {id runId taskId : String}

theorem Told.mono {trigger : String} (htold : Told delays h taskId trigger) (hext : h.Extends h') :
    Told delays h' taskId trigger := by
  rcases htold with hcause | ⟨attempt, root, hpos, hle, hne, heq, howner⟩
  · exact .inl hcause
  · exact .inr ⟨attempt, root, hpos, hle, hne, heq, hext.runs _ _ howner⟩

theorem RunOk.mono {run : TaskRun} (hok : RunOk delays h runId run) (hext : h.Extends h') :
    RunOk delays h' runId run :=
  ⟨hok.told.mono hext, hext.runs _ _ hok.owner⟩

theorem NextOk.mono {next : Next} (hok : NextOk delays h taskId next) (hext : h.Extends h')
    : NextOk delays h' taskId next :=
  ⟨hok.positive, hok.delay, hok.named, hext.runs _ _ hok.owner⟩

theorem RetryOk.mono {retry : Retry} (hok : RetryOk delays h retry) (hext : h.Extends h') :
    RetryOk delays h' retry :=
  ⟨hext.clears _ hok.clear, hok.delay⟩

theorem RequestOk.mono {q : Request} (hok : RequestOk py delays h q) (hext : h.Extends h') :
    RequestOk py delays h' q where
  told := hok.told.mono hext
  owner := hext.requests _ _ hok.owner
  linked runId hrun := hext.runs _ _ (hok.linked runId hrun)
  claimed := hok.claimed
  decided attempt root hparse := by
    obtain ⟨retry, hmem, hrest⟩ := hok.decided attempt root hparse
    exact ⟨retry, hext.retries _ hmem, hrest⟩

theorem DispatchOk.mono {d : Dispatch} (hok : DispatchOk delays h d) (hext : h.Extends h') :
    DispatchOk delays h' d := by
  obtain ⟨hsource, hstage⟩ := hok
  constructor
  · cases hsrc : d.source with
    | cron runId =>
      rw [hsrc] at hsource
      exact hext.runs _ _ hsource
    | requested requestId trigger =>
      rw [hsrc] at hsource
      exact ⟨hext.requests _ _ hsource.1, hsource.2.mono hext⟩
  · cases hst : d.stage with
    | executing => trivial
    | noting => trivial
    | judging runId run =>
      rw [hst] at hstage
      exact ⟨hstage.1.mono hext, hstage.2⟩
    | cleared runId run =>
      rw [hst] at hstage
      exact ⟨hstage.1.mono hext, hstage.2.1, hext.clears _ hstage.2.2⟩
    | queueing runId run next =>
      rw [hst] at hstage
      exact ⟨hext.clears _ hstage.1, hstage.2.mono hext⟩

theorem extends_run {h : History} (hfresh : h.runs.get? runId = none) (taskId : String) :
    h.Extends { h with runs := h.runs.set runId taskId } := by
  refine ⟨fun id owner hid => ?_, fun _ _ hid => hid, fun _ hid => hid, fun _ hid => hid⟩
  by_cases heq : id = runId
  · simp [heq, hfresh] at hid
  · rw [Dict.get?_set_ne _ _ heq, hid]

theorem extends_request {h : History} (hfresh : h.requests.get? id = none) (taskId : String)
    (retries : List Retry) :
    h.Extends { h with requests := h.requests.set id taskId, retries := h.retries ++ retries } := by
  refine ⟨fun _ _ hid => hid, fun other owner hid => ?_, fun _ hid => hid,
    fun _ hid => mem_append_left _ hid⟩
  by_cases heq : other = id
  · simp [heq, hfresh] at hid
  · rw [Dict.get?_set_ne _ _ heq, hid]

theorem Told.parse {trigger : String} (htold : Told delays h taskId trigger) {attempt : Nat} {root : String}
    (hparse : parseTaskRetryTrigger py trigger = (attempt, some root)) :
    0 < attempt ∧ attempt ≤ delays.length ∧ trigger = retryTrigger attempt root ∧
      h.runs.get? root = some taskId := by
  rcases htold with ⟨cause, rfl⟩ | ⟨k, r, hpos, hle, hne, rfl, howner⟩
  · rw [parse_cause] at hparse
    simp at hparse
  · rw [parse_retryTrigger py hpos hne] at hparse
    obtain ⟨rfl, hroot⟩ := Prod.mk.inj hparse
    cases hroot
    exact ⟨hpos, hle, rfl, howner⟩

theorem nextOk_of_nextAttempt {run : TaskRun} {next : Next} (hok : RunOk delays h runId run)
    (hnext : nextAttempt py delays runId run = some next) : NextOk delays h run.taskId next := by
  rw [nextAttempt] at hnext
  dsimp only at hnext
  split at hnext
  · cases hnext
  · rename_i hne
    obtain ⟨delay, hdelay, rfl⟩ := Option.map_eq_some_iff.mp hnext
    refine ⟨Nat.succ_pos _, hdelay, hne, ?_⟩
    rcases hok.told with ⟨cause, hcause⟩ | ⟨k, r, hpos, -, hroot, htrigger, howner⟩
    · rw [hcause, parse_cause]
      exact hok.owner
    · rw [htrigger, parse_retryTrigger py hpos hroot]
      exact howner

/-! ### Every step keeps the invariant -/

variable {s : State}

theorem RequestOk.link {q : Request} (hok : RequestOk py delays h q) {requestId : String}
    (howner : q.id = requestId → h.runs.get? runId = some q.taskId) :
    RequestOk py delays h (if q.id = requestId then { q with runId := some runId } else q) := by
  split
  · rename_i hid
    refine ⟨hok.told, hok.owner, fun r hr => ?_, hok.claimed, hok.decided⟩
    cases hr
    exact howner hid
  · exact hok

theorem link_same (q : Request) (requestId runId : String) :
    (if q.id = requestId then { q with runId := some runId } else q).id = q.id ∧
      (if q.id = requestId then { q with runId := some runId } else q).trigger = q.trigger := by
  split <;> exact ⟨rfl, rfl⟩

theorem Inv.openRun (hinv : Inv py delays s) (hfresh : s.history.runs.get? runId = none) (run : TaskRun)
    (request : Option String) (htask : run.taskId = taskId)
    (htold : Told delays s.history taskId run.trigger)
    (hrequest : ∀ id, request = some id → s.history.requests.get? id = some taskId) :
    Inv py delays (s.openRun taskId runId run request) := by
  have hext := extends_run hfresh taskId
  have hself : ({ s.history with runs := s.history.runs.set runId taskId } : History).runs.get? runId = some taskId :=
    Dict.get?_set_self _ _ _
  have hrequests : (∀ q ∈ (s.openRun taskId runId run request).tables.requests,
        RequestOk py delays (s.openRun taskId runId run request).history q) ∧
      ((s.openRun taskId runId run request).tables.requests.map (·.id)).Nodup ∧
      (s.openRun taskId runId run request).tables.requests.Pairwise (Apart py) := by
    cases request with
    | none => exact ⟨fun q hq => (hinv.requests q hq).mono hext, hinv.ids, hinv.apart⟩
    | some requestId =>
      show (∀ q ∈ setTaskRequestRunId s.tables.requests requestId runId, _) ∧
        ((setTaskRequestRunId s.tables.requests requestId runId).map (·.id)).Nodup ∧
          (setTaskRequestRunId s.tables.requests requestId runId).Pairwise (Apart py)
      rw [setTaskRequestRunId]
      refine ⟨fun q hq => ?_, ?_, ?_⟩
      · obtain ⟨old, hold, rfl⟩ := List.mem_map.mp hq
        have hok := hinv.requests old hold
        refine (hok.mono hext).link fun hid => ?_
        have howner := hrequest requestId rfl
        rw [← hid, hok.owner] at howner
        rw [Option.some.inj howner]
        exact hself
      · rw [map_map]
        have hsame : ((fun q : Request => q.id) ∘ fun q : Request =>
            if q.id = requestId then { q with runId := some runId } else q) = fun q => q.id := by
          funext q
          exact (link_same q requestId runId).1
        rw [hsame]
        exact hinv.ids
      · rw [pairwise_map]
        refine hinv.apart.imp fun {a b} hab => ?_
        rw [Apart, (link_same a requestId runId).2, (link_same b requestId runId).2]
        exact hab
  refine ⟨hrequests.1, fun id row hrow => ?_, fun d hd => (hinv.dispatches d hd).mono hext,
    fun retry hretry => (hinv.retries retry hretry).mono hext, hrequests.2.1, hrequests.2.2⟩
  have hget : (s.tables.runs.set runId run).get? id = some row := hrow
  rw [Dict.get?_set] at hget
  split at hget
  · rename_i hid
    cases hget
    refine ⟨?_, ?_⟩
    · rw [htask]
      exact htold.mono hext
    · rw [htask, hid]
      exact hself
  · exact (hinv.runs id row hget).mono hext

theorem Inv.withDispatches (hinv : Inv py delays s) {dispatches : List Dispatch}
    (h : ∀ d ∈ dispatches, DispatchOk delays s.history d) : Inv py delays { s with dispatches } :=
  ⟨hinv.requests, hinv.runs, h, hinv.retries, hinv.ids, hinv.apart⟩

theorem Inv.drop (hinv : Inv py delays s) (i : Nat) : Inv py delays (s.drop i) :=
  hinv.withDispatches fun d hd => hinv.dispatches d (mem_of_mem_eraseIdx hd)

theorem Inv.setStage (hinv : Inv py delays s) {i : Nat} {d : Dispatch} (hd : s.dispatches[i]? = some d)
    {stage : Stage} (h : StageOk delays s.history d.taskId stage) : Inv py delays (s.setStage i d stage) := by
  refine hinv.withDispatches fun e he => ?_
  rcases mem_or_eq_of_mem_set he with hold | rfl
  · exact hinv.dispatches e hold
  · exact ⟨(hinv.dispatches d (mem_of_getElem? hd)).source, h⟩

theorem Inv.withRuns (hinv : Inv py delays s) {runs : Dict String TaskRun}
    (h : ∀ runId run, runs.get? runId = some run → ∃ old, s.tables.runs.get? runId = some old ∧
      run.taskId = old.taskId ∧ run.trigger = old.trigger) :
    Inv py delays { s with tables := { s.tables with runs } } := by
  refine ⟨hinv.requests, fun runId run hrun => ?_, hinv.dispatches, hinv.retries, hinv.ids, hinv.apart⟩
  obtain ⟨old, hold, htask, htrigger⟩ := h runId run hrun
  obtain ⟨htold, howner⟩ := hinv.runs runId old hold
  exact ⟨by rw [htask, htrigger]; exact htold, by rw [htask]; exact howner⟩

theorem update_same (run : TaskRun) (u : Update) :
    (run.update u).taskId = run.taskId ∧ (run.update u).trigger = run.trigger := by
  rw [TaskRun.update]
  split <;> exact ⟨rfl, rfl⟩

theorem Inv.updateRun (hinv : Inv py delays s) (runId : String) (u : Update) :
    Inv py delays { s with tables := { s.tables with runs := s.tables.runs.update runId (·.update u) } } := by
  refine hinv.withRuns fun id run hrun => ?_
  rw [Dict.get?_update] at hrun
  split at hrun
  · rename_i hid
    obtain ⟨old, hold, rfl⟩ := Option.map_eq_some_iff.mp hrun
    exact ⟨old, hid ▸ hold, update_same old u⟩
  · exact ⟨run, hrun, rfl, rfl⟩

theorem Inv.addRequest (hinv : Inv py delays s) (row : Request) (retries : List Retry)
    (hfresh : s.history.requests.get? row.id = none)
    (hopen : row.claimedAt = none) (hrun : row.runId = none) (htold : Told delays s.history row.taskId row.trigger)
    (hretries : ∀ retry ∈ retries, RetryOk delays s.history retry)
    (hdecided : ∀ attempt root, parseTaskRetryTrigger py row.trigger = (attempt, some root) →
      ∃ retry ∈ retries, retry.request = row.id ∧ retry.next.attempt = attempt ∧
        retry.decidedAt + retry.next.delay ≤ row.createdAt)
    (hapart : ∀ q ∈ s.tables.requests, Apart py q row) :
    Inv py delays
      { s with
        tables := { s.tables with requests := s.tables.requests ++ [row] }
        history := { s.history with
          requests := s.history.requests.set row.id row.taskId, retries := s.history.retries ++ retries } } := by
  have hext := extends_request hfresh row.taskId retries
  refine ⟨fun q hq => ?_, fun id run hget => (hinv.runs id run hget).mono hext,
    fun d hd => (hinv.dispatches d hd).mono hext, fun retry hretry => ?_, ?_, ?_⟩
  · rcases List.mem_append.mp hq with hold | hnew
    · exact (hinv.requests q hold).mono hext
    · cases List.mem_singleton.mp hnew
      refine ⟨htold.mono hext, Dict.get?_set_self _ _ _, fun r hr => ?_, fun c hc => ?_, fun attempt root hparse => ?_⟩
      · simp [hrun] at hr
      · simp [hopen] at hc
      · obtain ⟨retry, hmem, hrest⟩ := hdecided attempt root hparse
        exact ⟨retry, mem_append_right _ hmem, hrest⟩
  · rcases List.mem_append.mp hretry with hold | hnew
    · exact (hinv.retries retry hold).mono hext
    · exact (hretries retry hnew).mono hext
  · show ((s.tables.requests ++ [row]).map (·.id)).Nodup
    rw [map_append, nodup_append]
    refine ⟨hinv.ids, nodup_singleton _, fun id hid id' hid' heq => ?_⟩
    obtain ⟨q, hq, rfl⟩ := List.mem_map.mp hid
    have howner := (hinv.requests q hq).owner
    simp [heq, List.mem_singleton.mp hid', hfresh] at howner
  · show (s.tables.requests ++ [row]).Pairwise (Apart py)
    rw [pairwise_append]
    refine ⟨hinv.apart, pairwise_singleton _ _, fun q hq r hr => ?_⟩
    rw [List.mem_singleton.mp hr]
    exact hapart q hq

theorem Inv.request (hinv : Inv py delays s) (hfresh : s.history.requests.get? id = none) (taskId : String)
    (cause : Cause) (now : Int) :
    Inv py delays
      { s with
        tables := { s.tables with
          requests := (enqueueTaskRunRequest s.tables.requests id now { taskId, trigger := cause.text }).2 }
        history := { s.history with requests := s.history.requests.set id taskId } } := by
  have hplain : ∀ attempt root, parseTaskRetryTrigger py cause.text ≠ (attempt, some root) := by
    intro attempt root
    rw [parse_cause]
    simp
  have hadd := hinv.addRequest ⟨id, taskId, cause.text, max now 0, none, none⟩ [] hfresh rfl rfl
    (.inl ⟨cause, rfl⟩) (fun retry h => absurd h not_mem_nil)
    (fun attempt root h => absurd h (hplain attempt root)) (fun q _ attempt root _ => hplain attempt root)
  rw [append_nil] at hadd
  exact hadd

theorem Inv.claim (hinv : Inv py delays s) (now : Int) (definitionIds : Option (List String)) (limit : Nat) :
    Inv py delays
      { s with
        tables := { s.tables with
          requests := (claimAuthorizedRequests s.tables.requests now definitionIds limit).2 }
        dispatches := s.dispatches ++
          dispatchesOf s.tables.tasks (claimAuthorizedRequests s.tables.requests now definitionIds limit).1 } := by
  have hsame : ∀ (ready : List Request) (q : Request),
      (if q.id ∈ ready.map (·.id) ∧ q.claimedAt = none then { q with claimedAt := some now } else q).id = q.id ∧
      (if q.id ∈ ready.map (·.id) ∧ q.claimedAt = none then { q with claimedAt := some now } else q).trigger =
        q.trigger := by
    intro ready q
    split <;> exact ⟨rfl, rfl⟩
  rw [claimAuthorizedRequests]
  dsimp only
  refine ⟨fun q hq => ?_, hinv.runs, fun d hd => ?_, hinv.retries, ?_, ?_⟩
  · obtain ⟨old, hold, rfl⟩ := List.mem_map.mp hq
    have hok := hinv.requests old hold
    split
    · rename_i hready
      obtain ⟨r, hr, hid⟩ := List.mem_map.mp hready.1
      obtain ⟨hmem, -, hdue⟩ := mem_readyRequests hr
      obtain rfl := inj_on_of_nodup_map hinv.ids hmem hold hid
      refine ⟨hok.told, hok.owner, hok.linked, fun c hc => ?_, hok.decided⟩
      cases hc
      exact hdue
    · exact hok
  · rcases List.mem_append.mp hd with hold | hnew
    · exact hinv.dispatches d hold
    · rw [dispatchesOf, mem_filterMap] at hnew
      obtain ⟨claimed, hclaimed, hmade⟩ := hnew
      obtain ⟨q, hq, rfl⟩ := List.mem_map.mp hclaimed
      obtain ⟨task, -, rfl⟩ := Option.map_eq_some_iff.mp hmade
      have hok := hinv.requests q (mem_readyRequests hq).1
      exact ⟨⟨hok.owner, hok.told⟩, trivial⟩
  · dsimp only
    rw [map_map]
    have hids : ((fun q : Request => q.id) ∘ fun q : Request =>
        if q.id ∈ (readyRequests s.tables.requests now definitionIds limit).map (·.id) ∧ q.claimedAt = none then
          { q with claimedAt := some now } else q) = fun q => q.id := by
      funext q
      exact (hsame _ q).1
    rw [hids]
    exact hinv.ids
  · dsimp only
    rw [pairwise_map]
    refine hinv.apart.imp fun {a b} hab => ?_
    rw [Apart, (hsame _ a).2, (hsame _ b).2]
    exact hab

theorem Inv.restrict (hinv : Inv py delays s) (tasks : Dict String Task) (keepRun : String → TaskRun → Bool)
    (keepRequest : Request → Bool) :
    Inv py delays
      { s with
        tables := { s.tables with
          tasks, runs := s.tables.runs.filter keepRun, requests := s.tables.requests.filter keepRequest } } := by
  refine ⟨fun q hq => hinv.requests q (mem_of_mem_filter hq), fun id run hrun => ?_, hinv.dispatches,
    hinv.retries, ?_, hinv.apart.filter _⟩
  · have hget : (s.tables.runs.filter keepRun).get? id = some run := hrun
    rw [Dict.get?_filter] at hget
    exact hinv.runs id run (Option.filter_eq_some_iff.mp hget).1
  · exact hinv.ids.sublist (List.filter_sublist.map _)

theorem readBack_ok (hinv : Inv py delays s) {d : Dispatch} (hd : DispatchOk delays s.history d)
    {run : TaskRun} (h : s.readBack d = some (runId, run)) :
    RunOk delays s.history runId run ∧ run.taskId = d.taskId := by
  rw [State.readBack] at h
  obtain ⟨id, hid, h⟩ := Option.bind_eq_some_iff.mp h
  obtain ⟨row, hrow, heq⟩ := Option.map_eq_some_iff.mp h
  obtain ⟨rfl, rfl⟩ := Prod.mk.inj heq
  have hok := hinv.runs id row hrow
  refine ⟨hok, ?_⟩
  have howner : s.history.runs.get? id = some d.taskId := by
    have hsource := hd.source
    cases hsrc : d.source with
    | cron runId =>
      rw [hsrc] at hsource hid
      cases hid
      exact hsource
    | requested requestId trigger =>
      rw [hsrc] at hsource hid
      rw [State.runOf] at hid
      obtain ⟨q, hq, hlink⟩ := Option.bind_eq_some_iff.mp hid
      have hreq := hinv.requests q (mem_of_find?_eq_some hq)
      have hsame : q.id = requestId := by simpa using find?_some hq
      have htask := hreq.owner
      rw [hsame, hsource.1] at htask
      rw [Option.some.inj htask]
      exact hreq.linked id hlink
  rw [hok.owner] at howner
  exact Option.some.inj howner

theorem Inv.enqueue (hinv : Inv py delays s) {next : Next} {decidedAt now : Int}
    (hclear : runId ∈ s.history.clears) (hnext : NextOk delays s.history taskId next)
    (hfresh : s.history.requests.get? id = none)
    (hentered : (enqueueTaskRunRequest s.tables.requests id now (next.request taskId decidedAt)).1 = id) :
    Inv py delays
      { s with
        tables := { s.tables with
          requests := (enqueueTaskRunRequest s.tables.requests id now (next.request taskId decidedAt)).2 }
        history := { s.history with
          requests := s.history.requests.set id taskId
          retries := s.history.retries ++ [⟨id, runId, next, decidedAt⟩] } } := by
  have hne : ∀ q ∈ s.tables.requests, q.id ≠ id := by
    rintro q hq rfl
    simp [(hinv.requests q hq).owner] at hfresh
  obtain ⟨hnew, hrows⟩ := enqueue_deduplicated rfl hne hentered
  have hparse : parseTaskRetryTrigger py (retryTrigger next.attempt next.root) = (next.attempt, some next.root) :=
    parse_retryTrigger py hnext.positive hnext.named
  have hle : next.attempt ≤ delays.length := by
    obtain ⟨hlt, -⟩ := List.getElem?_eq_some_iff.mp hnext.delay
    have hpos := hnext.positive
    omega
  rw [hrows]
  refine hinv.addRequest ⟨id, taskId, retryTrigger next.attempt next.root, _, none, none⟩ _ hfresh rfl rfl
    (.inr ⟨_, _, hnext.positive, hle, hnext.named, rfl, hnext.owner⟩) (fun retry hretry => ?_)
    (fun attempt root hread => ?_) (fun q hq attempt root hread hsame => ?_)
  · rw [List.mem_singleton.mp hretry]
    exact ⟨hclear, hnext.delay⟩
  · rw [hparse] at hread
    exact ⟨_, mem_singleton_self _, rfl, (Prod.mk.inj hread).1, Int.le_max_right _ _⟩
  · -- a request of the same attempt at the same run is one of the same task
    rw [hparse] at hsame
    obtain ⟨rfl, hroot⟩ := Prod.mk.inj hsame
    cases hroot
    obtain ⟨-, -, htrigger, howner⟩ := (hinv.requests q hq).told.parse hread
    rw [hnext.owner] at howner
    exact hnew q hq (Option.some.inj howner).symm htrigger

theorem contains_eq_false {ν : Type} {d : Dict String ν} (h : ¬ d.contains id = true) :
    d.get? id = none := by
  rw [Dict.contains, Bool.not_eq_true, Option.isSome_eq_false_iff, Option.isNone_iff_eq_none] at h
  exact h

theorem extends_clear (h : History) (runId : String) : h.Extends { h with clears := h.clears ++ [runId] } :=
  ⟨fun _ _ hid => hid, fun _ _ hid => hid, fun _ hid => mem_append_left _ hid, fun _ hid => hid⟩

theorem Inv.clear (hinv : Inv py delays s) (runId : String) :
    Inv py delays { s with history := { s.history with clears := s.history.clears ++ [runId] } } := by
  have hext := extends_clear s.history runId
  exact ⟨fun q hq => (hinv.requests q hq).mono hext, fun id run hrun => (hinv.runs id run hrun).mono hext,
    fun d hd => (hinv.dispatches d hd).mono hext, fun retry hretry => (hinv.retries retry hretry).mono hext,
    hinv.ids, hinv.apart⟩

theorem Inv.handle (hinv : Inv py delays s) {i : Nat} {d : Dispatch} (hd : s.dispatches[i]? = some d)
    {label : Label} {s' : State} (h : s.handle py delays i d label = some s') : Inv py delays s' := by
  have hok := hinv.dispatches d (mem_of_getElem? hd)
  have hstageOk := hok.stage
  cases label with
  | opened _ runId sessionId linked =>
    rw [State.handle] at h
    split at h
    · rename_i requestId trigger hstage hsource
      split at h
      · cases h
      · rename_i hnew
        cases h
        have hsrc := hok.source
        rw [hsource] at hsrc
        refine hinv.openRun (contains_eq_false hnew) _ _ rfl hsrc.2 fun id hid => ?_
        cases linked with
        | false => cases hid
        | true =>
          cases hid
          exact hsrc.1
    · cases h
  | finish _ =>
    rw [State.handle] at h
    split at h
    · split at h
      · rename_i runId run hread
        split at h
        · cases h
          exact hinv.setStage hd (readBack_ok hinv hok hread)
        · cases h
          exact hinv.drop i
      · cases h
        exact hinv.drop i
    · cases h
  | judge _ failed =>
    rw [State.handle] at h
    split at h
    · rename_i runId run hstage
      rw [hstage] at hstageOk
      split at h
      · cases h
        have hgrown := hinv.clear runId
        refine hgrown.setStage hd ⟨hstageOk.1.mono (extends_clear _ _), hstageOk.2, ?_⟩
        exact mem_append_right _ (mem_singleton_self _)
      · cases h
        exact hinv.drop i
    · cases h
  | reread _ =>
    rw [State.handle] at h
    split at h
    · rename_i runId run hstage
      rw [hstage] at hstageOk
      obtain ⟨hrun, htask, hclear⟩ := hstageOk
      split at h
      · split at h
        · rename_i next hnext
          cases h
          refine hinv.setStage hd ⟨hclear, ?_⟩
          rw [← htask]
          exact nextOk_of_nextAttempt hrun hnext
        · cases h
          exact hinv.drop i
      · cases h
        exact hinv.drop i
    · cases h
  | enqueue _ decidedAt now id =>
    rw [State.handle] at h
    split at h
    · rename_i runId run next hstage
      rw [hstage] at hstageOk
      split at h
      · cases h
      · rename_i hnew
        dsimp only at h
        split at h
        · rename_i hentered
          cases h
          have hqueued := hinv.enqueue hstageOk.1 hstageOk.2 (contains_eq_false hnew) hentered
          exact hqueued.setStage hd trivial
        · cases h
          exact hinv.setStage hd trivial
    · cases h
  | note _ =>
    rw [State.handle] at h
    split at h
    · cases h
      exact (hinv.drop i).updateRun _ _
    · cases h
  | _ => cases h

theorem Inv.step (hinv : Inv py delays s) {label : Label} {s' : State} (h : step py delays s label = some s') :
    Inv py delays s' := by
  cases label with
  | fire taskId runId sessionId =>
    rw [Retries.step] at h
    split at h
    · rename_i task htask
      split at h
      · rename_i hguard
        cases h
        have hopened := hinv.openRun (contains_eq_false hguard.2) { taskId, trigger := Cause.schedule.text, sessionId }
          none rfl (.inl ⟨.schedule, rfl⟩) (fun id hid => by cases hid)
        refine hopened.withDispatches fun d hd => ?_
        rcases List.mem_append.mp hd with hold | hnew
        · exact hopened.dispatches d hold
        · rw [List.mem_singleton.mp hnew]
          exact ⟨Dict.get?_set_self _ _ _, trivial⟩
      · cases h
    · cases h
  | request id taskId cause now =>
    rw [Retries.step] at h
    split at h
    · cases h
    · rename_i hnew
      cases h
      exact hinv.request (contains_eq_false hnew) taskId cause now
  | claim now definitionIds limit =>
    cases h
    exact hinv.claim now definitionIds limit
  | direct taskId runId cause sessionId request =>
    rw [Retries.step] at h
    split at h
    · cases h
    · rename_i hguard
      cases h
      rw [not_or, not_not] at hguard
      refine hinv.openRun (contains_eq_false hguard.1) _ _ rfl (.inl ⟨cause, rfl⟩) fun id hid => ?_
      have hrequest := hguard.2
      rw [hid] at hrequest
      simpa using hrequest
  | update runId u =>
    cases h
    exact hinv.updateRun runId u
  | invoke row =>
    cases h
    exact ⟨hinv.requests, hinv.runs, hinv.dispatches, hinv.retries, hinv.ids, hinv.apart⟩
  | editTask taskId task =>
    cases h
    exact ⟨hinv.requests, hinv.runs, hinv.dispatches, hinv.retries, hinv.ids, hinv.apart⟩
  | deleteTask taskId =>
    cases h
    exact hinv.restrict _ _ _
  | prune runId =>
    cases h
    refine hinv.withRuns fun id run hrun => ?_
    rw [Dict.get?_pop] at hrun
    split at hrun
    · cases hrun
    · exact ⟨run, hrun, rfl, rfl⟩
  | crash =>
    cases h
    exact hinv.withDispatches fun d hd => absurd hd not_mem_nil
  | _ =>
    obtain ⟨d, hd, h⟩ := Option.bind_eq_some_iff.mp h
    exact hinv.handle hd h

end

/-! ### The law -/

structure RetryLaw (s : State) : Prop where
  bounded : ∀ root, (s.tables.requests.filter fun q =>
    (parseTaskRetryTrigger py q.trigger).2 = some root).length ≤ delays.length
  single : ∀ root attempt, (s.tables.requests.filter fun q =>
    parseTaskRetryTrigger py q.trigger = (attempt, some root)).length ≤ 1
  delayed : ∀ q ∈ s.tables.requests, ∀ attempt root claimedAt,
    parseTaskRetryTrigger py q.trigger = (attempt, some root) → q.claimedAt = some claimedAt →
      ∃ retry ∈ s.history.retries, retry.request = q.id ∧ ∃ delay, delays[attempt - 1]? = some delay ∧
        retry.decidedAt + delay ≤ claimedAt

variable {py delays}

theorem Inv.law {s : State} (hinv : Inv py delays s) : RetryLaw py delays s := by
  have hsecond : ∀ (root : String) (q : Request), (parseTaskRetryTrigger py q.trigger).2 = some root →
      parseTaskRetryTrigger py q.trigger = ((parseTaskRetryTrigger py q.trigger).1, some root) :=
    fun root q h => Prod.ext rfl h
  refine ⟨fun root => ?_, fun root attempt => ?_, fun q hq attempt root claimedAt hparse hclaimed => ?_⟩
  · -- the attempts of these requests are different numbers from one to the number of delays
    have hnodup : ((s.tables.requests.filter fun q => (parseTaskRetryTrigger py q.trigger).2 = some root).map
        fun q => (parseTaskRetryTrigger py q.trigger).1).Nodup := by
      rw [List.Nodup, pairwise_map]
      refine (hinv.apart.filter _).imp_of_mem fun {a b} ha hb hab heq => ?_
      have hroot := of_decide_eq_true (List.mem_filter.mp ha).2
      have hroot' := of_decide_eq_true (List.mem_filter.mp hb).2
      refine hab _ root (hsecond root a hroot) ?_
      rw [heq]
      exact hsecond root b hroot'
    have hrange : ∀ k ∈ (s.tables.requests.filter fun q => (parseTaskRetryTrigger py q.trigger).2 = some root).map
        (fun q => (parseTaskRetryTrigger py q.trigger).1), k ∈ List.range' 1 delays.length := by
      intro k hk
      obtain ⟨q, hq, rfl⟩ := List.mem_map.mp hk
      obtain ⟨hmem, hroot⟩ := List.mem_filter.mp hq
      obtain ⟨hpos, hle, -⟩ := (hinv.requests q hmem).told.parse (hsecond root q (of_decide_eq_true hroot))
      rw [mem_range'_1]
      omega
    have hlen := (subperm_of_subset hnodup hrange).length_le
    rwa [length_map, length_range'] at hlen
  · have hpairs := hinv.apart.filter fun q => parseTaskRetryTrigger py q.trigger = (attempt, some root)
    have hall : ∀ q ∈ s.tables.requests.filter fun q => parseTaskRetryTrigger py q.trigger = (attempt, some root),
        parseTaskRetryTrigger py q.trigger = (attempt, some root) :=
      fun q hq => of_decide_eq_true (List.mem_filter.mp hq).2
    generalize s.tables.requests.filter
      (fun q => parseTaskRetryTrigger py q.trigger = (attempt, some root)) = same at hpairs hall ⊢
    match same, hpairs, hall with
    | [], _, _ => exact Nat.zero_le _
    | [_], _, _ => exact Nat.le_refl _
    | a :: b :: rest, hpairs, hall =>
      have hab := (List.pairwise_cons.mp hpairs).1 b mem_cons_self
      exact absurd (hall b (mem_cons_of_mem _ mem_cons_self))
        (hab attempt root (hall a mem_cons_self))
  · have hok := hinv.requests q hq
    obtain ⟨retry, hmem, hid, hattempt, hdue⟩ := hok.decided attempt root hparse
    have hclaim := hok.claimed claimedAt hclaimed
    refine ⟨retry, hmem, hid, retry.next.delay, ?_, by omega⟩
    rw [← hattempt]
    exact (hinv.retries retry hmem).delay

/-! ### Judgements -/

def Judged (py : Python) (delays : List Int) (init : State) (labels : List Label) (runId : String) : Prop :=
  ∃ front i failed rest m d run, labels = front ++ Label.judge i failed :: rest ∧
    Lib.run (step py delays) init front = some m ∧ m.dispatches[i]? = some d ∧ d.stage = .judging runId run ∧
      taskRunHasToolActivity m.tables runId failed = false

theorem clears_step {s s' : State} {label : Label} (h : step py delays s label = some s') {runId : String}
    (hclear : runId ∈ s'.history.clears) :
    runId ∈ s.history.clears ∨ ∃ i failed d run, label = .judge i failed ∧ s.dispatches[i]? = some d ∧
      d.stage = .judging runId run ∧ taskRunHasToolActivity s.tables runId failed = false := by
  cases label with
  | judge i failed =>
    obtain ⟨d, hd, h⟩ := Option.bind_eq_some_iff.mp h
    rw [State.handle] at h
    split at h
    · rename_i id run hstage
      split at h
      · rename_i hpass
        cases h
        rcases List.mem_append.mp hclear with hold | hnew
        · exact .inl hold
        · cases List.mem_singleton.mp hnew
          rw [Bool.and_eq_true, Bool.not_eq_true'] at hpass
          exact .inr ⟨i, failed, d, run, rfl, hd, hstage, hpass.2⟩
      · cases h
        exact .inl hclear
    · cases h
  | fire taskId id sessionId =>
    rw [step] at h
    split at h
    · split at h
      · cases h
        exact .inl hclear
      · cases h
    · cases h
  | request id taskId cause now =>
    rw [step] at h
    split at h
    · cases h
    · cases h
      exact .inl hclear
  | direct taskId id cause sessionId request =>
    rw [step] at h
    split at h
    · cases h
    · cases h
      exact .inl hclear
  | opened i id sessionId linked =>
    obtain ⟨d, -, h⟩ := Option.bind_eq_some_iff.mp h
    rw [State.handle] at h
    split at h
    · split at h
      · cases h
      · cases h
        exact .inl hclear
    · cases h
  | finish i =>
    obtain ⟨d, -, h⟩ := Option.bind_eq_some_iff.mp h
    rw [State.handle] at h
    split at h
    · split at h
      · split at h
        · cases h
          exact .inl hclear
        · cases h
          exact .inl hclear
      · cases h
        exact .inl hclear
    · cases h
  | reread i =>
    obtain ⟨d, -, h⟩ := Option.bind_eq_some_iff.mp h
    rw [State.handle] at h
    split at h
    · split at h
      · split at h
        · cases h
          exact .inl hclear
        · cases h
          exact .inl hclear
      · cases h
        exact .inl hclear
    · cases h
  | enqueue i decidedAt now id =>
    obtain ⟨d, -, h⟩ := Option.bind_eq_some_iff.mp h
    rw [State.handle] at h
    split at h
    · split at h
      · cases h
      · dsimp only at h
        split at h
        · cases h
          exact .inl hclear
        · cases h
          exact .inl hclear
    · cases h
  | note i =>
    obtain ⟨d, -, h⟩ := Option.bind_eq_some_iff.mp h
    rw [State.handle] at h
    split at h
    · cases h
      exact .inl hclear
    · cases h
  | _ =>
    cases h
    exact .inl hclear

theorem judged_of_clear {init s : State} {labels : List Label} (h : Lib.run (step py delays) init labels = some s)
    {runId : String} (hclear : runId ∈ s.history.clears) :
    runId ∈ init.history.clears ∨ Judged py delays init labels runId := by
  induction labels generalizing init with
  | nil =>
    cases h
    exact .inl hclear
  | cons label rest ih =>
    obtain ⟨s', hstep, hrest⟩ := Lib.run_cons.mp h
    rcases ih hrest with hold | ⟨front, i, failed, back, m, d, run, rfl, hfront, hjudged⟩
    · rcases clears_step hstep hold with hinit | ⟨i, failed, d, run, rfl, hjudged⟩
      · exact .inl hinit
      · exact .inr ⟨[], i, failed, rest, init, d, run, rfl, rfl, hjudged⟩
    · exact .inr ⟨label :: front, i, failed, back, m, d, run, rfl, Lib.run_cons.mpr ⟨s', hstep, hfront⟩, hjudged⟩

def started (tasks : Dict String Task) (invocations : List Invocation) : State :=
  { tables := { tasks, invocations } }

theorem inv_started (tasks : Dict String Task) (invocations : List Invocation) :
    Inv py delays (started tasks invocations) :=
  ⟨fun q hq => (not_mem_nil hq).elim, fun id run hrun => by simp [started] at hrun,
    fun d hd => (not_mem_nil hd).elim, fun retry hretry => (not_mem_nil hretry).elim, nodup_nil,
    List.Pairwise.nil⟩

/-- In every run of the system the retries of a failed run number at most as many as there are delays, one for
each attempt, each is claimed no earlier than its delay after it was decided on, and each follows a judgement
of the run that it retries at which no tool activity of it was found. -/
theorem retries_bounded (tasks : Dict String Task) (invocations : List Invocation) {labels : List Label} {s : State}
    (h : Lib.run (step py delays) (started tasks invocations) labels = some s) :
    RetryLaw py delays s ∧
      ∀ retry ∈ s.history.retries, Judged py delays (started tasks invocations) labels retry.cause := by
  have hinv : Inv py delays s :=
    Lib.run_invariant (fun _ _ _ hinv hstep => hinv.step hstep) (inv_started tasks invocations) h
  refine ⟨hinv.law, fun retry hretry => ?_⟩
  rcases judged_of_clear h (hinv.retries retry hretry).clear with hinit | hjudged
  · cases hinit
  · exact hjudged

namespace Sample

/-- `int` of decimal digits. -/
def int (text : String) : Option Int :=
  if text.toList.all Char.isDigit && !text.toList.isEmpty then some (Nat.ofDigitChars 10 text.toList 0) else none

theorem int_str (n : Nat) : int (toString n) = some (n : Int) := by
  have htext : (toString n).toList = Nat.toDigits 10 n := by
    rw [Nat.toString_eq_ofList_toDigits, String.toList_ofList]
  have hall : (Nat.toDigits 10 n).all Char.isDigit = true :=
    List.all_eq_true.mpr fun c hc => Nat.isDigit_of_mem_toDigits (by decide) (by decide) hc
  have hne : (Nat.toDigits 10 n).isEmpty = false := List.isEmpty_eq_false_iff.mpr Nat.toDigits_ne_nil
  rw [int, htext, hall, hne, Nat.ofDigitChars_ten_toDigits]
  rfl

def python : Python where
  int := int
  int_str := int_str
  strip text := text
  transient error := error = "rate limit"
  unix instant := toString instant ++ ".000"

def tasks : Dict String Task := ⟨[("t", { cronExpression := "0 9 * * *" })], by decide⟩

def failed : Update := { status := some .failed, error := some "rate limit" }

def twice : List Label :=
  [.fire "t" "r0" (some "scheduler:t:r0"), .update "r0" failed, .finish 0, .judge 0 false, .reread 0,
    .enqueue 0 1000 1000 "q1", .note 0, .claim 1900 none 20, .opened 0 "r1" (some "scheduler:t:r1") true,
    .update "r1" failed, .finish 0, .judge 0 false, .reread 0, .enqueue 0 2000 2000 "q2", .note 0]

def late : List Label :=
  [.fire "t" "r0" (some "scheduler:t:r0"), .update "r0" failed, .finish 0, .judge 0 false,
    .invoke { rootKind := "session", rootId := "scheduler:t:r0", sessionId := some "scheduler:t:r0" }]

end Sample

theorem two_retries_are_queued :
    ∃ s, Lib.run (step Sample.python [900, 3600]) (started Sample.tasks []) Sample.twice = some s ∧
      s.history.retries.map (·.cause) = ["r0", "r1"] ∧ RetryLaw Sample.python [900, 3600] s := by
  have htrace : (Lib.run (step Sample.python [900, 3600]) (started Sample.tasks []) Sample.twice).map
      (fun s => s.history.retries.map (·.cause)) = some ["r0", "r1"] := by
    decide +kernel
  obtain ⟨s, hrun, hcauses⟩ := Option.map_eq_some_iff.mp htrace
  exact ⟨s, hrun, hcauses, (retries_bounded Sample.tasks [] hrun).1⟩

/-- A tool that is called in the session of a failed run after the judgement does not keep the retry back. -/
theorem late_activity_is_retried :
    ¬ ∀ (py : Python) (delays : List Int) (tasks : Dict String Task) (front rest : List Label) (m s : State)
      (runId : String), Lib.run (step py delays) (started tasks []) front = some m →
        Lib.run (step py delays) m rest = some s → (m.tables.runs.get? runId).isSome = true →
          taskRunHasToolActivity m.tables runId false = true →
            ∀ retry ∈ s.history.retries, retry ∉ m.history.retries → retry.cause ≠ runId := by
  intro h
  have htrace : (Lib.run (step Sample.python [900]) (started Sample.tasks []) Sample.late).bind
      (fun m => (Lib.run (step Sample.python [900]) m [.reread 0, .enqueue 0 1000 1000 "q1"]).map fun s =>
        ((m.tables.runs.get? "r0").isSome, taskRunHasToolActivity m.tables "r0" false, m.history.retries,
          s.history.retries)) = some (true, true, [], [⟨"q1", "r0", ⟨1, "r0", 900⟩, 1000⟩]) := by
    rfl
  obtain ⟨m, hfront, htrace⟩ := Option.bind_eq_some_iff.mp htrace
  obtain ⟨s, hrest, hfacts⟩ := Option.map_eq_some_iff.mp htrace
  simp only [Prod.mk.injEq] at hfacts
  obtain ⟨hrow, hactive, hbefore, hafter⟩ := hfacts
  refine h _ _ _ _ _ m s "r0" hfront hrest hrow hactive ⟨"q1", "r0", ⟨1, "r0", 900⟩, 1000⟩ ?_ ?_ rfl
  · rw [hafter]
    exact List.mem_singleton_self _
  · rw [hbefore]
    exact List.not_mem_nil

end OpenAgent.Scheduler.Retries
