import OpenAgent.Lib.Dict
import OpenAgent.Lib.Text
import OpenAgent.Scheduler.Requests

/-!
# Runs that a restart interrupted

A process that starts settles the runs that its predecessor left running, marks them as orphans, and
requests a new run of each task that lost one. So that a task which takes the process down is not run
for ever, a run is passed over when the latest other run of its task bears the mark, too. That run need
not be the one before it: of two runs that were interrupted together each finds the mark on the other,
and a run that was started later hides the one that counts.
-/

namespace OpenAgent.Scheduler.Restarts

open List

open Lib (Dict occurs like)

inductive Status
  | running | cancelling | failed | cancelled | success | other
deriving DecidableEq

structure TaskRun where
  id : String
  taskId : String
  status : Status
  startedAt : Int
  finishedAt : Option Int := none
  error : Option String := none
deriving DecidableEq

/-- `task_runs`, in the order in which `ORDER BY started_at DESC` lists its rows. -/
structure RunTable where
  rows : List TaskRun
  ids : (rows.map (·.id)).Nodup
  newestFirst : rows.Pairwise fun a b => b.startedAt ≤ a.startedAt

/-- The database, and the identifiers that the last reap of this process kept in memory; a task is
enabled or not. -/
structure Tables where
  tasks : Dict String Bool
  runs : RunTable
  requests : List Request
  lastReapedTaskRunIds : List String := []

def orphanText : String := "reaped: orphan from prior process"

def stopText : String := "reaped: stop left pending by prior process"

def appended (error : Option String) (text : String) : String :=
  if error.getD "" = "" then text else error.getD "" ++ " | " ++ text

/-! ### Reaping -/

/-- The two `UPDATE`s of a reap, on one row. -/
def reapRow (now : Int) (run : TaskRun) : TaskRun :=
  match run.status with
  | .running =>
    { run with status := .failed, finishedAt := some now, error := some (appended run.error orphanText) }
  | .cancelling =>
    { run with status := .cancelled, finishedAt := some now, error := some (appended run.error stopText) }
  | _ => run

@[simp] theorem reapRow_id (now : Int) (run : TaskRun) : (reapRow now run).id = run.id := by
  unfold reapRow
  split <;> rfl

@[simp] theorem reapRow_taskId (now : Int) (run : TaskRun) : (reapRow now run).taskId = run.taskId := by
  unfold reapRow
  split <;> rfl

@[simp] theorem reapRow_startedAt (now : Int) (run : TaskRun) :
    (reapRow now run).startedAt = run.startedAt := by
  unfold reapRow
  split <;> rfl

def RunTable.reap (t : RunTable) (now : Int) : RunTable where
  rows := t.rows.map (reapRow now)
  ids := by
    rw [List.map_map]
    simpa only [Function.comp_def, reapRow_id] using t.ids
  newestFirst := by
    rw [List.pairwise_map]
    simpa only [reapRow_startedAt] using t.newestFirst

/-- `reap_orphan_task_runs` -/
def reapOrphanTaskRuns (t : Tables) (now : Int) : Tables :=
  { t with
    runs := t.runs.reap now
    lastReapedTaskRunIds := (t.runs.rows.filter fun run => run.status = .running).map (·.id) }

/-! ### Requesting again -/

/-- `marker in (error or "")` -/
def marked (run : TaskRun) : Bool := occurs orphanText.toList (run.error.getD "").toList

/-- `error LIKE '%marker%'` -/
def likeMarked (run : TaskRun) : Bool := run.error.any (like orphanText)

def candidates (t : Tables) : List (String × String) :=
  (t.runs.rows.filter fun run => run.id ∈ t.lastReapedTaskRunIds && run.status = .failed && likeMarked run &&
    t.tasks.get? run.taskId = some true).map fun run => (run.id, run.taskId)

def pending (requests : List Request) (taskId : String) : Bool :=
  requests.any fun q => q.taskId = taskId && q.claimedAt = none

def previous (t : RunTable) (runId taskId : String) : Option TaskRun :=
  t.rows.find? fun run => run.taskId = taskId && run.id ≠ runId

structure Pass where
  requests : List Request
  requeued : List String := []

def requeueStep (runs : RunTable) (uuid : Nat → String) (now : Int) (pass : Pass)
    (candidate : String × String) : Pass :=
  let (runId, taskId) := candidate
  if pending pass.requests taskId then pass
  else if (previous runs runId taskId).any marked then pass
  else if taskId ∈ pass.requeued then pass
  else
    let (_, requests) := enqueueTaskRunRequest pass.requests (uuid pass.requests.length) now
      { taskId, trigger := "restart-requeue" }
    ⟨requests, pass.requeued ++ [taskId]⟩

/-- `requeue_interrupted_task_runs`, the rows of its query in the order given. -/
def requeueInterruptedTaskRuns (t : Tables) (uuid : Nat → String) (now : Int)
    (order : List (String × String)) : List String × Tables :=
  if t.lastReapedTaskRunIds = [] then ([], t)
  else
    let pass := order.foldl (requeueStep t.runs uuid now) ⟨t.requests, []⟩
    (pass.requeued, { t with requests := pass.requests, lastReapedTaskRunIds := [] })

/-- A start of the process: it reaps, and requests again what it may; the query of the second step lists
its rows in any order. -/
def Boot (uuid : Nat → String) (reapedAt now : Int) (t t' : Tables) : Prop :=
  ∃ order, order.Perm (candidates (reapOrphanTaskRuns t reapedAt)) ∧
    t' = (requeueInterruptedTaskRuns (reapOrphanTaskRuns t reapedAt) uuid now order).2

/-! ### What a restart owes -/

def interrupted (t : Tables) (taskId : String) : List TaskRun :=
  t.runs.rows.filter fun run => run.taskId = taskId && run.status = .running

def latestBefore (t : Tables) (taskId : String) : Option TaskRun :=
  t.runs.rows.find? fun run =>
    run.taskId = taskId && (interrupted t taskId).all fun z => run.startedAt < z.startedAt

def reapedBefore (t : Tables) (taskId : String) : Bool := (latestBefore t taskId).any marked

structure Owed (t : Tables) (taskId : String) : Prop where
  enabled : t.tasks.get? taskId = some true
  lost : interrupted t taskId ≠ []
  idle : pending t.requests taskId = false

def requestsOf (t : Tables) (taskId : String) : Nat := t.requests.countP fun q => q.taskId = taskId

structure RequeueLaw (t t' : Tables) : Prop where
  owed : ∀ taskId, Owed t taskId → reapedBefore t taskId = false →
    requestsOf t' taskId = requestsOf t taskId + 1
  spared : ∀ taskId, reapedBefore t taskId = true → requestsOf t' taskId = requestsOf t taskId

def latestOther (t : Tables) (taskId : String) : Option TaskRun :=
  t.runs.rows.find? fun run =>
    run.taskId = taskId && (interrupted t taskId).head?.map (·.id) ≠ some run.id

def otherReaped (t : Tables) (taskId : String) : Bool :=
  (latestOther t taskId).any fun run => run.status = .running || marked run

/-- For every task to which a run is owed, the latest run other than the last interrupted one tells of
an interruption exactly if the one before all interrupted ones does. -/
def GuardAgrees (t : Tables) : Prop :=
  ∀ taskId, Owed t taskId → otherReaped t taskId = reapedBefore t taskId

/-! ### Marks -/

theorem infix_appended {word e text : List Char} (hbar : '|' ∉ word) (hfirst : word.head? ≠ some ' ')
    (hlast : word.getLast? ≠ some ' ') :
    word <:+: e ++ ' ' :: '|' :: ' ' :: text ↔ word <:+: e ∨ word <:+: text := by
  constructor
  · intro h
    rcases List.infix_append_iff.mp h with hleft | hright | ⟨front, back, rfl, hsuffix, hback⟩
    · exact .inl hleft
    · cases word with
      | nil => exact .inl nil_infix
      | cons c rest =>
        right
        have hblank : c ≠ ' ' := fun hc => hfirst (congrArg some hc)
        have hnobar : c ≠ '|' := fun hc => hbar (hc ▸ mem_cons_self)
        simpa [infix_cons_iff, cons_prefix_cons, hblank, hnobar] using hright
    · left
      match back with
      | [] => simpa using hsuffix.isInfix
      | [c] =>
        obtain ⟨hc, -⟩ := List.cons_prefix_cons.mp hback
        rw [getLast?_append, hc] at hlast
        exact absurd rfl hlast
      | c :: d :: rest =>
        obtain ⟨-, hrest⟩ := List.cons_prefix_cons.mp hback
        obtain ⟨hd, -⟩ := List.cons_prefix_cons.mp hrest
        exact absurd (mem_append_right _ (by simp [hd])) hbar
  · rintro (h | h)
    · exact infix_append_of_infix_left h
    · exact infix_append_of_infix_right (infix_cons (infix_cons (infix_cons h)))

theorem occurs_orphan_appended (error : Option String) (text : String) :
    occurs orphanText.toList (appended error text).toList =
      (occurs orphanText.toList (error.getD "").toList || occurs orphanText.toList text.toList) := by
  rw [appended]
  by_cases hempty : error.getD "" = ""
  · have hnone : occurs orphanText.toList "".toList = false := by decide
    rw [if_pos hempty, hempty, hnone, Bool.false_or]
  · rw [if_neg hempty, Bool.eq_iff_iff, Bool.or_eq_true, Lib.occurs_iff, Lib.occurs_iff, Lib.occurs_iff]
    have htext : (error.getD "" ++ " | " ++ text).toList =
        (error.getD "").toList ++ ' ' :: '|' :: ' ' :: text.toList := by
      rw [String.toList_append, String.toList_append, append_assoc]
      rfl
    rw [htext]
    exact infix_appended (by decide) (by decide) (by decide)

theorem marked_reapRow (now : Int) (run : TaskRun) :
    marked (reapRow now run) = (run.status = .running || marked run) := by
  have horphan : occurs orphanText.toList orphanText.toList = true := by decide
  have hstop : occurs orphanText.toList stopText.toList = false := by decide
  rw [marked, reapRow]
  cases hstatus : run.status <;>
    simp [marked, occurs_orphan_appended, horphan, hstop]

theorem mem_candidates {t : Tables} {now : Int} {c : String × String} :
    c ∈ candidates (reapOrphanTaskRuns t now) ↔
      ∃ run ∈ t.runs.rows, run.status = .running ∧ t.tasks.get? run.taskId = some true ∧
        c = (run.id, run.taskId) := by
  have hlike : ∀ error, like orphanText (appended error orphanText) = true := by
    intro error
    have hthere : occurs orphanText.toList (appended error orphanText).toList = true := by
      rw [occurs_orphan_appended, Lib.occurs_iff.mpr infix_rfl, Bool.or_true]
    exact Lib.occurs_iff.mpr ((Lib.occurs_iff.mp hthere).map _)
  have hid : ∀ run ∈ t.runs.rows, run.id ∈ (reapOrphanTaskRuns t now).lastReapedTaskRunIds ↔
      run.status = .running := by
    intro run hrun
    rw [reapOrphanTaskRuns, mem_map]
    constructor
    · rintro ⟨z, hz, hsame⟩
      obtain ⟨hmem, hrunning⟩ := List.mem_filter.mp hz
      obtain rfl := inj_on_of_nodup_map t.runs.ids hmem hrun hsame
      exact of_decide_eq_true hrunning
    · exact fun hrunning => ⟨run, List.mem_filter.mpr ⟨hrun, decide_eq_true hrunning⟩, rfl⟩
  rw [candidates, mem_map]
  constructor
  · rintro ⟨row, hrow, rfl⟩
    obtain ⟨hmem, hkept⟩ := List.mem_filter.mp hrow
    obtain ⟨run, hrun, rfl⟩ := List.mem_map.mp hmem
    simp only [Bool.and_eq_true, decide_eq_true_eq, reapRow_id, reapRow_taskId] at hkept
    obtain ⟨⟨⟨hreaped, -⟩, -⟩, henabled⟩ := hkept
    exact ⟨run, hrun, (hid run hrun).mp hreaped, henabled, by rw [reapRow_id, reapRow_taskId]⟩
  · rintro ⟨run, hrun, hrunning, henabled, rfl⟩
    refine ⟨reapRow now run, List.mem_filter.mpr ⟨mem_map_of_mem hrun, ?_⟩,
      by rw [reapRow_id, reapRow_taskId]⟩
    have hstatus : (reapRow now run).status = .failed := by rw [reapRow, hrunning]
    have hmarked : likeMarked (reapRow now run) = true := by
      rw [likeMarked, reapRow, hrunning]
      exact hlike run.error
    simp only [Bool.and_eq_true, decide_eq_true_eq, reapRow_id, reapRow_taskId]
    exact ⟨⟨⟨(hid run hrun).mpr hrunning, hstatus⟩, hmarked⟩, henabled⟩

/-! ### The pass -/

def unguarded (runs : RunTable) (c : String × String) : Bool := !(previous runs c.1 c.2).any marked

theorem requeueStep_cases (runs : RunTable) (uuid : Nat → String) (now : Int) (pass : Pass)
    (c : String × String) :
    requeueStep runs uuid now pass c = pass ∧
        (pending pass.requests c.2 = true ∨ unguarded runs c = false ∨ c.2 ∈ pass.requeued) ∨
      pending pass.requests c.2 = false ∧ unguarded runs c = true ∧ ∃ row : Request,
        row.taskId = c.2 ∧ row.claimedAt = none ∧
          requeueStep runs uuid now pass c = ⟨pass.requests ++ [row], pass.requeued ++ [c.2]⟩ := by
  rw [requeueStep]
  dsimp only
  by_cases hpending : pending pass.requests c.2 = true
  · rw [if_pos hpending]
    exact .inl ⟨rfl, .inl hpending⟩
  · rw [if_neg hpending]
    by_cases hmarked : (previous runs c.1 c.2).any marked = true
    · rw [if_pos hmarked]
      exact .inl ⟨rfl, .inr (.inl (by rw [unguarded, hmarked]; rfl))⟩
    · rw [if_neg hmarked]
      by_cases hdone : c.2 ∈ pass.requeued
      · rw [if_pos hdone]
        exact .inl ⟨rfl, .inr (.inr hdone)⟩
      · rw [if_neg hdone]
        refine .inr ⟨by simpa using hpending, by simpa [unguarded] using hmarked, ?_⟩
        exact ⟨_, rfl, rfl, rfl⟩

theorem pending_append (requests : List Request) (row : Request) (taskId : String) :
    pending (requests ++ [row]) taskId =
      (pending requests taskId || (row.taskId = taskId && row.claimedAt = none)) := by
  rw [pending, any_append, any_cons, any_nil, Bool.or_false, pending]

theorem count_fold (runs : RunTable) (uuid : Nat → String) (now : Int) (taskId : String)
    (order : List (String × String)) (pass : Pass)
    (hrequeued : taskId ∈ pass.requeued → pending pass.requests taskId = true) :
    (order.foldl (requeueStep runs uuid now) pass).requests.countP (fun q => q.taskId = taskId) =
      pass.requests.countP (fun q => q.taskId = taskId) +
        (!pending pass.requests taskId && order.any fun c => c.2 = taskId && unguarded runs c).toNat := by
  induction order generalizing pass with
  | nil => simp
  | cons c rest ih =>
    rw [foldl_cons, any_cons]
    rcases requeueStep_cases runs uuid now pass c with ⟨hsame, hwhy⟩ | ⟨hidle, hfree, row, htask, hopen, hnew⟩
    · rw [hsame, ih pass hrequeued]
      by_cases hc : c.2 = taskId
      · subst hc
        rcases hwhy with hpending | hguarded | hdone
        · simp [hpending]
        · simp [hguarded]
        · simp [hrequeued hdone]
      · simp [hc]
    · by_cases hc : c.2 = taskId
      · subst hc
        have hpending : pending (pass.requests ++ [row]) c.2 = true := by
          rw [pending_append, htask, hopen]
          simp
        rw [hnew, ih _ fun _ => hpending, countP_append]
        simp [hpending, hidle, hfree, htask]
      · have hkeep : pending (pass.requests ++ [row]) taskId = pending pass.requests taskId := by
          rw [pending_append, htask]
          simp [hc]
        rw [hnew, ih, countP_append, hkeep]
        · simp [hc, htask]
        · intro hmem
          rcases List.mem_append.mp hmem with hold | hlast
          · rw [hkeep]
            exact hrequeued hold
          · exact absurd (List.mem_singleton.mp hlast).symm hc

/-! ### What the guard looks at -/

def runsOf (t : Tables) (taskId : String) : List TaskRun := t.runs.rows.filter fun run => run.taskId = taskId

def besideReaped (t : Tables) (taskId runId : String) : Bool :=
  ((runsOf t taskId).find? fun run => run.id ≠ runId).any fun run => run.status = .running || marked run

theorem unguarded_reap (t : Tables) (now : Int) (c : String × String) :
    unguarded (t.runs.reap now) c = !besideReaped t c.2 c.1 := by
  rw [unguarded, previous, RunTable.reap, besideReaped, runsOf, find?_filter]
  simp only [find?_map, Option.any_map, Function.comp_def, reapRow_id, reapRow_taskId, marked_reapRow,
    Bool.decide_and, Bool.decide_eq_true]

theorem interrupted_eq (t : Tables) (taskId : String) :
    interrupted t taskId = (runsOf t taskId).filter fun run => run.status = .running := by
  rw [interrupted, runsOf, filter_filter]
  congr
  funext run
  exact Bool.and_comm _ _

theorem otherReaped_eq {t : Tables} {taskId : String} {z : TaskRun} {more : List TaskRun}
    (h : interrupted t taskId = z :: more) : otherReaped t taskId = besideReaped t taskId z.id := by
  rw [otherReaped, latestOther, besideReaped, runsOf, find?_filter, h]
  congr 2
  funext run
  by_cases hid : z.id = run.id
  · simp [hid]
  · simp [hid, Ne.symm hid]

/-- Every interrupted run but the last finds that one beside it, or the same run that it finds. -/
theorem beside_last {t : Tables} {taskId : String} {z r : TaskRun} {more : List TaskRun}
    (h : interrupted t taskId = z :: more) (hr : r ∈ t.runs.rows) (hrunning : r.status = .running)
    (hfree : besideReaped t taskId r.id = false) : besideReaped t taskId z.id = false := by
  rw [interrupted_eq] at h
  have hz : z ∈ runsOf t taskId ∧ decide (z.status = .running) = true :=
    List.mem_filter.mp (h ▸ mem_cons_self)
  cases hruns : runsOf t taskId with
  | nil => simp [hruns] at hz
  | cons first rest =>
    rw [besideReaped, hruns, find?_cons] at hfree ⊢
    by_cases hfirst : first.id = r.id
    · -- the latest run of all is `r` itself, and so the last one that was interrupted
      have hmem : first ∈ t.runs.rows := (List.mem_filter.mp (hruns ▸ mem_cons_self : first ∈ runsOf t taskId)).1
      obtain rfl := inj_on_of_nodup_map t.runs.ids hmem hr hfirst
      rw [hruns, filter_cons_of_pos (by simpa using hrunning)] at h
      obtain ⟨rfl, -⟩ := List.cons.inj h
      exact hfree
    · simp only [hfirst, ne_eq, not_false_eq_true, decide_true, Option.any_some] at hfree
      have hne : first.id ≠ z.id := by
        intro hsame
        have hmem : first ∈ t.runs.rows :=
          (List.mem_filter.mp (hruns ▸ mem_cons_self : first ∈ runsOf t taskId)).1
        obtain rfl := inj_on_of_nodup_map t.runs.ids hmem (List.mem_filter.mp hz.1).1 hsame
        simp [of_decide_eq_true hz.2] at hfree
      simp only [hne, ne_eq, not_false_eq_true, decide_true, Option.any_some]
      exact hfree

/-- An enabled task has an unguarded candidate exactly if it lost a run, and the latest one beside the
last of these tells of no interruption. -/
theorem any_unguarded {t : Tables} {taskId : String} (henabled : t.tasks.get? taskId = some true) (now : Int) :
    (candidates (reapOrphanTaskRuns t now)).any (fun c => c.2 = taskId && unguarded (t.runs.reap now) c) =
      (interrupted t taskId ≠ [] && !otherReaped t taskId) := by
  rw [Bool.eq_iff_iff, any_eq_true, Bool.and_eq_true, decide_eq_true_eq, Bool.not_eq_true']
  constructor
  · rintro ⟨c, hc, hfree⟩
    obtain ⟨run, hrun, hrunning, -, rfl⟩ := mem_candidates.mp hc
    rw [Bool.and_eq_true, decide_eq_true_eq, unguarded_reap, Bool.not_eq_true'] at hfree
    obtain ⟨rfl, hfree⟩ := hfree
    have hmem : run ∈ interrupted t run.taskId := List.mem_filter.mpr ⟨hrun, by simp [hrunning]⟩
    cases hlost : interrupted t run.taskId with
    | nil =>
      simp [hlost] at hmem
    | cons z more =>
      rw [otherReaped_eq hlost]
      exact ⟨cons_ne_nil _ _, beside_last hlost hrun hrunning hfree⟩
  · rintro ⟨hlost, hfree⟩
    obtain ⟨z, more, hlost⟩ := exists_cons_of_ne_nil hlost
    rw [otherReaped_eq hlost] at hfree
    obtain ⟨hz, hkept⟩ := List.mem_filter.mp (hlost ▸ mem_cons_self : z ∈ interrupted t taskId)
    rw [Bool.and_eq_true, decide_eq_true_eq, decide_eq_true_eq] at hkept
    obtain ⟨rfl, hrunning⟩ := hkept
    refine ⟨(z.id, z.taskId), mem_candidates.mpr ⟨z, hz, hrunning, henabled, rfl⟩, ?_⟩
    simp [unguarded_reap, hfree]

theorem requestsOf_boot {uuid : Nat → String} {reapedAt now : Int} {t t' : Tables}
    (h : Boot uuid reapedAt now t t') (taskId : String) :
    requestsOf t' taskId = requestsOf t taskId +
      (!pending t.requests taskId && (t.tasks.get? taskId = some true && (interrupted t taskId ≠ [] &&
        !otherReaped t taskId))).toNat := by
  obtain ⟨order, horder, rfl⟩ := h
  have hany : order.any (fun c => c.2 = taskId && unguarded (t.runs.reap reapedAt) c) =
      (t.tasks.get? taskId = some true && (interrupted t taskId ≠ [] && !otherReaped t taskId)) := by
    rw [horder.any_eq]
    by_cases henabled : t.tasks.get? taskId = some true
    · rw [any_unguarded henabled, decide_eq_true henabled, Bool.true_and]
    · rw [decide_eq_false henabled, Bool.false_and, any_eq_false]
      intro c hc
      obtain ⟨run, -, -, hon, rfl⟩ := mem_candidates.mp hc
      have hother : run.taskId ≠ taskId := fun heq => henabled (heq ▸ hon)
      simp [hother]
  rw [requeueInterruptedTaskRuns]
  split
  · rename_i hnone
    have hlost : interrupted t taskId = [] := by
      rw [reapOrphanTaskRuns, map_eq_nil_iff] at hnone
      rw [interrupted_eq, runsOf, filter_comm, hnone, filter_nil]
    simp [hlost, requestsOf, reapOrphanTaskRuns]
  · have hcount := count_fold (t.runs.reap reapedAt) uuid now taskId order ⟨t.requests, []⟩
      (fun hmem => absurd hmem not_mem_nil)
    rw [hany] at hcount
    exact hcount

/-- A start of the process requests what it owes, exactly if the run that the guard looks at tells the
same as the one before the interruption. -/
theorem requeue_law_iff {uuid : Nat → String} {reapedAt now : Int} {t t' : Tables}
    (h : Boot uuid reapedAt now t t') : RequeueLaw t t' ↔ GuardAgrees t := by
  constructor
  · intro hlaw taskId howed
    have hcount := requestsOf_boot h taskId
    rw [howed.idle, decide_eq_true howed.enabled, decide_eq_true howed.lost] at hcount
    cases hbefore : reapedBefore t taskId with
    | true =>
      rw [hlaw.spared taskId hbefore] at hcount
      cases hother : otherReaped t taskId with
      | true => rfl
      | false =>
        rw [hother] at hcount
        exact absurd hcount (by simp)
    | false =>
      rw [hlaw.owed taskId howed hbefore] at hcount
      cases hother : otherReaped t taskId with
      | true =>
        rw [hother] at hcount
        exact absurd hcount (by simp)
      | false => rfl
  · intro hagrees
    refine ⟨fun taskId howed hbefore => ?_, fun taskId hbefore => ?_⟩
    · rw [requestsOf_boot h taskId, hagrees taskId howed, hbefore, howed.idle, decide_eq_true howed.enabled,
        decide_eq_true howed.lost]
      rfl
    · rw [requestsOf_boot h taskId]
      by_cases howed : Owed t taskId
      · rw [hagrees taskId howed, hbefore]
        simp
      · -- nothing is owed: the task is off, lost no run, or waits for a request already
        have hnone : (!pending t.requests taskId && (t.tasks.get? taskId = some true &&
            (interrupted t taskId ≠ [] && !otherReaped t taskId))) = false := by
          by_contra hsome
          simp only [Bool.not_eq_false, Bool.and_eq_true, Bool.not_eq_true', decide_eq_true_eq] at hsome
          exact howed ⟨hsome.2.1, hsome.2.2.1, hsome.1⟩
        rw [hnone]
        rfl

namespace Sample

def run (id : String) (status : Status) (startedAt : Int) : TaskRun := { id, taskId := "weekly", status, startedAt }

def tables (rows : List TaskRun) (ids : (rows.map (·.id)).Nodup)
    (newestFirst : rows.Pairwise fun a b => b.startedAt ≤ a.startedAt) : Tables where
  tasks := ⟨[("weekly", true)], by decide⟩
  runs := ⟨rows, ids, newestFirst⟩
  requests := []

def single : Tables := tables [run "b" .running 2, run "a" .success 1] (by decide) (by decide)

def double : Tables := tables [run "b" .running 2, run "a" .running 1] (by decide) (by decide)

def uuid (n : Nat) : String := toString n

def boot (t : Tables) : Tables :=
  (requeueInterruptedTaskRuns (reapOrphanTaskRuns t 3) uuid 4 (candidates (reapOrphanTaskRuns t 3))).2

theorem boot_spec (t : Tables) : Boot uuid 3 4 t (boot t) := ⟨_, List.Perm.refl _, rfl⟩

theorem guardAgrees_single : GuardAgrees single := by
  intro taskId howed
  obtain ⟨run, hrun⟩ := exists_mem_of_ne_nil _ howed.lost
  have htask : taskId = "weekly" := by
    have hmem := List.mem_filter.mp hrun
    simp only [single, tables, Sample.run, mem_cons, not_mem_nil, or_false, Bool.and_eq_true,
      decide_eq_true_eq] at hmem
    rcases hmem with ⟨rfl | rfl, hsame, -⟩ <;> exact hsame.symm
  rw [htask]
  decide

end Sample

theorem interrupted_run_is_requeued : RequeueLaw Sample.single (Sample.boot Sample.single) :=
  (requeue_law_iff (Sample.boot_spec Sample.single)).mpr Sample.guardAgrees_single

/-- Two runs of a task that are interrupted together keep each other from being run again. -/
theorem interrupted_together_is_lost :
    ¬ ∀ (uuid : Nat → String) (reapedAt now : Int) (t t' : Tables), Boot uuid reapedAt now t t' →
      RequeueLaw t t' := by
  intro h
  have hlaw := h _ _ _ _ _ (Sample.boot_spec Sample.double)
  have howed : Owed Sample.double "weekly" := ⟨by decide, by decide, by decide⟩
  have hcount := hlaw.owed "weekly" howed (by decide)
  exact absurd hcount (by decide)

end OpenAgent.Scheduler.Restarts
