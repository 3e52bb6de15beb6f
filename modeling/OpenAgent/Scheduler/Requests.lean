/-!
# Requests to run a task

The table `task_run_requests`: a request to fire a task waits until the scheduler claims it, no earlier
than the time it is due. A request that asks for it is entered only once for its task and trigger.
-/

namespace OpenAgent.Scheduler

/-- A row of `task_run_requests`. -/
structure Request where
  id : String
  taskId : String
  trigger : String
  createdAt : Int
  claimedAt : Option Int := none
  runId : Option String := none
deriving DecidableEq

/-- The arguments of `enqueue_task_run_request`. -/
structure Enqueued where
  taskId : String
  trigger : String := "manual"
  notBefore : Option Int := none
  deduplicate : Bool := false

/-- `enqueue_task_run_request`: the request's identifier, and the table; `id` is a fresh one. -/
def enqueueTaskRunRequest (requests : List Request) (id : String) (now : Int) (args : Enqueued) :
    String × List Request :=
  let row : Request := ⟨id, args.taskId, args.trigger, max now (args.notBefore.getD 0), none, none⟩
  if args.deduplicate then
    match requests.find? fun q => q.taskId = args.taskId && q.trigger = args.trigger with
    | some existing => (existing.id, requests)
    | none => (id, requests ++ [row])
  else (id, requests ++ [row])

/-- A request that must not be doubled gets the fresh identifier only where its task has no request with its
trigger, and is the last row then. -/
theorem enqueue_deduplicated {requests : List Request} {id : String} {now : Int} {args : Enqueued}
    (hdedup : args.deduplicate = true) (hne : ∀ q ∈ requests, q.id ≠ id)
    (h : (enqueueTaskRunRequest requests id now args).1 = id) :
    (∀ q ∈ requests, q.taskId = args.taskId → q.trigger ≠ args.trigger) ∧
      (enqueueTaskRunRequest requests id now args).2 =
        requests ++ [⟨id, args.taskId, args.trigger, max now (args.notBefore.getD 0), none, none⟩] := by
  rw [enqueueTaskRunRequest] at h ⊢
  rw [if_pos hdedup] at h ⊢
  cases hfind : requests.find? fun q => q.taskId = args.taskId && q.trigger = args.trigger with
  | some existing =>
    rw [hfind] at h
    exact absurd h (hne existing (List.mem_of_find?_eq_some hfind))
  | none =>
    refine ⟨fun q hq htask htrigger => ?_, rfl⟩
    have hnone := List.find?_eq_none.mp hfind q hq
    simp [htask, htrigger] at hnone

/-- `ORDER BY created_at, id` -/
def Request.le (a b : Request) : Bool :=
  a.createdAt < b.createdAt || (a.createdAt = b.createdAt && a.id ≤ b.id)

def readyRequests (requests : List Request) (now : Int) (definitionIds : Option (List String)) (limit : Nat) :
    List Request :=
  ((requests.filter fun q => q.claimedAt = none && q.createdAt ≤ now &&
    definitionIds.all (q.taskId ∈ ·)).mergeSort Request.le).take limit

/-- `_claim_authorized_requests`: the rows that were claimed, and the table. -/
def claimAuthorizedRequests (requests : List Request) (now : Int) (definitionIds : Option (List String))
    (limit : Nat) : List Request × List Request :=
  let ready := readyRequests requests now definitionIds limit
  (ready.map fun q => { q with claimedAt := some now },
    requests.map fun q => if q.id ∈ ready.map (·.id) ∧ q.claimedAt = none then { q with claimedAt := some now } else q)

/-- `set_task_request_run_id` -/
def setTaskRequestRunId (requests : List Request) (requestId runId : String) : List Request :=
  requests.map fun q => if q.id = requestId then { q with runId := some runId } else q

theorem mem_readyRequests {requests : List Request} {now : Int} {definitionIds : Option (List String)}
    {limit : Nat} {q : Request} (h : q ∈ readyRequests requests now definitionIds limit) :
    q ∈ requests ∧ q.claimedAt = none ∧ q.createdAt ≤ now := by
  have hmem := List.mem_of_mem_take h
  rw [List.mem_mergeSort, List.mem_filter] at hmem
  simp only [Bool.and_eq_true, decide_eq_true_eq] at hmem
  exact ⟨hmem.1, hmem.2.1.1, hmem.2.1.2⟩

end OpenAgent.Scheduler
