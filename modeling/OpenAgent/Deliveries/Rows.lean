import OpenAgent.Lib.Dict
import OpenAgent.Lib.Text
import Mathlib.Data.List.Sort

/-!
# The rows of `event_deliveries`

A delivery of an event is a row that also serves as its place in the queue: a scheduler claims it under
a lease, the runner of the claim extends the lease and records how it went, and three reapers give a row
whose runner seems to be gone back to the queue, or park it once it was given back too often.
-/

namespace OpenAgent.Deliveries

open Lib List

/-- The text of a status column; `other` stands for a text that none of the other cases names. -/
inductive Status
  | received | running | success | failed | cancelled | skipped | blocked
  | other (text : String)
deriving DecidableEq

/-- `status IN ('received','running')` -/
def Status.inFlight : Status → Bool
  | .received | .running => true
  | _ => false

structure Delivery where
  eventId : String
  status : Status
  startedAt : Int
  finishedAt : Option Int := none
  output : Option String := none
  error : Option String := none
  claimedAt : Option Int := none
  reenqueueCount : Nat := 0
  claimExpires : Option Int := none
  workerId : Option String := none
  lastHeartbeatAt : Option Int := none
deriving DecidableEq

def Delivery.inFlight (row : Delivery) : Bool := row.status.inFlight

/-! ### Writing a row -/

/-- `add_event_delivery`; a row born claimed carries the lease of the process that dispatches it. -/
def addEventDelivery (eventId : String) (status : Status) (claimed : Bool) (worker : String)
    (ttl now : Int) : Delivery where
  eventId := eventId
  status := status
  startedAt := now
  claimedAt := if claimed then some now else none
  claimExpires := if claimed then some (now + ttl) else none
  workerId := if claimed then some worker else none

/-- The columns given to `update_event_delivery`. -/
structure Update where
  status : Status
  finishedAt : Option Int := none
  output : Option String := none
  error : Option (Option String) := none
deriving DecidableEq

def Delivery.update (row : Delivery) (u : Update) : Delivery :=
  { row with
    status := u.status
    finishedAt := u.finishedAt <|> row.finishedAt
    output := u.output <|> row.output
    error := u.error.getD row.error }

def Delivery.claim (row : Delivery) (worker : String) (ttl now : Int) : Delivery :=
  { row with claimedAt := some now, claimExpires := some (now + ttl), workerId := some worker }

/-- `heartbeat_event_delivery` -/
def Delivery.heartbeat (row : Delivery) (worker : String) (ttl now : Int) : Delivery :=
  if row.workerId = some worker then
    { row with claimExpires := some (now + ttl), lastHeartbeatAt := some now }
  else row

/-! ### Claiming -/

def Delivery.claimable (row : Delivery) (definitionIds : Option (List String)) : Bool :=
  row.claimedAt.isNone && row.finishedAt.isNone && definitionIds.all fun ids => row.eventId ∈ ids

/-- The rows a claim takes: the oldest ones first, `limit` of them at most. -/
def pending (rows : Dict String Delivery) (limit : Nat) (definitionIds : Option (List String)) :
    List String :=
  let unclaimed := rows.entries.filter fun e => e.2.claimable definitionIds
  ((unclaimed.insertionSort fun a b => a.2.startedAt ≤ b.2.startedAt).take limit).map Prod.fst

/-- `_claim_deliveries_in` -/
def claimDeliveries (rows : Dict String Delivery) (ids : List String) (worker : String) (ttl now : Int) :
    Dict String Delivery :=
  rows.map fun id row => if id ∈ ids ∧ row.claimedAt = none then row.claim worker ttl now else row

/-! ### What the reapers write -/

/-- `COALESCE(error,'') || CASE WHEN error IS NULL OR error='' THEN '' ELSE ' | ' END || text` -/
def Delivery.appendError (row : Delivery) (text : String) : String :=
  let recorded := row.error.getD ""
  recorded ++ (if recorded = "" then "" else " | ") ++ text

def Delivery.markFailed (row : Delivery) (text : String) (now : Int) : Delivery :=
  { row with status := .failed, finishedAt := some now, error := some (row.appendError text) }

def Delivery.park (row : Delivery) (reaper : String) (now : Int) : Delivery :=
  row.markFailed
    (reaper ++ ": retry budget exhausted (" ++ toString row.reenqueueCount ++ " attempts)") now

def Delivery.requeue (row : Delivery) (cause : String) : Delivery :=
  { row with
    status := .received
    claimedAt := none
    finishedAt := none
    reenqueueCount := row.reenqueueCount + 1
    error := some
      ("re-enqueued: " ++ cause ++ " (attempt " ++ toString (row.reenqueueCount + 1) ++ ")") }

def Delivery.clearLease (row : Delivery) : Delivery := { row with claimExpires := none, workerId := none }

def reapOrphanMark : String := "reaped: orphan from prior process"

def retryableTurnMark : String := "retryable: turn died without model capacity"

def Delivery.failedWith (row : Delivery) (mark : String) : Bool :=
  row.status = .failed ∧ row.error.any (like mark)

/-- `max(1, int(max_attempts))` -/
def attemptLimit (maxAttempts : Int) : Nat := (max 1 maxAttempts).toNat

/-! ### `reap_expired_event_leases` -/

def Delivery.leaseExpired (row : Delivery) (now : Int) : Bool :=
  row.claimExpires.any (· < now) && row.inFlight

def Delivery.reapExpired (row : Delivery) (limit : Nat) (now : Int) : Delivery :=
  let parked :=
    if row.leaseExpired now ∧ limit ≤ row.reenqueueCount then (row.park "lease-reap" now).clearLease
    else row
  if parked.leaseExpired now ∧ parked.reenqueueCount < limit then
    (parked.requeue "lease-reap recovered orphan").clearLease
  else parked

/-! ### `reap_stale_event_deliveries` -/

structure Sweep where
  minClaimAgeSeconds : Int := 1800
  enabled : Bool := true
  retryDelaySeconds : Int := 300
  reenqueueTransient : Bool := true
deriving DecidableEq

def Delivery.stale (row : Delivery) (sweep : Sweep) (now : Int) : Bool :=
  row.claimedAt.any (· ≤ now - max 0 sweep.minClaimAgeSeconds) && row.inFlight

def Delivery.retryable (row : Delivery) (sweep : Sweep) (now : Int) : Bool :=
  row.failedWith retryableTurnMark && row.finishedAt.any (· ≤ now - max 0 sweep.retryDelaySeconds)

def Delivery.retryTransient (row : Delivery) (sweep : Sweep) (limit : Nat) (now : Int) : Delivery :=
  if row.retryable sweep now ∧ row.reenqueueCount < limit then row.requeue "no model capacity" else row

def Delivery.sweepStale (row : Delivery) (sweep : Sweep) (limit : Nat) (now : Int) : Delivery :=
  let parked :=
    if row.stale sweep now ∧ limit ≤ row.reenqueueCount then row.park "stale-sweep" now else row
  if parked.stale sweep now ∧ parked.reenqueueCount < limit then
    parked.requeue "stale-sweep recovered orphan"
  else parked

def Delivery.reapStale (row : Delivery) (sweep : Sweep) (limit : Nat) (now : Int) : Delivery :=
  if sweep.enabled then
    let swept := row.sweepStale sweep limit now
    if sweep.reenqueueTransient then swept.retryTransient sweep limit now else swept
  else row

/-! ### `reap_orphan_event_deliveries` -/

structure StartupReap where
  enabled : Bool := true
  recoverFailed : Bool := true
  reenqueueTransient : Bool := true
deriving DecidableEq

def Delivery.orphaned (row : Delivery) : Bool := row.claimedAt.isSome && row.inFlight

def Delivery.recoverable (row : Delivery) (reap : StartupReap) : Bool :=
  row.claimedAt.isSome &&
    (row.inFlight || (reap.recoverFailed && row.failedWith reapOrphanMark) ||
      (reap.reenqueueTransient && row.failedWith retryableTurnMark))

def Delivery.reapOrphan (row : Delivery) (reap : StartupReap) (limit : Nat) (now : Int) : Delivery :=
  if reap.enabled then
    let parked :=
      if row.orphaned ∧ limit ≤ row.reenqueueCount then row.park "reaped" now else row
    if parked.recoverable reap ∧ parked.reenqueueCount < limit then parked.requeue "recovered orphan"
    else parked
  else if row.orphaned then row.markFailed reapOrphanMark now
  else row

/-! ### What a write or a reaper can do to a row -/

@[simp] theorem update_finishedAt (row : Delivery) (u : Update) :
    (row.update u).finishedAt = (u.finishedAt <|> row.finishedAt) := rfl

theorem mem_pending {rows : Dict String Delivery} {limit : Nat} {definitionIds : Option (List String)}
    {id : String} (h : id ∈ pending rows limit definitionIds) :
    ∃ row, rows.get? id = some row ∧ row.claimable definitionIds = true := by
  obtain ⟨e, he, rfl⟩ := List.mem_map.mp h
  have hsorted := mem_of_mem_take he
  have hopen := List.mem_filter.mp ((mem_insertionSort _).mp hsorted)
  exact ⟨e.2, Dict.get?_eq_some_iff.mpr hopen.1, hopen.2⟩

theorem nodup_pending (rows : Dict String Delivery) (limit : Nat) (definitionIds : Option (List String)) :
    (pending rows limit definitionIds).Nodup := by
  have hopen : ((rows.entries.filter fun e => e.2.claimable definitionIds).map Prod.fst).Nodup :=
    rows.nodup.sublist (List.filter_sublist.map Prod.fst)
  have hsorted := ((perm_insertionSort (fun a b : String × Delivery => a.2.startedAt ≤ b.2.startedAt)
    (rows.entries.filter fun e => e.2.claimable definitionIds)).map Prod.fst).nodup_iff.mpr hopen
  exact hsorted.sublist ((take_sublist _ _).map Prod.fst)

/-- What a reaper makes of a row: it may leave it, finish it as failed, or, where `eligible`, give it
back to the queue. -/
inductive Reaped (row : Delivery) (eligible : Prop) (limit : Nat) (now : Int) : Delivery → Prop
  | kept : Reaped row eligible limit now row
  | failed {row' : Delivery} (hflight : row.inFlight = true) (hstatus : row'.status = .failed)
      (hfinished : row'.finishedAt = some now) (hclaimed : row'.claimedAt = row.claimedAt)
      (hcount : row'.reenqueueCount = row.reenqueueCount) : Reaped row eligible limit now row'
  | requeued {row' : Delivery} (heligible : eligible) (hbudget : row.reenqueueCount < limit)
      (hbefore : row.inFlight = true ∨ row.status = .failed) (hstatus : row'.status = .received)
      (hfinished : row'.finishedAt = none) (hclaimed : row'.claimedAt = none)
      (hcount : row'.reenqueueCount = row.reenqueueCount + 1) : Reaped row eligible limit now row'

variable {row : Delivery}

theorem not_inFlight_of_failed (h : row.status = .failed) : row.inFlight = false := by
  simp [Delivery.inFlight, Status.inFlight, h]

theorem status_of_failedWith {mark : String} (h : row.failedWith mark = true) :
    row.status = .failed := by
  simp only [Delivery.failedWith, Bool.decide_and, Bool.and_eq_true, decide_eq_true_eq] at h
  exact h.1

theorem reapExpired_reaped (row : Delivery) (limit : Nat) (now : Int) :
    Reaped row (row.leaseExpired now = true) limit now (row.reapExpired limit now) := by
  by_cases hexpired : row.leaseExpired now = true
  · have hflight : row.inFlight = true := by
      simp only [Delivery.leaseExpired, Bool.and_eq_true] at hexpired
      exact hexpired.2
    by_cases hbudget : limit ≤ row.reenqueueCount
    · have hdone : ((row.park "lease-reap" now).clearLease).leaseExpired now = false := rfl
      have hreaped : row.reapExpired limit now = (row.park "lease-reap" now).clearLease := by
        simp only [Delivery.reapExpired, hexpired, hbudget, and_self, if_true, hdone,
          Bool.false_eq_true, false_and, if_false]
      rw [hreaped]
      exact .failed hflight rfl rfl rfl rfl
    · have hless : row.reenqueueCount < limit := by omega
      have hreaped : row.reapExpired limit now =
          (row.requeue "lease-reap recovered orphan").clearLease := by
        simp only [Delivery.reapExpired, hexpired, hbudget, hless, and_false, and_self, if_true,
          if_false]
      rw [hreaped]
      exact .requeued hexpired hless (.inl hflight) rfl rfl rfl rfl
  · have hreaped : row.reapExpired limit now = row := by
      simp only [Delivery.reapExpired, hexpired, Bool.false_eq_true, false_and, if_false]
    rw [hreaped]
    exact .kept

theorem reapExpired_of_not_expired {limit : Nat} {now : Int} (h : row.leaseExpired now = false)
    : row.reapExpired limit now = row := by
  simp only [Delivery.reapExpired, h, Bool.false_eq_true, false_and, if_false]

def Delivery.lease (row : Delivery) : Option Int × Option String := (row.claimExpires, row.workerId)

def Delivery.sweepable (row : Delivery) (sweep : Sweep) (limit : Nat) (now : Int) : Bool :=
  sweep.enabled && decide (row.reenqueueCount < limit) &&
    (row.stale sweep now || (sweep.reenqueueTransient && row.retryable sweep now))

theorem sweepStale_of_not_stale {sweep : Sweep} {limit : Nat} {now : Int} (h : row.stale sweep now = false)
    : row.sweepStale sweep limit now = row := by
  simp only [Delivery.sweepStale, h, Bool.false_eq_true, false_and, if_false]

theorem retryTransient_of_budget (row : Delivery) {sweep : Sweep} {limit : Nat} {now : Int}
    (h : row.status = .failed → limit ≤ row.reenqueueCount) : row.retryTransient sweep limit now = row := by
  rw [Delivery.retryTransient, if_neg]
  rintro ⟨hretry, hbudget⟩
  simp only [Delivery.retryable, Bool.and_eq_true] at hretry
  have := h (status_of_failedWith hretry.1)
  omega

theorem reapStale_of_stale {sweep : Sweep} (limit : Nat) {now : Int} (henabled : sweep.enabled = true)
    (hstale : row.stale sweep now = true) :
    row.reapStale sweep limit now =
      if limit ≤ row.reenqueueCount then row.park "stale-sweep" now
      else row.requeue "stale-sweep recovered orphan" := by
  simp only [Delivery.reapStale, henabled, if_true]
  by_cases hbudget : limit ≤ row.reenqueueCount
  · have hnot : (row.park "stale-sweep" now).stale sweep now = false := by
      simp [Delivery.stale, Delivery.inFlight, Status.inFlight, Delivery.park, Delivery.markFailed]
    have hswept : row.sweepStale sweep limit now = row.park "stale-sweep" now := by
      simp only [Delivery.sweepStale, hstale, hbudget, and_self, if_true, hnot, Bool.false_eq_true,
        false_and, if_false]
    rw [hswept, retryTransient_of_budget (row.park "stale-sweep" now) fun _ => hbudget, ite_self,
      if_pos hbudget]
  · have hless : row.reenqueueCount < limit := by omega
    have hswept : row.sweepStale sweep limit now = row.requeue "stale-sweep recovered orphan" := by
      simp only [Delivery.sweepStale, hstale, hbudget, hless, and_false, and_self, if_true, if_false]
    have hreceived : (row.requeue "stale-sweep recovered orphan").status ≠ .failed := by
      simp [Delivery.requeue]
    rw [hswept, retryTransient_of_budget _ fun h => absurd h hreceived, ite_self, if_neg hbudget]

theorem inFlight_of_stale {sweep : Sweep} {now : Int} (h : row.stale sweep now = true)
    : row.inFlight = true := by
  simp only [Delivery.stale, Bool.and_eq_true] at h
  exact h.2

theorem reapStale_of_not_inFlight (sweep : Sweep) (limit : Nat) (now : Int) (h : row.inFlight = false) :
    row.reapStale sweep limit now =
      if sweep.enabled = true ∧ sweep.reenqueueTransient = true then row.retryTransient sweep limit now
      else row := by
  have hstale : row.stale sweep now = false := by simp [Delivery.stale, h]
  simp only [Delivery.reapStale, sweepStale_of_not_stale hstale]
  cases sweep.enabled with
  | false => rfl
  | true => simp

theorem reapStale_reaped (row : Delivery) (sweep : Sweep) (limit : Nat) (now : Int) :
    Reaped row (row.sweepable sweep limit now = true) limit now (row.reapStale sweep limit now) := by
  cases henabled : sweep.enabled with
  | false =>
    rw [Delivery.reapStale, henabled]
    exact .kept
  | true =>
    cases hstale : row.stale sweep now with
    | true =>
      have hflight := inFlight_of_stale hstale
      rw [reapStale_of_stale limit henabled hstale]
      split
      · exact .failed hflight rfl rfl rfl rfl
      · rename_i hbudget
        have hless : row.reenqueueCount < limit := by omega
        refine .requeued ?_ hless (.inl hflight) rfl rfl rfl rfl
        simp [Delivery.sweepable, henabled, hless, hstale]
    | false =>
      simp only [Delivery.reapStale, henabled, if_true, sweepStale_of_not_stale hstale,
        Delivery.retryTransient]
      cases htransient : sweep.reenqueueTransient with
      | false => exact .kept
      | true =>
        simp only [if_true]
        by_cases hretry : row.retryable sweep now = true ∧ row.reenqueueCount < limit
        · rw [if_pos hretry]
          have hfailed : row.status = .failed := by
            have h := hretry.1
            simp only [Delivery.retryable, Bool.and_eq_true] at h
            exact status_of_failedWith h.1
          refine .requeued ?_ hretry.2 (.inr hfailed) rfl rfl rfl rfl
          simp [Delivery.sweepable, henabled, htransient, hretry.1, hretry.2]
        · rw [if_neg hretry]
          exact .kept

theorem reapStale_lease (row : Delivery) (sweep : Sweep) (limit : Nat) (now : Int) :
    (row.reapStale sweep limit now).lease = row.lease := by
  have hretry : ∀ r : Delivery, (r.retryTransient sweep limit now).lease = r.lease := by
    intro r
    rw [Delivery.retryTransient]
    split <;> rfl
  have hsweep : (row.sweepStale sweep limit now).lease = row.lease := by
    simp only [Delivery.sweepStale]
    split <;> split <;> rfl
  simp only [Delivery.reapStale]
  split
  · split
    · rw [hretry, hsweep]
    · exact hsweep
  · rfl

def Delivery.reapable (row : Delivery) (reap : StartupReap) (limit : Nat) : Bool :=
  reap.enabled && decide (row.reenqueueCount < limit) && row.recoverable reap

theorem reapOrphan_reaped (row : Delivery) (reap : StartupReap) (limit : Nat) (now : Int) :
    Reaped row (row.reapable reap limit = true) limit now (row.reapOrphan reap limit now) := by
  have hflight : row.orphaned = true → row.inFlight = true := by
    intro h
    simp only [Delivery.orphaned, Bool.and_eq_true] at h
    exact h.2
  rw [Delivery.reapOrphan]
  cases henabled : reap.enabled with
  | false =>
    simp only [Bool.false_eq_true, if_false]
    by_cases horphan : row.orphaned = true
    · rw [if_pos horphan]
      exact .failed (hflight horphan) rfl rfl rfl rfl
    · rw [if_neg horphan]
      exact .kept
  | true =>
    simp only [if_true]
    by_cases hpark : row.orphaned = true ∧ limit ≤ row.reenqueueCount
    · have hover : ¬ (row.park "reaped" now).reenqueueCount < limit := by
        show ¬ row.reenqueueCount < limit
        omega
      simp only [hpark.1, hpark.2, and_self, if_true, hover, and_false, if_false]
      exact .failed (hflight hpark.1) rfl rfl rfl rfl
    · simp only [hpark, if_false]
      by_cases hback : row.recoverable reap = true ∧ row.reenqueueCount < limit
      · rw [if_pos hback]
        refine .requeued ?_ hback.2 ?_ rfl rfl rfl rfl
        · simp [Delivery.reapable, henabled, hback.1, hback.2]
        · have h := hback.1
          simp only [Delivery.recoverable, Bool.and_eq_true, Bool.or_eq_true] at h
          obtain ⟨_, (hin | ⟨_, hmark⟩) | ⟨_, hmark⟩⟩ := h
          · exact .inl hin
          · exact .inr (status_of_failedWith hmark)
          · exact .inr (status_of_failedWith hmark)
      · rw [if_neg hback]
        exact .kept

theorem reapOrphan_lease (row : Delivery) (reap : StartupReap) (limit : Nat) (now : Int) :
    (row.reapOrphan reap limit now).lease = row.lease := by
  simp only [Delivery.reapOrphan]
  split
  · split <;> split <;> rfl
  · split <;> rfl

end OpenAgent.Deliveries
