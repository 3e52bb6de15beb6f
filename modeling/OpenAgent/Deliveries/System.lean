import OpenAgent.Deliveries.Rows
import OpenAgent.Lib.Place
import OpenAgent.Lib.Transition

/-!
# Deliveries under dispatch

Any number of processes insert deliveries, claim and dispatch them, and reap what seems abandoned, all
over the same rows. A dispatch runs apart from the row it claimed: it beats while its turn runs, and it
records the outcome whenever the turn ends, whatever became of the row in the meantime.
-/

namespace OpenAgent.Deliveries

open Lib Option

inductive Phase
  | claimed | running | ended
deriving DecidableEq

/-- One claim of a delivery with the runner that carries it out. `attempt` is the replay counter of the
row at the claim, `expires` the end of the lease as this runner last wrote it, `lapsed` whether the clock
has passed it, and `wrote` the outcome that the runner recorded. -/
structure Dispatch where
  delivery : String
  worker : String
  attempt : Nat
  expires : Int
  lapsed : Bool := false
  phase : Phase := .claimed
  wrote : Option Update := none
deriving DecidableEq

def Dispatch.executing (d : Dispatch) : Bool := d.phase ≠ .ended

def Dispatch.alive (d : Dispatch) : Bool := d.executing && !d.lapsed

/-- `holders` tells which dispatch has the claim of a delivery: it gains it with the claim, and loses it
when a reaper gives the row back or finishes it. -/
structure System where
  now : Int := 0
  rows : Dict String Delivery := .empty
  dispatches : List Dispatch := []
  holders : Dict String Nat := .empty

/-- `leaseTtlSeconds` is a setting of each process. `retainOutput` is `_retained_output`, which a host
may replace. -/
structure Config where
  leaseTtlSeconds : String → Int := fun _ => 120
  maxAttempts : Int := 5
  retainOutput : String → String := clip 4000

/-- `_lease_ttl_seconds` -/
def Config.ttl (config : Config) (worker : String) : Int := max 1 (config.leaseTtlSeconds worker)

def Config.limit (config : Config) : Nat := attemptLimit config.maxAttempts

/-- What the action of an event returns to `_execute_event`. -/
structure Result where
  status : Option Status := none
  output : Option String := none
  error : Option (Option String) := none
deriving DecidableEq

/-- `final_status` -/
def Result.finalStatus (result : Result) : Status := result.status.getD .success

inductive Outcome
  | blocked
  | skipped (reason : String)
  | returned (result : Result)
  | raised (detail : String)
  | cancelled
deriving DecidableEq

/-- The last `update_event_delivery` of a dispatch. -/
def Outcome.update (config : Config) (now : Int) : Outcome → Update
  | .blocked =>
    { status := .blocked, finishedAt := some now, error := some (some "event circuit breaker open") }
  | .skipped reason =>
    { status := .skipped, finishedAt := some now, output := some (clip 500 reason) }
  | .returned result =>
    { status := result.finalStatus, finishedAt := some now
      output := some (config.retainOutput (result.output.getD "")), error := result.error }
  | .raised detail =>
    { status := .failed, finishedAt := some now, error := some (some (clip 2000 detail)) }
  | .cancelled => { status := .cancelled, finishedAt := some now, error := some none }

def Outcome.after : Outcome → Phase
  | .blocked | .skipped _ => .claimed
  | .returned _ | .raised _ | .cancelled => .running

inductive Action
  | insert (id eventId worker : String) (claimed : Bool)
  | claim (worker : String) (limit : Nat) (definitionIds : Option (List String))
  | tick (now : Int)
  | start (i : Nat)
  | heartbeat (i : Nat)
  | finish (i : Nat) (outcome : Outcome)
  | vanish (i : Nat)
  | leaseReap (enabled : Bool)
  | staleSweep (sweep : Sweep)
  | reapOrphans (reap : StartupReap)
deriving DecidableEq

/-! ### The operations -/

variable (config : Config) (s : System)

def newDispatch (worker : String) (attempt : Nat) (id : String) : Dispatch where
  delivery := id
  worker := worker
  attempt := attempt
  expires := s.now + config.ttl worker

def newDispatches (worker : String) (ids : List String) : List Dispatch :=
  ids.map fun id =>
    newDispatch config s worker (((s.rows.get? id).map Delivery.reenqueueCount).getD 0) id

/-- Each of the deliveries is held by its own new dispatch, the first of them at place `next`. -/
def hold (next : Nat) : List String → Dict String Nat → Dict String Nat
  | [], holders => holders
  | id :: rest, holders => hold (next + 1) rest (holders.set id next)

def System.launch (rows : Dict String Delivery) (worker : String) (ids : List String) : System where
  now := s.now
  rows := rows
  dispatches := s.dispatches ++ newDispatches config s worker ids
  holders := hold s.dispatches.length ids s.holders

def System.insertRow (id eventId worker : String) (claimed : Bool) : Option System :=
  if s.rows.contains id then none
  else
    let rows := s.rows.set id
      (addEventDelivery eventId .received claimed worker (config.ttl worker) s.now)
    if claimed then some (s.launch config rows worker [id]) else some { s with rows := rows }

def System.claimRows (worker : String) (limit : Nat) (definitionIds : Option (List String)) : System :=
  let ids := pending s.rows limit definitionIds
  s.launch config (claimDeliveries s.rows ids worker (config.ttl worker) s.now) worker ids

def System.advance (now : Int) : Option System :=
  if s.now < now then
    some { s with
      now := now
      dispatches := s.dispatches.map fun d =>
        { d with lapsed := d.lapsed || (d.executing && decide (d.expires < now)) } }
  else none

def System.setDispatch (i : Nat) (d : Dispatch) : System :=
  { s with dispatches := s.dispatches.set i d }

def System.writeRow (id : String) (f : Delivery → Delivery) : System :=
  { s with rows := s.rows.update id f }

/-- The dispatch `i`, if it is in `phase`. -/
def System.at? (i : Nat) (phase : Phase) : Option Dispatch :=
  s.dispatches[i]?.filter fun d => d.phase = phase

def System.startTurn (i : Nat) (d : Dispatch) : System :=
  (s.writeRow d.delivery fun row => row.update { status := .running }).setDispatch i
    { d with phase := .running }

def System.beat (i : Nat) (d : Dispatch) : System :=
  let owned := (s.rows.get? d.delivery).any fun row => row.workerId = some d.worker
  (s.writeRow d.delivery fun row => row.heartbeat d.worker (config.ttl d.worker) s.now).setDispatch i
    { d with expires := if owned then s.now + config.ttl d.worker else d.expires }

def System.finishTurn (i : Nat) (d : Dispatch) (outcome : Outcome) : System :=
  let u := outcome.update config s.now
  (s.writeRow d.delivery fun row => row.update u).setDispatch i
    { d with phase := .ended, wrote := some u }

def System.reap (f : Delivery → Delivery) : System :=
  { s with
    rows := s.rows.map fun _ row => f row
    holders := s.holders.filter fun id _ => (s.rows.get? id).all fun row => f row = row }

def step (config : Config) (s : System) : Action → Option System
  | .insert id eventId worker claimed => s.insertRow config id eventId worker claimed
  | .claim worker limit definitionIds => some (s.claimRows config worker limit definitionIds)
  | .tick now => s.advance now
  | .start i => (s.at? i .claimed).map (s.startTurn i)
  | .heartbeat i => (s.at? i .running).map (s.beat config i)
  | .finish i outcome => (s.at? i outcome.after).map fun d => s.finishTurn config i d outcome
  | .vanish i =>
    (s.dispatches[i]?.filter Dispatch.executing).map fun d => s.setDispatch i { d with phase := .ended }
  | .leaseReap enabled =>
    if enabled then some (s.reap fun row => row.reapExpired config.limit s.now) else some s
  | .staleSweep sweep => some (s.reap fun row => row.reapStale sweep config.limit s.now)
  | .reapOrphans reap => some (s.reap fun row => row.reapOrphan reap config.limit s.now)

def System.initial : System := {}

/-! ### Reading a step -/

variable {config : Config} {s : System}

theorem at?_eq_some {i : Nat} {phase : Phase} {d : Dispatch} :
    s.at? i phase = some d ↔ s.dispatches[i]? = some d ∧ d.phase = phase := by
  simp [System.at?, filter_eq_some_iff]

theorem after_ne_ended (outcome : Outcome) : outcome.after ≠ .ended := by
  cases outcome <;> simp [Outcome.after]

theorem alive_iff {d : Dispatch} : d.alive = true ↔ d.phase ≠ .ended ∧ d.lapsed = false := by
  simp [Dispatch.alive, Dispatch.executing]

/-- What `insertRow` does: the row is new, and it is dispatched at once if it is born claimed. -/
theorem insertRow_eq_some {id eventId worker : String} {claimed : Bool} {s' : System}
    (h : s.insertRow config id eventId worker claimed = some s') :
    s.rows.get? id = none ∧
      let rows := s.rows.set id
        (addEventDelivery eventId .received claimed worker (config.ttl worker) s.now)
      (claimed = true ∧ s' = s.launch config rows worker [id] ∨
        claimed = false ∧ s' = { s with rows := rows }) := by
  rw [System.insertRow] at h
  split at h
  · cases h
  · rename_i habsent
    refine ⟨by simpa [Dict.contains] using habsent, ?_⟩
    cases claimed with
    | true => exact .inl ⟨rfl, (some.inj h).symm⟩
    | false => exact .inr ⟨rfl, (some.inj h).symm⟩

theorem get?_claimDeliveries {rows : Dict String Delivery} {ids : List String} {worker : String}
    {ttl now : Int} (id : String) :
    (claimDeliveries rows ids worker ttl now).get? id = (rows.get? id).map fun row =>
      if id ∈ ids ∧ row.claimedAt = none then row.claim worker ttl now else row :=
  Dict.get?_map ..

theorem getElem?_launch {rows : Dict String Delivery} {worker : String} {ids : List String} {i : Nat}
    {d : Dispatch} :
    (s.launch config rows worker ids).dispatches[i]? = some d ↔
      s.dispatches[i]? = some d ∨ ∃ k id, ids[k]? = some id ∧ i = s.dispatches.length + k ∧
        d = newDispatch config s worker (((s.rows.get? id).map Delivery.reenqueueCount).getD 0) id := by
  rw [System.launch, getElem?_append_eq_some, newDispatches]
  constructor
  · rintro (hold | ⟨hle, hnew⟩)
    · exact .inl hold
    · rw [List.getElem?_map, map_eq_some_iff] at hnew
      obtain ⟨id, hid, rfl⟩ := hnew
      exact .inr ⟨_, id, hid, by omega, rfl⟩
  · rintro (hold | ⟨k, id, hid, rfl, rfl⟩)
    · exact .inl hold
    · refine .inr ⟨by omega, ?_⟩
      rw [List.getElem?_map, Nat.add_sub_cancel_left, hid]
      rfl

end OpenAgent.Deliveries
