import OpenAgent.Deliveries.System
import Mathlib.Data.List.Count

/-!
# Replay

Every claim of a delivery is paid for: the first by its insertion and each further one by an increment
of `reenqueue_count`, which no reaper raises past the limit. What no reaper can undo is a row in flight
that carries `finished_at`: it is taken by no claim, and without a claim by no reaper either.
-/

namespace OpenAgent.Deliveries

open Lib List Option

variable {config : Config} {s s' : System}

def System.claims (s : System) (x : String) : Nat := s.dispatches.countP fun d => d.delivery = x

def Delivery.paid (row : Delivery) : Nat := row.reenqueueCount + if row.claimedAt.isSome then 1 else 0

structure Bounded (config : Config) (s : System) : Prop where
  row : ∀ x row, s.rows.get? x = some row →
    row.reenqueueCount ≤ config.limit ∧ s.claims x ≤ row.paid
  absent : ∀ x, s.rows.get? x = none → s.claims x = 0

theorem claims_launch {rows : Dict String Delivery} {worker : String} {ids : List String}
    (hnodup : ids.Nodup) (x : String) :
    (s.launch config rows worker ids).claims x = s.claims x + if x ∈ ids then 1 else 0 := by
  have hnew : (newDispatches config s worker ids).countP (fun d => d.delivery = x) = ids.count x := by
    rw [newDispatches, countP_map, List.count]
    apply countP_congr
    intro id _
    simp [newDispatch]
  rw [System.claims, System.launch, countP_append, hnew, List.Nodup.count hnodup]
  rfl

theorem Bounded.rows (h : Bounded config s) {now : Int} {rows : Dict String Delivery}
    {dispatches : List Dispatch} {holders : Dict String Nat}
    (hclaims : ∀ x, (dispatches.countP fun d => d.delivery = x) = s.claims x)
    (hrows : ∀ x row', rows.get? x = some row' → ∃ row, s.rows.get? x = some row ∧ row.paid ≤ row'.paid ∧
      (row.reenqueueCount ≤ config.limit → row'.reenqueueCount ≤ config.limit))
    (habsent : ∀ x, rows.get? x = none → s.rows.get? x = none) :
    Bounded config ⟨now, rows, dispatches, holders⟩ := by
  constructor
  · intro x row' hget
    obtain ⟨row, hbefore, hpaid, hlimit⟩ := hrows x row' hget
    obtain ⟨hcount, hclaimed⟩ := h.row x row hbefore
    refine ⟨hlimit hcount, ?_⟩
    rw [System.claims, hclaims]
    omega
  · intro x hnone
    rw [System.claims, hclaims]
    exact h.absent x (habsent x hnone)

variable {i limit : Nat}

theorem countP_set {dispatches : List Dispatch} {d d' : Dispatch} (hi : dispatches[i]? = some d)
    (hdelivery : d'.delivery = d.delivery) (x : String) :
    ((dispatches.set i d').countP fun d => d.delivery = x) = dispatches.countP fun d => d.delivery = x := by
  have hmap : (dispatches.set i d').map Dispatch.delivery = dispatches.map Dispatch.delivery := by
    apply ext_getElem?
    intro j
    rw [getElem?_map, getElem?_map]
    exact map_getElem?_set hi hdelivery j
  have hcount : ∀ l : List Dispatch, (l.countP fun d => d.delivery = x) =
      (l.map Dispatch.delivery).countP fun id => id = x := by
    intro l
    rw [countP_map]
    rfl
  rw [hcount, hcount, hmap]

variable {f : Delivery → Delivery}

theorem Bounded.write (h : Bounded config s) {d d' : Dispatch} (hi : s.dispatches[i]? = some d)
    (hdelivery : d'.delivery = d.delivery)
    (hf : ∀ row, (f row).reenqueueCount = row.reenqueueCount ∧ (f row).claimedAt = row.claimedAt) :
    Bounded config ((s.writeRow d.delivery f).setDispatch i d') := by
  refine h.rows (countP_set hi hdelivery) ?_ ?_
  · intro x row' hget
    obtain ⟨row, hbefore, rfl⟩ := Dict.get?_update_eq_some.mp hget
    obtain ⟨hcount, hclaimed⟩ := hf row
    refine ⟨row, hbefore, ?_, ?_⟩
    · split
      · rw [Delivery.paid, Delivery.paid, hcount, hclaimed]
      · exact Nat.le_refl _
    · intro hlimit
      split
      · rw [hcount]
        exact hlimit
      · exact hlimit
  · intro x hnone
    have hsome := Dict.isSome_get?_update s.rows d.delivery x f
    rw [show (s.rows.update d.delivery f).get? x = none from hnone] at hsome
    exact Option.isNone_iff_eq_none.mp (by simpa using hsome.symm)

variable {row row' : Delivery}

theorem Reaped.paid_le {eligible : Prop} {now : Int} (h : Reaped row eligible limit now row')
    : row.paid ≤ row'.paid := by
  cases h with
  | kept => exact Nat.le_refl _
  | failed hflight hstatus hfinished hclaimed hcount =>
    rw [Delivery.paid, Delivery.paid, hclaimed, hcount]
  | requeued heligible hbudget hbefore hstatus hfinished hclaimed hcount =>
    rw [Delivery.paid, Delivery.paid, hclaimed, hcount]
    split
    · exact Nat.le_refl _
    · omega

theorem Reaped.count_le {eligible : Prop} {now : Int} (h : Reaped row eligible limit now row')
    (hlimit : row.reenqueueCount ≤ limit) :
    row'.reenqueueCount ≤ limit := by
  cases h with
  | kept => exact hlimit
  | failed hflight hstatus hfinished hclaimed hcount => omega
  | requeued heligible hbudget hbefore hstatus hfinished hclaimed hcount => omega

theorem Bounded.reap (h : Bounded config s) {eligible : Delivery → Prop}
    (hreaped : ∀ row, Reaped row (eligible row) config.limit s.now (f row)) :
    Bounded config (s.reap f) := by
  refine h.rows (fun _ => rfl) ?_ ?_
  · intro x row' hget
    rw [Dict.get?_map, map_eq_some_iff] at hget
    obtain ⟨row, hbefore, rfl⟩ := hget
    exact ⟨row, hbefore, (hreaped row).paid_le, (hreaped row).count_le⟩
  · intro x hnone
    rw [Dict.get?_map, map_eq_none_iff] at hnone
    exact hnone

theorem Bounded.insertRow (h : Bounded config s) {id eventId worker : String} {claimed : Bool}
    (hstep : s.insertRow config id eventId worker claimed = some s') : Bounded config s' := by
  obtain ⟨habsent, hcase⟩ := insertRow_eq_some hstep
  have hnone := h.absent id habsent
  rcases hcase with ⟨rfl, rfl⟩ | ⟨rfl, rfl⟩
  · constructor
    · intro x row hget
      rw [claims_launch (nodup_singleton id)]
      have hget' : (s.rows.set id _).get? x = some row := hget
      rw [Dict.get?_set] at hget'
      by_cases hx : x = id
      · rw [if_pos hx] at hget'
        cases hget'
        rw [hx, hnone]
        exact ⟨Nat.zero_le _, by simp [Delivery.paid, addEventDelivery]⟩
      · rw [if_neg hx] at hget'
        simpa [hx] using h.row x row hget'
    · intro x hget
      have hget' : (s.rows.set id _).get? x = none := hget
      rw [Dict.get?_set] at hget'
      split at hget'
      · cases hget'
      · rename_i hx
        rw [claims_launch (nodup_singleton id), h.absent x hget']
        simp [hx]
  · constructor
    · intro x row hget
      have hclaims : ({ s with rows := _ } : System).claims x = s.claims x := rfl
      have hget' : (s.rows.set id _).get? x = some row := hget
      rw [Dict.get?_set] at hget'
      split at hget'
      · rename_i hx
        cases hget'
        refine ⟨Nat.zero_le _, ?_⟩
        show s.claims x ≤ _
        rw [hx, hnone]
        exact Nat.zero_le _
      · exact h.row x row hget'
    · intro x hget
      have hget' : (s.rows.set id _).get? x = none := hget
      rw [Dict.get?_set] at hget'
      split at hget'
      · cases hget'
      · exact h.absent x hget'

theorem Bounded.claimRows (h : Bounded config s) (worker : String) (limit : Nat)
    (definitionIds : Option (List String)) :
    Bounded config (s.claimRows config worker limit definitionIds) := by
  have hclaims : ∀ x, (s.claimRows config worker limit definitionIds).claims x =
      s.claims x + if x ∈ pending s.rows limit definitionIds then 1 else 0 :=
    fun x => claims_launch (nodup_pending s.rows limit definitionIds) x
  constructor
  · intro x row' hget
    have hget' : (claimDeliveries s.rows (pending s.rows limit definitionIds) worker (config.ttl worker)
      s.now).get? x = some row' := hget
    rw [get?_claimDeliveries, map_eq_some_iff] at hget'
    obtain ⟨row, hbefore, rfl⟩ := hget'
    obtain ⟨hcount, hpaid⟩ := h.row x row hbefore
    rw [hclaims]
    by_cases hmem : x ∈ pending s.rows limit definitionIds
    · obtain ⟨row', hsame, hclaimable⟩ := mem_pending hmem
      cases hbefore.symm.trans hsame
      simp only [Delivery.claimable, Bool.and_eq_true, isNone_iff_eq_none] at hclaimable
      have hnone := hclaimable.1.1
      have hclaimed : (row.claim worker (config.ttl worker) s.now).paid = row.reenqueueCount + 1 := rfl
      rw [if_pos hmem, if_pos ⟨hmem, hnone⟩, hclaimed]
      rw [Delivery.paid, hnone] at hpaid
      exact ⟨hcount, by simpa using hpaid⟩
    · rw [if_neg hmem, if_neg fun hc => hmem hc.1]
      exact ⟨hcount, hpaid⟩
  · intro x hget
    have hget' : (claimDeliveries s.rows (pending s.rows limit definitionIds) worker (config.ttl worker)
      s.now).get? x = none := hget
    rw [get?_claimDeliveries, map_eq_none_iff] at hget'
    have hmem : x ∉ pending s.rows limit definitionIds := by
      intro hmem
      obtain ⟨row, hbefore, -⟩ := mem_pending hmem
      simp [hget'] at hbefore
    rw [hclaims, if_neg hmem, h.absent x hget']

theorem Bounded.kept (h : Bounded config s) {a : Action} (hstep : step config s a = some s') :
    Bounded config s' := by
  cases a with
  | insert id eventId worker claimed => exact h.insertRow hstep
  | claim worker limit definitionIds =>
    cases hstep
    exact h.claimRows worker limit definitionIds
  | tick now =>
    rw [step, System.advance] at hstep
    split at hstep
    · cases hstep
      refine h.rows ?_ (fun x row hget => ⟨row, hget, Nat.le_refl _, fun hle => hle⟩) fun x hnone => hnone
      intro x
      rw [countP_map]
      rfl
    · cases hstep
  | start i =>
    obtain ⟨d, hat, rfl⟩ := Option.map_eq_some_iff.mp hstep
    exact h.write (at?_eq_some.mp hat).1 rfl fun row => ⟨rfl, rfl⟩
  | heartbeat i =>
    obtain ⟨d, hat, rfl⟩ := Option.map_eq_some_iff.mp hstep
    refine h.write (at?_eq_some.mp hat).1 rfl fun row => ?_
    rw [Delivery.heartbeat]
    split <;> exact ⟨rfl, rfl⟩
  | finish i outcome =>
    obtain ⟨d, hat, rfl⟩ := Option.map_eq_some_iff.mp hstep
    exact h.write (at?_eq_some.mp hat).1 rfl fun row => ⟨rfl, rfl⟩
  | vanish i =>
    obtain ⟨d, hat, rfl⟩ := Option.map_eq_some_iff.mp hstep
    obtain ⟨hi, -⟩ := Option.filter_eq_some_iff.mp hat
    exact h.rows (countP_set hi rfl) (fun x row hget => ⟨row, hget, Nat.le_refl _, fun hle => hle⟩)
      fun x hnone => hnone
  | leaseReap enabled =>
    cases enabled with
    | false =>
      cases hstep
      exact h
    | true =>
      cases hstep
      exact h.reap fun row => reapExpired_reaped row ..
  | staleSweep sweep =>
    cases hstep
    exact h.reap fun row => reapStale_reaped row ..
  | reapOrphans reap =>
    cases hstep
    exact h.reap fun row => reapOrphan_reaped row ..

theorem bounded_initial : Bounded config System.initial := by
  constructor
  · intro x row hget
    cases hget
  · intro x _
    rfl

theorem Bounded.claims_le (h : Bounded config s) (x : String) : s.claims x ≤ config.limit + 1 := by
  cases hget : s.rows.get? x with
  | none =>
    rw [h.absent x hget]
    exact Nat.zero_le _
  | some row =>
    obtain ⟨hcount, hpaid⟩ := h.row x row hget
    have hone : (if row.claimedAt.isSome then 1 else 0) ≤ 1 := by
      split <;> omega
    rw [Delivery.paid] at hpaid
    omega

/-! ### Rows in flight -/

/-- No row in flight carries `finished_at`. -/
def Open (s : System) : Prop :=
  ∀ x row, s.rows.get? x = some row → row.inFlight = true → row.finishedAt = none

def Outcome.settles : Outcome → Bool
  | .returned result => !result.finalStatus.inFlight
  | _ => true

/-- A runner does not write `running` to a finished row, and no turn returns a status in flight. -/
def KeepsOpen (s : System) : Action → Bool
  | .start i => s.dispatches[i]?.all fun d =>
    (s.rows.get? d.delivery).all fun row => row.finishedAt.isNone
  | .finish _ outcome => outcome.settles
  | _ => true

theorem Open.write (h : Open s) {d d' : Dispatch}
    (hf : ∀ row, s.rows.get? d.delivery = some row → (f row).inFlight = true →
      (f row).finishedAt = none) :
    Open ((s.writeRow d.delivery f).setDispatch i d') := by
  intro x row' hget
  obtain ⟨row, hbefore, rfl⟩ := Dict.get?_update_eq_some.mp hget
  split
  · rename_i hx
    exact hf row (hx ▸ hbefore)
  · exact h x row hbefore

theorem Reaped.keeps_open {eligible : Prop} {now : Int} (h : Reaped row eligible limit now row')
    (hopen : row.inFlight = true → row.finishedAt = none) :
    row'.inFlight = true → row'.finishedAt = none := by
  cases h with
  | kept => exact hopen
  | failed hflight hstatus =>
    intro hin
    simp [not_inFlight_of_failed hstatus] at hin
  | requeued heligible hbudget hbefore hstatus hfinished => exact fun _ => hfinished

theorem Open.reap (h : Open s) {eligible : Delivery → Prop}
    (hreaped : ∀ row, Reaped row (eligible row) limit s.now (f row)) : Open (s.reap f) := by
  intro x row' hget
  have hget' : (s.rows.map fun _ row => f row).get? x = some row' := hget
  rw [Dict.get?_map, map_eq_some_iff] at hget'
  obtain ⟨row, hbefore, rfl⟩ := hget'
  exact (hreaped row).keeps_open (h x row hbefore)

theorem Open.insertRow (h : Open s) {id eventId worker : String} {claimed : Bool}
    (hstep : s.insertRow config id eventId worker claimed = some s') : Open s' := by
  obtain ⟨-, hcase⟩ := insertRow_eq_some hstep
  have hrows : s'.rows = s.rows.set id
      (addEventDelivery eventId .received claimed worker (config.ttl worker) s.now) := by
    rcases hcase with ⟨-, rfl⟩ | ⟨-, rfl⟩ <;> rfl
  intro x row hget
  rw [hrows, Dict.get?_set] at hget
  split at hget
  · cases hget
    exact fun _ => rfl
  · exact h x row hget

theorem outcome_not_inFlight {outcome : Outcome} (hkeeps : KeepsOpen s (.finish i outcome) = true)
    (row : Delivery) : (row.update (outcome.update config s.now)).inFlight = false := by
  cases outcome with
  | blocked => rfl
  | skipped reason => rfl
  | returned result =>
    have hsettles : (!result.finalStatus.inFlight) = true := hkeeps
    exact Bool.not_eq_true' _ ▸ hsettles
  | raised detail => rfl
  | cancelled => rfl

theorem Open.kept (h : Open s) {a : Action} (hkeeps : KeepsOpen s a = true)
    (hstep : step config s a = some s') : Open s' := by
  cases a with
  | insert id eventId worker claimed => exact h.insertRow hstep
  | claim worker limit definitionIds =>
    cases hstep
    intro x row' hget
    have hget' : (claimDeliveries s.rows _ worker _ s.now).get? x = some row' := hget
    rw [get?_claimDeliveries, map_eq_some_iff] at hget'
    obtain ⟨row, hbefore, rfl⟩ := hget'
    split
    · exact h x row hbefore
    · exact h x row hbefore
  | tick now =>
    rw [step, System.advance] at hstep
    split at hstep
    · cases hstep
      exact h
    · cases hstep
  | start i =>
    obtain ⟨d, hat, rfl⟩ := Option.map_eq_some_iff.mp hstep
    refine h.write fun row hget _ => ?_
    rw [KeepsOpen, (at?_eq_some.mp hat).1, all_some, hget, all_some,
      isNone_iff_eq_none] at hkeeps
    rw [update_finishedAt, hkeeps]
    rfl
  | heartbeat i =>
    obtain ⟨d, hat, rfl⟩ := Option.map_eq_some_iff.mp hstep
    refine h.write fun row hget => ?_
    rw [Delivery.heartbeat]
    split
    · exact h _ row hget
    · exact h _ row hget
  | finish i outcome =>
    obtain ⟨d, hat, rfl⟩ := Option.map_eq_some_iff.mp hstep
    refine h.write fun row _ hin => ?_
    simp [outcome_not_inFlight hkeeps] at hin
  | vanish i =>
    obtain ⟨d, -, rfl⟩ := Option.map_eq_some_iff.mp hstep
    exact h
  | leaseReap enabled =>
    cases enabled with
    | false =>
      cases hstep
      exact h
    | true =>
      cases hstep
      exact h.reap fun row => reapExpired_reaped row ..
  | staleSweep sweep =>
    cases hstep
    exact h.reap fun row => reapStale_reaped row ..
  | reapOrphans reap =>
    cases hstep
    exact h.reap fun row => reapOrphan_reaped row ..

theorem stale_in_time (hflight : row.inFlight = true) (hclaimed : row.claimedAt.isSome = true)
    (sweep : Sweep) :
    ∃ since, ∀ now, since ≤ now → row.stale sweep now = true := by
  obtain ⟨c, hc⟩ := Option.isSome_iff_exists.mp hclaimed
  refine ⟨c + max 0 sweep.minClaimAgeSeconds, fun now hnow => ?_⟩
  have hle : c ≤ now - max 0 sweep.minClaimAgeSeconds := by omega
  simp [Delivery.stale, hc, hle, hflight]

theorem reapStale_ne_of_stale {sweep : Sweep} {now : Int} (henabled : sweep.enabled = true)
    (hstale : row.stale sweep now = true) :
    row.reapStale sweep limit now ≠ row := by
  intro hsame
  rw [reapStale_of_stale limit henabled hstale] at hsame
  have hflight := inFlight_of_stale hstale
  split at hsame
  · have hfailed : (row.park "stale-sweep" now).inFlight = false := not_inFlight_of_failed rfl
    simp [hsame, hflight] at hfailed
  · have hcount := congrArg Delivery.reenqueueCount hsame
    have hmore : row.reenqueueCount + 1 = row.reenqueueCount := hcount
    omega

theorem Open.not_stuck (h : Open s) {x : String} (hget : s.rows.get? x = some row)
    (hflight : row.inFlight = true) :
    row.finishedAt = none ∧ (row.claimable none = true ∨ ∀ (sweep : Sweep) (limit : Nat),
      sweep.enabled = true → ∃ since, ∀ now, since ≤ now → row.reapStale sweep limit now ≠ row) := by
  have hfinished := h x row hget hflight
  refine ⟨hfinished, ?_⟩
  cases hclaimed : row.claimedAt with
  | none => exact .inl (by simp [Delivery.claimable, hclaimed, hfinished])
  | some c =>
    refine .inr fun sweep limit henabled => ?_
    obtain ⟨since, hstale⟩ := stale_in_time hflight (by rw [hclaimed]; rfl) sweep
    exact ⟨since, fun now hnow => reapStale_ne_of_stale henabled (hstale now hnow)⟩

/-- The replay of every delivery is bounded; and where no runner writes a status in flight to a finished
row or at the end of its turn, no delivery is stuck. -/
theorem replay_is_bounded {as : List Action} (hrun : run (step config) System.initial as = some s) :
    (∀ x row, s.rows.get? x = some row → row.reenqueueCount ≤ config.limit) ∧
    (∀ x, s.claims x ≤ config.limit + 1) ∧
    (Along (step config) (fun u a => KeepsOpen u a = true) System.initial as →
      ∀ x row, s.rows.get? x = some row → row.inFlight = true →
        row.finishedAt = none ∧ (row.claimable none = true ∨ ∀ (sweep : Sweep) (limit : Nat),
          sweep.enabled = true → ∃ since, ∀ now, since ≤ now → row.reapStale sweep limit now ≠ row)) := by
  have hbounded : Bounded config s :=
    run_invariant (fun _ _ _ hs hstep => hs.kept hstep) bounded_initial hrun
  refine ⟨fun x row hget => (hbounded.row x row hget).1, hbounded.claims_le, fun hkeeps => ?_⟩
  have hinitial : Open System.initial := by
    intro x row hget
    cases hget
  have hopen : Open s :=
    run_invariant_along (fun _ _ _ hs hC hstep => hs.kept hC hstep) hinitial hkeeps hrun
  exact fun x row hget hflight => hopen.not_stuck hget hflight

def replayedTurn : List Action :=
  [.insert "delivery" "event" "worker" true, .start 0, .tick 2000, .staleSweep {},
    .claim "worker" 1 none, .start 1, .finish 1 (.raised "connection reset")]

theorem replayed_turn_is_bounded :
    ∃ s, run (step {}) System.initial replayedTurn = some s ∧ s.claims "delivery" ≤ 6 ∧ Open s := by
  have hsome : (run (step {}) System.initial replayedTurn).isSome = true := by decide +kernel
  obtain ⟨s, hs⟩ := Option.isSome_iff_exists.mp hsome
  obtain ⟨-, hclaims, hopen⟩ := replay_is_bounded hs
  refine ⟨s, hs, hclaims "delivery", fun x row hget hflight => ?_⟩
  exact (hopen (by decide +kernel) x row hget hflight).1

theorem out_of_reach (hflight : row.inFlight = true) (hfinished : row.finishedAt.isSome = true)
    (hclaimed : row.claimedAt = none) (hexpires : row.claimExpires = none) :
    (∀ ids, row.claimable ids = false) ∧ (∀ limit now, row.reapExpired limit now = row) ∧
      (∀ sweep limit now, row.reapStale sweep limit now = row) ∧
      ∀ reap limit now, row.reapOrphan reap limit now = row := by
  have hfailed : ∀ mark, row.failedWith mark = false := by
    intro mark
    cases hmark : row.failedWith mark with
    | false => rfl
    | true =>
      simp [not_inFlight_of_failed (status_of_failedWith hmark)] at hflight
  refine ⟨fun ids => ?_, fun limit now => ?_, fun sweep limit now => ?_, fun reap limit now => ?_⟩
  · obtain ⟨c, hc⟩ := Option.isSome_iff_exists.mp hfinished
    simp [Delivery.claimable, hc]
  · exact reapExpired_of_not_expired (by simp [Delivery.leaseExpired, hexpires])
  · have hstale : row.stale sweep now = false := by simp [Delivery.stale, hclaimed]
    simp [Delivery.reapStale, sweepStale_of_not_stale hstale, Delivery.retryTransient,
      Delivery.retryable, hfailed]
  · simp [Delivery.reapOrphan, Delivery.orphaned, Delivery.recoverable, hclaimed]

/-- A runner comes back after its delivery was given back and reports the status `running` of a task
that is still under way; the delivery is then lost to every claim and every reaper. -/
theorem delivery_lost_in_flight :
    ∃ s row, run (step {}) System.initial
        [.insert "delivery" "event" "worker" true, .start 0, .tick 200, .leaseReap true,
          .finish 0 (.returned { status := some .running })] = some s ∧
      s.rows.get? "delivery" = some row ∧ row.inFlight = true ∧ row.finishedAt.isSome = true ∧
      (∀ ids, row.claimable ids = false) ∧ (∀ limit now, row.reapExpired limit now = row) ∧
      (∀ sweep limit now, row.reapStale sweep limit now = row) ∧
      ∀ reap limit now, row.reapOrphan reap limit now = row := by
  have htrace : ((run (step {}) System.initial
      [.insert "delivery" "event" "worker" true, .start 0, .tick 200, .leaseReap true,
        .finish 0 (.returned { status := some .running })]).bind fun s =>
      (s.rows.get? "delivery").map fun row =>
        (row.inFlight, row.finishedAt.isSome, row.claimedAt, row.claimExpires)) =
      some (true, true, none, none) := by
    decide +kernel
  obtain ⟨s, hs, hrest⟩ := Option.bind_eq_some_iff.mp htrace
  obtain ⟨row, hget, hread⟩ := Option.map_eq_some_iff.mp hrest
  simp only [Prod.mk.injEq] at hread
  obtain ⟨hflight, hfinished, hclaimed, hexpires⟩ := hread
  exact ⟨s, row, hs, hget, hflight, hfinished, out_of_reach hflight hfinished hclaimed hexpires⟩

end OpenAgent.Deliveries
