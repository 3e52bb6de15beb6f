import OpenAgent.Deliveries.System

/-!
# Late writers

A runner writes to its delivery by the delivery's id alone, and its beats are told apart only by the
process they come from. So a runner whose claim was taken can still overwrite what the next holder
recorded. Where no runner acts once its claim is gone, what is recorded of a delivery is what its holder
wrote, and a success stays.
-/

namespace OpenAgent.Deliveries

open Lib Option List

variable {config : Config} {s s' : System}

structure Shows (d : Dispatch) (row : Delivery) : Prop where
  claimed : row.claimedAt.isSome = true
  unfinished : d.wrote = none → row.inFlight = true ∧ row.finishedAt = none
  finished : ∀ u, d.wrote = some u →
    d.phase = .ended ∧ row.status = u.status ∧ ∀ e, u.error = some e → row.error = e

def Unheld (row : Delivery) : Prop :=
  row.status = .failed ∧ row.finishedAt.isSome = true ∨ row.status = .received ∧ row.finishedAt = none

structure Recorded (s : System) : Prop where
  held : ∀ x i, s.holders.get? x = some i → ∃ d row, s.dispatches[i]? = some d ∧ d.delivery = x ∧
    s.rows.get? x = some row ∧ Shows d row
  unheld : ∀ x row, s.rows.get? x = some row → s.holders.get? x = none → Unheld row

/-- Whether dispatch `i` has the claim of its delivery. -/
def System.holds (s : System) (i : Nat) : Bool :=
  s.dispatches[i]?.any fun d => s.holders.get? d.delivery = some i

def HolderActs (s : System) : Action → Prop
  | .start i | .finish i _ => s.holds i = true
  | .heartbeat i => s.holds i = true ∨
    s.dispatches[i]?.all (fun d =>
      (s.rows.get? d.delivery).all fun row => row.workerId ≠ some d.worker) = true
  | _ => True

instance (s : System) (a : Action) : Decidable (HolderActs s a) := by
  unfold HolderActs
  split <;> infer_instance

variable {i limit : Nat}

variable {d : Dispatch}

theorem holds_iff (hi : s.dispatches[i]? = some d) :
    s.holds i = true ↔ s.holders.get? d.delivery = some i := by
  rw [System.holds, hi, any_some, decide_eq_true_eq]

/-! ### New claims -/

theorem get?_hold {ids : List String} (hnodup : ids.Nodup) {next : Nat} {holders : Dict String Nat}
    (x : String) :
    (hold next ids holders).get? x =
      if x ∈ ids then some (next + ids.idxOf x) else holders.get? x := by
  induction ids generalizing next holders with
  | nil => rfl
  | cons id rest ih =>
    obtain ⟨hnot, hrest⟩ := List.nodup_cons.mp hnodup
    rw [hold, ih hrest]
    by_cases hx : x = id
    · subst hx
      simp [hnot]
    · have hne : (id == x) = false := by simpa using Ne.symm hx
      by_cases hmem : x ∈ rest
      · simp [hmem, idxOf_cons, hne]
        omega
      · simp [hmem, hx, Dict.get?_set_ne _ _ hx]

theorem Recorded.launch (h : Recorded s) {rows : Dict String Delivery} {worker : String}
    {ids : List String} (hnodup : ids.Nodup)
    (hkeep : ∀ id, id ∉ ids → (s.holders.get? id).isSome = true → rows.get? id = s.rows.get? id)
    (hback : ∀ id row, id ∉ ids → s.holders.get? id = none → rows.get? id = some row → Unheld row)
    (hnew : ∀ id ∈ ids, ∃ row, rows.get? id = some row ∧ row.claimedAt.isSome = true ∧
      row.inFlight = true ∧ row.finishedAt = none) :
    Recorded (s.launch config rows worker ids) := by
  constructor
  · intro x i hx
    rw [show (s.launch config rows worker ids).holders = hold s.dispatches.length ids s.holders from rfl,
      get?_hold hnodup] at hx
    by_cases hmem : x ∈ ids
    · rw [if_pos hmem] at hx
      cases hx
      obtain ⟨row, hget, hclaimed, hflight, hfinished⟩ := hnew x hmem
      have hplace : ids[ids.idxOf x]? = some x := getElem?_idxOf hmem
      refine ⟨_, row, getElem?_launch.mpr (.inr ⟨_, x, hplace, rfl, rfl⟩), rfl, hget, hclaimed, ?_, ?_⟩
      · intro _
        exact ⟨hflight, hfinished⟩
      · exact fun _ h => nomatch h
    · rw [if_neg hmem] at hx
      obtain ⟨d, row, hi, hdelivery, hget, hshows⟩ := h.held x i hx
      refine ⟨d, row, getElem?_launch.mpr (.inl hi), hdelivery, ?_, hshows⟩
      exact (hkeep x hmem (by rw [hx]; rfl)).trans hget
  · intro x row hget hfree
    rw [show (s.launch config rows worker ids).holders = hold s.dispatches.length ids s.holders from rfl,
      get?_hold hnodup] at hfree
    split at hfree
    · cases hfree
    · rename_i hmem
      exact hback x row hmem hfree hget

theorem Recorded.insertRow (h : Recorded s) {id eventId worker : String} {claimed : Bool}
    (hstep : s.insertRow config id eventId worker claimed = some s') : Recorded s' := by
  obtain ⟨habsent, hcase⟩ := insertRow_eq_some hstep
  have hnobody : s.holders.get? id = none := by
    cases hholder : s.holders.get? id with
    | none => rfl
    | some i =>
      obtain ⟨d, row, -, -, hget, -⟩ := h.held id i hholder
      simp [habsent] at hget
  rcases hcase with ⟨rfl, rfl⟩ | ⟨rfl, rfl⟩
  · refine h.launch (nodup_singleton id) ?_ ?_ ?_
    · intro x hx _
      exact Dict.get?_set_ne _ _ fun heq => hx (List.mem_singleton.mpr heq)
    · intro x row hx hfree hget
      rw [Dict.get?_set_ne _ _ fun heq => hx (List.mem_singleton.mpr heq)] at hget
      exact h.unheld x row hget hfree
    · intro x hx
      cases List.mem_singleton.mp hx
      exact ⟨_, Dict.get?_set_self .., rfl, rfl, rfl⟩
  · constructor
    · intro x i hx
      obtain ⟨d, row, hi, hdelivery, hget, hshows⟩ := h.held x i hx
      refine ⟨d, row, hi, hdelivery, ?_, hshows⟩
      rw [Dict.get?_set_ne _ _ fun heq => by rw [heq, hnobody] at hx; cases hx]
      exact hget
    · intro x row hget hfree
      rw [Dict.get?_set] at hget
      split at hget
      · cases hget
        exact .inr ⟨rfl, rfl⟩
      · exact h.unheld x row hget hfree

theorem Recorded.claimRows (h : Recorded s) (worker : String) (limit : Nat)
    (definitionIds : Option (List String)) : Recorded (s.claimRows config worker limit definitionIds) := by
  have hopen : ∀ id ∈ pending s.rows limit definitionIds, ∃ row, s.rows.get? id = some row ∧
      row.claimedAt = none ∧ row.finishedAt = none := by
    intro id hid
    obtain ⟨row, hget, hrow⟩ := mem_pending hid
    simp only [Delivery.claimable, Bool.and_eq_true, isNone_iff_eq_none] at hrow
    exact ⟨row, hget, hrow.1.1, hrow.1.2⟩
  refine h.launch (nodup_pending ..) ?_ ?_ ?_
  · intro id hid _
    rw [get?_claimDeliveries]
    cases s.rows.get? id with
    | none => rfl
    | some row => rw [map_some, if_neg fun hc => hid hc.1]
  · intro id row hid hfree hget
    rw [get?_claimDeliveries, map_eq_some_iff] at hget
    obtain ⟨row', hget', rfl⟩ := hget
    rw [if_neg fun hc => hid hc.1]
    exact h.unheld id row' hget' hfree
  · intro id hid
    obtain ⟨row, hget, hnone, hfinished⟩ := hopen id hid
    refine ⟨row.claim worker (config.ttl worker) s.now, ?_, rfl, ?_, hfinished⟩
    · rw [get?_claimDeliveries, hget, map_some, if_pos ⟨hid, hnone⟩]
    · have hfree : s.holders.get? id = none := by
        cases hholder : s.holders.get? id with
        | none => rfl
        | some i =>
          obtain ⟨d, row', -, -, hget', hshows⟩ := h.held id i hholder
          cases hget.symm.trans hget'
          have := hshows.claimed
          simp [hnone] at this
      rcases h.unheld id row hget hfree with ⟨-, hdone⟩ | ⟨hstatus, -⟩
      · simp [hfinished] at hdone
      · simp [Delivery.inFlight, Status.inFlight, Delivery.claim, hstatus]

/-! ### Runners -/

variable {f : Delivery → Delivery}

theorem Recorded.write (h : Recorded s) {d d' : Dispatch}
    (hi : s.dispatches[i]? = some d) (hdelivery : d'.delivery = d.delivery)
    (hholds : s.holders.get? d.delivery = some i) (hshows : ∀ row, Shows d row → Shows d' (f row)) :
    Recorded ((s.writeRow d.delivery f).setDispatch i d') := by
  constructor
  · intro x j hx
    obtain ⟨e, row, hj, hedelivery, hget, heshows⟩ := h.held x j hx
    by_cases hij : j = i
    · subst hij
      cases hi.symm.trans hj
      subst hedelivery
      refine ⟨d', f row, ?_, hdelivery, ?_, hshows row heshows⟩
      · exact (getElem?_set_eq_some hi).mpr (.inl ⟨rfl, rfl⟩)
      · show (s.rows.update d.delivery f).get? d.delivery = some (f row)
        rw [Dict.get?_update, if_pos rfl, hget, map_some]
    · have hxholds : s.holders.get? x = some j := hx
      have hne : x ≠ d.delivery := by
        intro heq
        rw [heq, hholds] at hxholds
        exact hij (some.inj hxholds).symm
      refine ⟨e, row, ?_, hedelivery, ?_, heshows⟩
      · exact (getElem?_set_eq_some hi).mpr (.inr ⟨fun heq => hij heq.symm, hj⟩)
      · show (s.rows.update d.delivery f).get? x = some row
        rw [Dict.get?_update, if_neg hne]
        exact hget
  · intro x row hget hfree
    have hne : x ≠ d.delivery := by
      rintro rfl
      exact absurd (hholds.symm.trans hfree) (nofun)
    have hget' : (s.rows.update d.delivery f).get? x = some row := hget
    rw [Dict.get?_update, if_neg hne] at hget'
    exact h.unheld x row hget' hfree

theorem Recorded.frame (h : Recorded s) {d d' : Dispatch}
    (hi : s.dispatches[i]? = some d) (hdelivery : d'.delivery = d.delivery) (hwrote : d'.wrote = d.wrote)
    (hphase : d.phase = .ended → d'.phase = .ended)
    (hf : ∀ row, (f row).status = row.status ∧ (f row).finishedAt = row.finishedAt ∧
      (f row).error = row.error ∧ (f row).claimedAt = row.claimedAt) :
    Recorded ((s.writeRow d.delivery f).setDispatch i d') := by
  have hinFlight : ∀ row, (f row).inFlight = row.inFlight := by
    intro row
    rw [Delivery.inFlight, (hf row).1]
    rfl
  have hrow : ∀ e row, Shows e row → Shows e (f row) := by
    intro e row hshows
    obtain ⟨hstatus, hfinished, herror, hclaimed⟩ := hf row
    refine ⟨hclaimed ▸ hshows.claimed, ?_, ?_⟩
    · rw [hinFlight, hfinished]
      exact hshows.unfinished
    · rw [hstatus, herror]
      exact hshows.finished
  have hself : ∀ row, Shows d row → Shows d' row := by
    intro row hshows
    refine ⟨hshows.claimed, hwrote ▸ hshows.unfinished, fun u hu => ?_⟩
    obtain ⟨hended, hrest⟩ := hshows.finished u (hwrote ▸ hu)
    exact ⟨hphase hended, hrest⟩
  have hget : ∀ x row, s.rows.get? x = some row →
      (s.rows.update d.delivery f).get? x = some (if x = d.delivery then f row else row) := by
    intro x row hget
    rw [Dict.get?_update, hget]
    split <;> rfl
  constructor
  · intro x j hx
    obtain ⟨e, row, hj, hedelivery, hxrow, hshows⟩ := h.held x j hx
    have hstill : ∀ e', Shows e' row → Shows e' (if x = d.delivery then f row else row) := by
      intro e' he'
      split
      · exact hrow e' row he'
      · exact he'
    by_cases hij : i = j
    · subst hij
      cases hi.symm.trans hj
      exact ⟨d', _, (getElem?_set_eq_some hi).mpr (.inl ⟨rfl, rfl⟩), hdelivery.trans hedelivery,
        hget x row hxrow, hstill d' (hself row hshows)⟩
    · exact ⟨e, _, (getElem?_set_eq_some hi).mpr (.inr ⟨hij, hj⟩), hedelivery, hget x row hxrow,
        hstill e hshows⟩
  · intro x row hnew hfree
    have hnew' : (s.rows.update d.delivery f).get? x = some row := hnew
    obtain ⟨row', hold, rfl⟩ := Dict.get?_update_eq_some.mp hnew'
    have hunheld := h.unheld x row' hold hfree
    split
    · rw [Unheld, (hf row').1, (hf row').2.1]
      exact hunheld
    · exact hunheld

theorem heartbeat_frame (row : Delivery) (worker : String) (ttl now : Int) :
    let beaten := row.heartbeat worker ttl now
    beaten.status = row.status ∧ beaten.finishedAt = row.finishedAt ∧ beaten.error = row.error ∧
      beaten.claimedAt = row.claimedAt := by
  simp only [Delivery.heartbeat]
  split <;> exact ⟨rfl, rfl, rfl, rfl⟩

theorem Recorded.startTurn (h : Recorded s) {i : Nat} (hi : s.dispatches[i]? = some d)
    (hphase : d.phase = .claimed) (hholds : s.holds i = true) : Recorded (s.startTurn i d) := by
  refine h.write hi rfl ((holds_iff hi).mp hholds) fun row hshows => ⟨hshows.claimed, ?_, ?_⟩
  · intro hwrote
    exact ⟨rfl, (hshows.unfinished hwrote).2⟩
  · intro u hu
    have hended := (hshows.finished u hu).1
    simp [hphase] at hended

theorem Recorded.finishTurn (h : Recorded s) (hi : s.dispatches[i]? = some d)
    (hholds : s.holds i = true) (outcome : Outcome) : Recorded (s.finishTurn config i d outcome) := by
  refine h.write hi rfl ((holds_iff hi).mp hholds) fun row hshows => ⟨hshows.claimed, ?_, ?_⟩
  · exact nofun
  · rintro u hu
    cases hu
    refine ⟨rfl, rfl, fun e he => ?_⟩
    show (outcome.update config s.now).error.getD row.error = e
    rw [he, getD_some]

theorem Recorded.beat (h : Recorded s) (hi : s.dispatches[i]? = some d) :
    Recorded (s.beat config i d) :=
  h.frame hi rfl rfl (fun hended => hended) fun row => heartbeat_frame row ..

/-! ### The clock and the reapers -/

theorem Recorded.dispatches (h : Recorded s) {now : Int} {dispatches : List Dispatch}
    (hkeep : ∀ (i : Nat) (d : Dispatch), s.dispatches[i]? = some d → ∃ d', dispatches[i]? = some d' ∧
      d'.delivery = d.delivery ∧ d'.wrote = d.wrote ∧ (d.phase = .ended → d'.phase = .ended)) :
    Recorded { s with now := now, dispatches := dispatches } := by
  refine ⟨fun x i hx => ?_, h.unheld⟩
  obtain ⟨d, row, hi, hdelivery, hget, hshows⟩ := h.held x i hx
  obtain ⟨d', hi', hdelivery', hwrote, hphase⟩ := hkeep i d hi
  refine ⟨d', row, hi', hdelivery'.trans hdelivery, hget, hshows.claimed, ?_, fun u hu => ?_⟩
  · rw [hwrote]
    exact hshows.unfinished
  · obtain ⟨hended, hrest⟩ := hshows.finished u (hwrote ▸ hu)
    exact ⟨hphase hended, hrest⟩

theorem Recorded.advance (h : Recorded s) {now : Int} (hstep : s.advance now = some s') :
    Recorded s' := by
  rw [System.advance] at hstep
  split at hstep
  · cases hstep
    refine h.dispatches fun i d hi => ⟨{ d with
      lapsed := d.lapsed || (d.executing && decide (d.expires < now)) }, ?_, rfl, rfl, fun hended => hended⟩
    rw [getElem?_map, hi, map_some]
  · cases hstep

theorem Recorded.vanish (h : Recorded s) (hi : s.dispatches[i]? = some d) :
    Recorded (s.setDispatch i { d with phase := .ended }) := by
  refine h.dispatches fun j e hj => ?_
  by_cases hij : i = j
  · subst hij
    cases hi.symm.trans hj
    exact ⟨_, (getElem?_set_eq_some hi).mpr (.inl ⟨rfl, rfl⟩), rfl, rfl, fun _ => rfl⟩
  · exact ⟨e, (getElem?_set_eq_some hi).mpr (.inr ⟨hij, hj⟩), rfl, rfl, fun hended => hended⟩

theorem Reaped.unheld {row row' : Delivery} {eligible : Prop} {now : Int}
    (h : Reaped row eligible limit now row') : row' = row ∨ Unheld row' := by
  cases h with
  | kept => exact .inl rfl
  | failed hflight hstatus hfinished => exact .inr (.inl ⟨hstatus, by rw [hfinished]; rfl⟩)
  | requeued heligible hbudget hbefore hstatus hfinished => exact .inr (.inr ⟨hstatus, hfinished⟩)

theorem Recorded.reap (h : Recorded s) {eligible : Delivery → Prop}
    (hreaped : ∀ row, Reaped row (eligible row) limit s.now (f row)) :
    Recorded (s.reap f) := by
  constructor
  · intro x i hx
    obtain ⟨hholder, hsame⟩ := Dict.mem_filter.mp hx
    obtain ⟨d, row, hi, hdelivery, hget, hshows⟩ := h.held x i hholder
    rw [hget, all_some, decide_eq_true_eq] at hsame
    refine ⟨d, row, hi, hdelivery, ?_, hshows⟩
    show (s.rows.map fun _ row => f row).get? x = some row
    rw [Dict.get?_map, hget, map_some, hsame]
  · intro x row' hnew hfree
    have hnew' : (s.rows.map fun _ row => f row).get? x = some row' := hnew
    rw [Dict.get?_map, map_eq_some_iff] at hnew'
    obtain ⟨row, hget, rfl⟩ := hnew'
    rcases (hreaped row).unheld with hsame | hunheld
    · rw [hsame]
      refine h.unheld x row hget ?_
      have hfree' : (s.holders.filter fun id _ => (s.rows.get? id).all fun row => f row = row).get? x =
        none := hfree
      rw [Dict.get?_filter, hget] at hfree'
      cases hholder : s.holders.get? x with
      | none => rfl
      | some i =>
        rw [hholder] at hfree'
        simp [hsame] at hfree'
    · exact hunheld

theorem Recorded.kept (h : Recorded s) {a : Action} (hacts : HolderActs s a)
    (hstep : step config s a = some s') : Recorded s' := by
  cases a with
  | insert id eventId worker claimed => exact h.insertRow hstep
  | claim worker limit definitionIds =>
    cases hstep
    exact h.claimRows worker limit definitionIds
  | tick now => exact h.advance hstep
  | start i =>
    obtain ⟨d, hat, rfl⟩ := Option.map_eq_some_iff.mp hstep
    obtain ⟨hi, hphase⟩ := at?_eq_some.mp hat
    exact h.startTurn hi hphase hacts
  | heartbeat i =>
    obtain ⟨d, hat, rfl⟩ := Option.map_eq_some_iff.mp hstep
    exact h.beat (at?_eq_some.mp hat).1
  | finish i outcome =>
    obtain ⟨d, hat, rfl⟩ := Option.map_eq_some_iff.mp hstep
    exact h.finishTurn (at?_eq_some.mp hat).1 hacts outcome
  | vanish i =>
    obtain ⟨d, hat, rfl⟩ := Option.map_eq_some_iff.mp hstep
    exact h.vanish (Option.filter_eq_some_iff.mp hat).1
  | leaseReap enabled =>
    cases enabled with
    | false =>
      cases hstep
      exact h
    | true =>
      cases hstep
      exact h.reap fun row => reapExpired_reaped row ..
  | staleSweep sweep =>
    cases hstep
    exact h.reap fun row => reapStale_reaped row ..
  | reapOrphans reap =>
    cases hstep
    exact h.reap fun row => reapOrphan_reaped row ..

theorem recorded_initial : Recorded System.initial := by
  constructor
  · exact nofun
  · intro x row hx
    cases hx

/-! ### Runs -/

def Action.runner : Action → Option Nat
  | .start i | .heartbeat i | .finish i _ | .vanish i => some i
  | _ => none

theorem get?_writeRow (d : Dispatch) (f : Delivery → Delivery) (i : Nat) (d' : Dispatch) (x : String) :
    ((s.writeRow d.delivery f).setDispatch i d').rows.get? x =
      if x = d.delivery then (s.rows.get? x).map f else s.rows.get? x :=
  Dict.get?_update ..

theorem not_holds_of_runner (hholds : s.holds i = true) (hnot : s.holds i = false) : False := by
  simp [hholds] at hnot

theorem late_runner_is_silent {a : Action} (hacts : HolderActs s a) (hstep : step config s a = some s')
    (hrunner : a.runner = some i) (hlost : s.holds i = false) (x : String) :
    s'.rows.get? x = s.rows.get? x := by
  cases a with
  | start j =>
    cases hrunner
    exact (not_holds_of_runner hacts hlost).elim
  | finish j outcome =>
    cases hrunner
    exact (not_holds_of_runner hacts hlost).elim
  | vanish j =>
    obtain ⟨d, -, rfl⟩ := Option.map_eq_some_iff.mp hstep
    rfl
  | heartbeat j =>
    cases hrunner
    obtain ⟨d, hat, rfl⟩ := Option.map_eq_some_iff.mp hstep
    rcases hacts with hholds | hother
    · exact (not_holds_of_runner hholds hlost).elim
    · rw [(at?_eq_some.mp hat).1, all_some] at hother
      rw [System.beat, get?_writeRow]
      split
      · rename_i hx
        cases hget : s.rows.get? x with
        | none => rfl
        | some row =>
          rw [← hx, hget, all_some, decide_eq_true_eq] at hother
          rw [map_some, Delivery.heartbeat, if_neg hother]
      · rfl
  | insert id eventId worker claimed => cases hrunner
  | claim worker limit definitionIds => cases hrunner
  | tick now => cases hrunner
  | leaseReap enabled => cases hrunner
  | staleSweep sweep => cases hrunner
  | reapOrphans reap => cases hrunner

theorem Recorded.success (h : Recorded s) {x : String} {row : Delivery} (hget : s.rows.get? x = some row)
    (hsuccess : row.status = .success) :
    row.claimedAt.isSome = true ∧ ∃ i d, s.holders.get? x = some i ∧ s.dispatches[i]? = some d ∧
      d.delivery = x ∧ d.phase = .ended := by
  cases hholder : s.holders.get? x with
  | none =>
    rcases h.unheld x row hget hholder with ⟨hstatus, -⟩ | ⟨hstatus, -⟩ <;>
      rw [hsuccess] at hstatus <;> cases hstatus
  | some i =>
    obtain ⟨d, row', hi, hdelivery, hget', hshows⟩ := h.held x i hholder
    cases hget.symm.trans hget'
    refine ⟨hshows.claimed, i, d, rfl, hi, hdelivery, ?_⟩
    cases hwrote : d.wrote with
    | none =>
      have hflight := (hshows.unfinished hwrote).1
      simp [Delivery.inFlight, Status.inFlight, hsuccess] at hflight
    | some u => exact (hshows.finished u hwrote).1

theorem Reaped.success {row row' : Delivery} {eligible : Prop} {now : Int}
    (h : Reaped row eligible limit now row') (hsuccess : row.status = .success) : row' = row := by
  have hflight : row.inFlight = false := by simp [Delivery.inFlight, Status.inFlight, hsuccess]
  cases h with
  | kept => rfl
  | failed hin =>
    simp [hflight] at hin
  | requeued heligible hbudget hbefore =>
    rcases hbefore with hin | hfailed
    · simp [hflight] at hin
    · simp [hsuccess] at hfailed

theorem Recorded.keeps_success (h : Recorded s) {a : Action} (hacts : HolderActs s a)
    (hstep : step config s a = some s') {x : String} {row : Delivery} (hget : s.rows.get? x = some row)
    (hsuccess : row.status = .success) :
    ∃ row', s'.rows.get? x = some row' ∧ row'.status = .success := by
  obtain ⟨hclaimed, i, d, hholder, hi, hdelivery, hended⟩ := h.success hget hsuccess
  have hreap : ∀ (f : Delivery → Delivery), f row = row →
      ∃ row', (s.reap f).rows.get? x = some row' ∧ row'.status = .success := by
    intro f hf
    refine ⟨row, ?_, hsuccess⟩
    show (s.rows.map fun _ row => f row).get? x = some row
    rw [Dict.get?_map, hget, map_some, hf]
  -- The holder has ended, so a runner that acts has another delivery.
  have hwrite : ∀ (j : Nat) (e e' : Dispatch) (f : Delivery → Delivery), s.dispatches[j]? = some e →
      e.phase ≠ .ended → s.holds j = true →
      ∃ row', ((s.writeRow e.delivery f).setDispatch j e').rows.get? x = some row' ∧
        row'.status = .success := by
    intro j e e' f hj hphase hholds
    refine ⟨row, ?_, hsuccess⟩
    rw [get?_writeRow, if_neg, hget]
    rintro rfl
    have hsame := (holds_iff hj).mp hholds
    rw [hholder] at hsame
    cases hsame
    cases hi.symm.trans hj
    exact hphase hended
  cases a with
  | insert id eventId worker claimed =>
    obtain ⟨habsent, hcase⟩ := insertRow_eq_some hstep
    have hne : x ≠ id := by
      rintro rfl
      simp [habsent] at hget
    refine ⟨row, ?_, hsuccess⟩
    rcases hcase with ⟨-, rfl⟩ | ⟨-, rfl⟩
    · exact (Dict.get?_set_ne _ _ hne).trans hget
    · exact (Dict.get?_set_ne _ _ hne).trans hget
  | claim worker limit definitionIds =>
    cases hstep
    refine ⟨row, ?_, hsuccess⟩
    show (claimDeliveries s.rows _ worker _ s.now).get? x = some row
    rw [get?_claimDeliveries, hget, map_some, if_neg]
    rintro ⟨-, hnone⟩
    simp [hnone] at hclaimed
  | tick now =>
    rw [step, System.advance] at hstep
    split at hstep
    · cases hstep
      exact ⟨row, hget, hsuccess⟩
    · cases hstep
  | start j =>
    obtain ⟨e, hat, rfl⟩ := Option.map_eq_some_iff.mp hstep
    obtain ⟨hj, hphase⟩ := at?_eq_some.mp hat
    exact hwrite j e _ _ hj (by rw [hphase]; decide) hacts
  | finish j outcome =>
    obtain ⟨e, hat, rfl⟩ := Option.map_eq_some_iff.mp hstep
    obtain ⟨hj, hphase⟩ := at?_eq_some.mp hat
    exact hwrite j e _ _ hj (by rw [hphase]; exact after_ne_ended outcome) hacts
  | heartbeat j =>
    obtain ⟨e, hat, rfl⟩ := Option.map_eq_some_iff.mp hstep
    rw [System.beat, get?_writeRow, hget]
    split
    · exact ⟨_, rfl, (heartbeat_frame row ..).1.trans hsuccess⟩
    · exact ⟨row, rfl, hsuccess⟩
  | vanish j =>
    obtain ⟨e, -, rfl⟩ := Option.map_eq_some_iff.mp hstep
    exact ⟨row, hget, hsuccess⟩
  | leaseReap enabled =>
    cases enabled with
    | false =>
      cases hstep
      exact ⟨row, hget, hsuccess⟩
    | true =>
      cases hstep
      exact hreap _ ((reapExpired_reaped row ..).success hsuccess)
  | staleSweep sweep =>
    cases hstep
    exact hreap _ ((reapStale_reaped row ..).success hsuccess)
  | reapOrphans reap =>
    cases hstep
    exact hreap _ ((reapOrphan_reaped row ..).success hsuccess)

theorem Recorded.along {as : List Action} {t : System} (h : Recorded s)
    (hacts : Along (step config) HolderActs s as) (hrun : run (step config) s as = some t) : Recorded t :=
  run_invariant_along (fun _ _ _ hs hC hstep => hs.kept hC hstep) h hacts hrun

theorem Recorded.along_keeps_success {as : List Action} {t : System} (h : Recorded s)
    (hacts : Along (step config) HolderActs s as) (hrun : run (step config) s as = some t) {x : String}
    {row : Delivery} (hget : s.rows.get? x = some row) (hsuccess : row.status = .success) :
    ∃ row', t.rows.get? x = some row' ∧ row'.status = .success := by
  have hboth : Recorded t ∧ ∃ row', t.rows.get? x = some row' ∧ row'.status = .success :=
    run_invariant_along (I := fun u => Recorded u ∧ ∃ row', u.rows.get? x = some row' ∧
        row'.status = .success)
      (fun _ _ _ ⟨hu, row', hget', hsuccess'⟩ hC hstep =>
        ⟨hu.kept hC hstep, hu.keeps_success hC hstep hget' hsuccess'⟩)
      ⟨h, row, hget, hsuccess⟩ hacts hrun
  exact hboth.2

/-- Where no runner acts once its claim is gone, a runner without a claim changes no row, what is
recorded is what the holders wrote, and a success stays to the end. -/
theorem holder_alone_writes {before after : List Action} {a : Action} {s s' t : System}
    (hbefore : run (step config) System.initial before = some s) (hstep : step config s a = some s')
    (hafter : run (step config) s' after = some t)
    (hacts : Along (step config) HolderActs System.initial (before ++ a :: after)) :
    (∀ i, a.runner = some i → s.holds i = false → ∀ x, s'.rows.get? x = s.rows.get? x) ∧ Recorded t ∧
      ∀ x row, s.rows.get? x = some row → row.status = .success →
        ∃ row', t.rows.get? x = some row' ∧ row'.status = .success := by
  obtain ⟨hactsBefore, hactsRest⟩ := along_append.mp hacts
  have hactsHere := hactsRest s hbefore
  have hrecorded := recorded_initial.along hactsBefore hbefore
  have hrest : run (step config) s (a :: after) = some t := run_cons.mpr ⟨s', hstep, hafter⟩
  refine ⟨fun i hrunner hlost => late_runner_is_silent hactsHere.1 hstep hrunner hlost,
    hrecorded.along hactsHere hrest, fun x row hget hsuccess => ?_⟩
  exact hrecorded.along_keeps_success hactsHere hrest hget hsuccess

def secondTry : List Action :=
  [.insert "delivery" "event" "worker" false, .claim "worker" 1 none, .start 0, .tick 200,
    .leaseReap true, .claim "worker" 1 none, .start 1, .finish 1 (.returned {})]

theorem second_try_is_recorded :
    ∃ s t, run (step {}) System.initial secondTry = some s ∧ step {} s (.vanish 0) = some t ∧
      Recorded t ∧ (t.rows.get? "delivery").map Delivery.status = some .success := by
  have htrace : ((run (step {}) System.initial secondTry).bind fun s => (step {} s (.vanish 0)).map
      fun t => (t.rows.get? "delivery").map Delivery.status) = some (some .success) := by
    decide +kernel
  obtain ⟨s, hs, hrest⟩ := Option.bind_eq_some_iff.mp htrace
  obtain ⟨t, ht, hstatus⟩ := Option.map_eq_some_iff.mp hrest
  exact ⟨s, t, hs, ht, (holder_alone_writes hs ht (run_nil ..) (by decide +kernel)).2.1, hstatus⟩

/-- The runner of the first try, back after its claim was taken, turns the success into a failure. -/
theorem late_failure_overwrites_success :
    ∃ s t, run (step {}) System.initial secondTry = some s ∧ s.holds 0 = false ∧
      step {} s (.finish 0 (.raised "connection reset")) = some t ∧
      (s.rows.get? "delivery").map Delivery.status = some .success ∧
      (t.rows.get? "delivery").map Delivery.status = some .failed := by
  have htrace : ((run (step {}) System.initial secondTry).bind fun s =>
      (step {} s (.finish 0 (.raised "connection reset"))).map fun t => (s.holds 0,
        (s.rows.get? "delivery").map Delivery.status, (t.rows.get? "delivery").map Delivery.status)) =
      some (false, some .success, some .failed) := by
    decide +kernel
  obtain ⟨s, hs, hrest⟩ := Option.bind_eq_some_iff.mp htrace
  obtain ⟨t, ht, hread⟩ := Option.map_eq_some_iff.mp hrest
  simp only [Prod.mk.injEq] at hread
  exact ⟨s, t, hs, hread.1, ht, hread.2.1, hread.2.2⟩

end OpenAgent.Deliveries
