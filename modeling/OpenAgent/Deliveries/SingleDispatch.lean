import OpenAgent.Deliveries.System

/-!
# One live dispatch per delivery

A dispatch that keeps its lease is out of reach of the lease reaper, since the row's lease ends no
earlier than the dispatch believes. The sweep and the reap of a starting process do not look at the
lease: they are harmless where they find no row of a dispatch that is alive.
-/

namespace OpenAgent.Deliveries

open Lib Option List

variable {config : Config} {s s' : System}

structure Held (config : Config) (now : Int) (d : Dispatch) (row : Delivery) : Prop where
  claimed : row.claimedAt.isSome = true
  count : row.reenqueueCount = d.attempt
  worker : row.workerId = some d.worker
  lease : ∃ e, row.claimExpires = some e ∧ d.expires ≤ e
  kept : now ≤ d.expires
  window : d.expires ≤ now + config.ttl d.worker

def Exclusive (config : Config) (s : System) : Prop :=
  ∀ (i : Nat) (d : Dispatch), s.dispatches[i]? = some d → d.alive = true →
    (∃ row, s.rows.get? d.delivery = some row ∧ Held config s.now d row) ∧
      ∀ (j : Nat) (e : Dispatch), s.dispatches[j]? = some e → e.delivery = d.delivery → j ≤ i

variable {d : Dispatch}

theorem Held.not_expired {now : Int} {row : Delivery} (h : Held config now d row) :
    row.leaseExpired now = false := by
  obtain ⟨e, he, hle⟩ := h.lease
  have hkept := h.kept
  have hnot : ¬ e < now := by omega
  simp [Delivery.leaseExpired, he, hnot]

theorem Exclusive.mono (h : Exclusive config s)
    (hkeep : ∀ (i : Nat) (d' : Dispatch), s'.dispatches[i]? = some d' →
      ∃ d, s.dispatches[i]? = some d ∧ d'.delivery = d.delivery ∧
        (d'.alive = true → d.alive = true ∧
          ∀ row, s.rows.get? d.delivery = some row → Held config s.now d row →
            ∃ row', s'.rows.get? d.delivery = some row' ∧ Held config s'.now d' row')) :
    Exclusive config s' := by
  intro i d' hi halive
  obtain ⟨d, hd, hdelivery, hheld⟩ := hkeep i d' hi
  obtain ⟨halive', hrow⟩ := hheld halive
  obtain ⟨⟨row, hget, hrowHeld⟩, hlast⟩ := h i d hd halive'
  rw [hdelivery]
  refine ⟨hrow row hget hrowHeld, ?_⟩
  intro j e' he' hsame
  obtain ⟨e, he, hedelivery, -⟩ := hkeep j e' he'
  exact hlast j e he (hedelivery.symm.trans hsame)

theorem Exclusive.rows (h : Exclusive config s) {rows : Dict String Delivery}
    {holders : Dict String Nat}
    (hkeep : ∀ (i : Nat) (d : Dispatch) (row : Delivery), s.dispatches[i]? = some d → d.alive = true → s.rows.get? d.delivery = some row →
      Held config s.now d row → ∃ row', rows.get? d.delivery = some row' ∧ Held config s.now d row') :
    Exclusive config { s with rows := rows, holders := holders } :=
  h.mono fun i d hi => ⟨d, hi, rfl, fun halive => ⟨halive, fun row => hkeep i d row hi halive⟩⟩

/-! ### New dispatches -/

theorem Exclusive.launch (h : Exclusive config s) {rows : Dict String Delivery} {worker : String}
    {ids : List String} (hnodup : ids.Nodup)
    (hfree : ∀ (i : Nat) (d : Dispatch), s.dispatches[i]? = some d → d.alive = true → d.delivery ∉ ids)
    (hkeep : ∀ id row, id ∉ ids → s.rows.get? id = some row → rows.get? id = some row)
    (hnew : ∀ id ∈ ids, ∃ row, rows.get? id = some row ∧ row.claimedAt.isSome = true ∧
      row.reenqueueCount = ((s.rows.get? id).map Delivery.reenqueueCount).getD 0 ∧
      row.workerId = some worker ∧ row.claimExpires = some (s.now + config.ttl worker)) :
    Exclusive config (s.launch config rows worker ids) := by
  have httl : 0 < config.ttl worker := by
    have : 1 ≤ config.ttl worker := Int.le_max_left ..
    omega
  intro i d hi halive
  rw [getElem?_launch] at hi
  rcases hi with hold | ⟨k, id, hk, rfl, rfl⟩
  · have hfreed := hfree i d hold halive
    obtain ⟨⟨row, hget, hheld⟩, hlast⟩ := h i d hold halive
    refine ⟨⟨row, hkeep _ row hfreed hget, hheld⟩, ?_⟩
    intro j e he hsame
    rw [getElem?_launch] at he
    rcases he with hold' | ⟨k, id, hk, rfl, rfl⟩
    · exact hlast j e hold' hsame
    · exact absurd (hsame ▸ mem_of_getElem? hk) hfreed
  · obtain ⟨row, hget, hclaimed, hcount, hworker, hexpires⟩ := hnew id (mem_of_getElem? hk)
    refine ⟨⟨row, hget, hclaimed, hcount, hworker, ⟨_, hexpires, Int.le_refl _⟩, ?_, Int.le_refl _⟩, ?_⟩
    · show s.now ≤ s.now + config.ttl worker
      omega
    · intro j e he hsame
      rw [getElem?_launch] at he
      rcases he with hold | ⟨k', id', hk', rfl, rfl⟩
      · have hlt := (List.getElem?_eq_some_iff.mp hold).1
        omega
      · have hid : id' = id := hsame
        have hplace : k' = k := by
          obtain ⟨hlt, hval⟩ := List.getElem?_eq_some_iff.mp hk'
          obtain ⟨hlt', hval'⟩ := List.getElem?_eq_some_iff.mp hk
          exact (List.Nodup.getElem_inj_iff hnodup).mp (by rw [hval, hval', hid])
        omega

theorem Exclusive.insertRow (h : Exclusive config s) {id eventId worker : String} {claimed : Bool}
    (hstep : s.insertRow config id eventId worker claimed = some s') : Exclusive config s' := by
  obtain ⟨habsent, hcase⟩ := insertRow_eq_some hstep
  have hother : ∀ (i : Nat) (d : Dispatch), s.dispatches[i]? = some d → d.alive = true → d.delivery ≠ id := by
    intro i d hi halive heq
    obtain ⟨⟨row, hget, -⟩, -⟩ := h i d hi halive
    simp [heq, habsent] at hget
  rcases hcase with ⟨rfl, rfl⟩ | ⟨-, rfl⟩
  · refine h.launch (nodup_singleton id) ?_ ?_ ?_
    · intro i d hi halive hmem
      exact hother i d hi halive (List.mem_singleton.mp hmem)
    · intro x row hx hget
      rw [Dict.get?_set_ne _ _ fun heq => hx (List.mem_singleton.mpr heq)]
      exact hget
    · intro x hx
      cases List.mem_singleton.mp hx
      exact ⟨_, Dict.get?_set_self .., rfl, by rw [habsent]; rfl, rfl, rfl⟩
  · refine h.rows fun i d row hi halive hget hheld => ⟨row, ?_, hheld⟩
    rw [Dict.get?_set_ne _ _ (hother i d hi halive)]
    exact hget

theorem Exclusive.claimRows (h : Exclusive config s) (worker : String) (limit : Nat)
    (definitionIds : Option (List String)) :
    Exclusive config (s.claimRows config worker limit definitionIds) := by
  have hclaimable : ∀ id ∈ pending s.rows limit definitionIds,
      ∃ row, s.rows.get? id = some row ∧ row.claimedAt = none := by
    intro id hid
    obtain ⟨row, hget, hrow⟩ := mem_pending hid
    simp only [Delivery.claimable, Bool.and_eq_true, isNone_iff_eq_none] at hrow
    exact ⟨row, hget, hrow.1.1⟩
  refine h.launch (nodup_pending ..) ?_ ?_ ?_
  · intro i d hi halive hmem
    obtain ⟨⟨row, hget, hheld⟩, -⟩ := h i d hi halive
    obtain ⟨row', hget', hnone⟩ := hclaimable _ hmem
    cases hget.symm.trans hget'
    have := hheld.claimed
    simp [hnone] at this
  · intro id row hid hget
    rw [get?_claimDeliveries, hget, map_some, if_neg fun hc => hid hc.1]
  · intro id hid
    obtain ⟨row, hget, hnone⟩ := hclaimable id hid
    refine ⟨row.claim worker (config.ttl worker) s.now, ?_, rfl, ?_, rfl, rfl⟩
    · rw [get?_claimDeliveries, hget, map_some, if_pos ⟨hid, hnone⟩]
    · rw [hget]
      rfl

/-! ### The clock and the runners -/

theorem Exclusive.advance (h : Exclusive config s) {now : Int} (hstep : s.advance now = some s') :
    Exclusive config s' := by
  rw [System.advance] at hstep
  split at hstep
  · rename_i hlt
    cases hstep
    refine h.mono fun i d' hi => ?_
    rw [getElem?_map, map_eq_some_iff] at hi
    obtain ⟨d, hd, rfl⟩ := hi
    refine ⟨d, hd, rfl, fun halive => ?_⟩
    rw [alive_iff] at halive
    obtain ⟨hphase, hlapsed⟩ := halive
    have hphase' : d.phase ≠ .ended := hphase
    have hexecuting : d.executing = true := by simpa [Dispatch.executing] using hphase'
    simp only [hexecuting, Bool.true_and, Bool.or_eq_false_iff, decide_eq_false_iff_not] at hlapsed
    refine ⟨alive_iff.mpr ⟨hphase', hlapsed.1⟩, fun row hget hheld => ⟨row, hget, ?_⟩⟩
    have hwindow := hheld.window
    have hbefore : now ≤ d.expires := by
      have := hlapsed.2
      omega
    refine ⟨hheld.claimed, hheld.count, hheld.worker, hheld.lease, hbefore, ?_⟩
    show d.expires ≤ now + config.ttl d.worker
    omega
  · cases hstep

theorem Exclusive.write (h : Exclusive config s) {i : Nat} {d' : Dispatch} {f : Delivery → Delivery}
    (hi : s.dispatches[i]? = some d) (hdelivery : d'.delivery = d.delivery)
    (halive : d'.alive = true → d.alive = true)
    (hself : ∀ row, Held config s.now d row → Held config s.now d' (f row))
    (hothers : ∀ e row, Held config s.now e row → Held config s.now e (f row)) :
    Exclusive config ((s.writeRow d.delivery f).setDispatch i d') := by
  have hrow : ∀ e row, s.rows.get? e = some row → (s.rows.update d.delivery f).get? e =
      some (if e = d.delivery then f row else row) := by
    intro e row hget
    rw [Dict.get?_update, hget]
    split <;> rfl
  refine h.mono fun j e' hj => ?_
  rw [show ((s.writeRow d.delivery f).setDispatch i d').dispatches = s.dispatches.set i d' from rfl,
    getElem?_set_eq_some hi] at hj
  rcases hj with ⟨rfl, rfl⟩ | ⟨-, hj⟩
  · refine ⟨d, hi, hdelivery, fun ha => ⟨halive ha, fun row hget hheld => ⟨f row, ?_, hself row hheld⟩⟩⟩
    have hnew := hrow d.delivery row hget
    rw [if_pos rfl] at hnew
    exact hnew
  · refine ⟨e', hj, rfl, fun ha => ⟨ha, fun row hget hheld => ?_⟩⟩
    refine ⟨_, hrow e'.delivery row hget, ?_⟩
    split
    · exact hothers e' row hheld
    · exact hheld

theorem Held.update {now : Int} {row : Delivery} (h : Held config now d row) (u : Update) :
    Held config now d (row.update u) := ⟨h.claimed, h.count, h.worker, h.lease, h.kept, h.window⟩

theorem Held.heartbeat {now : Int} {e : Dispatch} {row : Delivery} (h : Held config now e row)
    (worker : String) : Held config now e (row.heartbeat worker (config.ttl worker) now) := by
  rw [Delivery.heartbeat]
  split
  · rename_i howned
    have hworker : e.worker = worker := some.inj (h.worker.symm.trans howned)
    exact ⟨h.claimed, h.count, h.worker, ⟨_, rfl, hworker ▸ h.window⟩, h.kept, h.window⟩
  · exact h

theorem Exclusive.beat (h : Exclusive config s) {i : Nat} (hi : s.dispatches[i]? = some d)
    : Exclusive config (s.beat config i d) := by
  refine h.write hi rfl (fun ha => ha) ?_ fun e row hheld => hheld.heartbeat d.worker
  intro row hheld
  have httl : 1 ≤ config.ttl d.worker := Int.le_max_left ..
  have hbeaten := hheld.heartbeat d.worker
  split
  · have hrow : row.heartbeat d.worker (config.ttl d.worker) s.now =
        { row with claimExpires := some (s.now + config.ttl d.worker), lastHeartbeatAt := some s.now } := by
      rw [Delivery.heartbeat, if_pos hheld.worker]
    rw [hrow]
    refine ⟨hheld.claimed, hheld.count, hheld.worker, ⟨_, rfl, Int.le_refl _⟩, ?_, Int.le_refl _⟩
    show s.now ≤ s.now + config.ttl d.worker
    omega
  · exact ⟨hbeaten.claimed, hbeaten.count, hbeaten.worker, hbeaten.lease, hheld.kept, hheld.window⟩

theorem Exclusive.startTurn (h : Exclusive config s) {i : Nat} {d : Dispatch}
    (hi : s.dispatches[i]? = some d) (hphase : d.phase = .claimed) : Exclusive config (s.startTurn i d) := by
  refine h.write hi rfl ?_ ?_ fun e row hheld => hheld.update _
  · intro halive
    have hlapsed := (alive_iff.mp halive).2
    exact alive_iff.mpr ⟨by rw [hphase]; decide, hlapsed⟩
  · intro row hheld
    have hnew := hheld.update { status := .running }
    exact ⟨hnew.claimed, hnew.count, hnew.worker, hnew.lease, hheld.kept, hheld.window⟩

theorem ended_not_alive (h : d.phase = .ended) : d.alive = false := by
  simp [Dispatch.alive, Dispatch.executing, h]

theorem Exclusive.finishTurn (h : Exclusive config s) {i : Nat} (hi : s.dispatches[i]? = some d)
    (outcome : Outcome) : Exclusive config (s.finishTurn config i d outcome) := by
  refine h.write hi rfl ?_ ?_ fun e row hheld => hheld.update _
  · intro halive
    rw [ended_not_alive rfl] at halive
    cases halive
  · intro row hheld
    have hnew := hheld.update (outcome.update config s.now)
    exact ⟨hnew.claimed, hnew.count, hnew.worker, hnew.lease, hheld.kept, hheld.window⟩

theorem Exclusive.vanish (h : Exclusive config s) {i : Nat} (hi : s.dispatches[i]? = some d)
    : Exclusive config (s.setDispatch i { d with phase := .ended }) := by
  refine h.mono fun j e' hj => ?_
  rw [System.setDispatch, getElem?_set_eq_some hi] at hj
  rcases hj with ⟨rfl, rfl⟩ | ⟨-, hj⟩
  · refine ⟨d, hi, rfl, fun halive => ?_⟩
    rw [ended_not_alive rfl] at halive
    cases halive
  · exact ⟨e', hj, rfl, fun halive => ⟨halive, fun row hget hheld => ⟨row, hget, hheld⟩⟩⟩

/-! ### The reapers -/

theorem Exclusive.reap (h : Exclusive config s) {f : Delivery → Delivery}
    (hkeep : ∀ (i : Nat) (d : Dispatch) (row : Delivery), s.dispatches[i]? = some d → d.alive = true →
      s.rows.get? d.delivery = some row → Held config s.now d row → Held config s.now d (f row)) :
    Exclusive config (s.reap f) := by
  refine h.rows fun i d row hi halive hget hheld => ⟨f row, ?_, hkeep i d row hi halive hget hheld⟩
  rw [Dict.get?_map, hget, map_some]

theorem Held.reaped {now : Int} {row row' : Delivery} {eligible : Prop} {limit : Nat}
    (h : Held config now d row) (hreaped : Reaped row eligible limit now row') (hnot : ¬ eligible)
    (hlease : row'.lease = row.lease) : Held config now d row' := by
  obtain ⟨hexpires, hworker⟩ := Prod.mk.inj hlease
  have hworker' : row'.workerId = some d.worker := hworker.trans h.worker
  have hlease' : ∃ e, row'.claimExpires = some e ∧ d.expires ≤ e := by
    obtain ⟨e, he, hle⟩ := h.lease
    exact ⟨e, hexpires.trans he, hle⟩
  cases hreaped with
  | kept => exact h
  | failed hflight hstatus hfinished hclaimed hcount =>
    exact ⟨hclaimed ▸ h.claimed, hcount.trans h.count, hworker', hlease', h.kept, h.window⟩
  | requeued heligible => exact absurd heligible hnot

def SparesLive (config : Config) (s : System) : Action → Prop
  | .staleSweep sweep => ∀ d ∈ s.dispatches, d.alive = true →
    (s.rows.get? d.delivery).any (fun row => row.sweepable sweep config.limit s.now) = false
  | .reapOrphans reap => ∀ d ∈ s.dispatches, d.alive = true →
    (s.rows.get? d.delivery).any (fun row => row.reapable reap config.limit) = false
  | _ => True

instance (config : Config) (s : System) (a : Action) : Decidable (SparesLive config s a) := by
  unfold SparesLive
  split <;> infer_instance

theorem Exclusive.kept (h : Exclusive config s) {a : Action} (hspare : SparesLive config s a)
    (hstep : step config s a = some s') : Exclusive config s' := by
  cases a with
  | insert id eventId worker claimed => exact h.insertRow hstep
  | claim worker limit definitionIds =>
    cases hstep
    exact h.claimRows worker limit definitionIds
  | tick now => exact h.advance hstep
  | start i =>
    obtain ⟨d, hat, rfl⟩ := Option.map_eq_some_iff.mp hstep
    obtain ⟨hi, hphase⟩ := at?_eq_some.mp hat
    exact h.startTurn hi hphase
  | heartbeat i =>
    obtain ⟨d, hat, rfl⟩ := Option.map_eq_some_iff.mp hstep
    exact h.beat (at?_eq_some.mp hat).1
  | finish i outcome =>
    obtain ⟨d, hat, rfl⟩ := Option.map_eq_some_iff.mp hstep
    exact h.finishTurn (at?_eq_some.mp hat).1 outcome
  | vanish i =>
    obtain ⟨d, hat, rfl⟩ := Option.map_eq_some_iff.mp hstep
    exact h.vanish (Option.filter_eq_some_iff.mp hat).1
  | leaseReap enabled =>
    cases enabled with
    | false =>
      cases hstep
      exact h
    | true =>
      cases hstep
      refine h.reap fun i d row hi halive hget hheld => ?_
      rw [reapExpired_of_not_expired hheld.not_expired]
      exact hheld
  | staleSweep sweep =>
    cases hstep
    refine h.reap fun i d row hi halive hget hheld => ?_
    have hnot := hspare d (mem_of_getElem? hi) halive
    rw [hget, any_some] at hnot
    exact hheld.reaped (reapStale_reaped ..) (by rw [hnot]; decide) (reapStale_lease ..)
  | reapOrphans reap =>
    cases hstep
    refine h.reap fun i d row hi halive hget hheld => ?_
    have hnot := hspare d (mem_of_getElem? hi) halive
    rw [hget, any_some] at hnot
    exact hheld.reaped (reapOrphan_reaped ..) (by rw [hnot]; decide) (reapOrphan_lease ..)

theorem exclusive_initial : Exclusive config System.initial := by
  intro i d hi
  cases hi

/-! ### Runs -/

/-- The delivery of every dispatch that is alive is still claimed and was not given back since, and no
dispatch of it started after this one. -/
def Undisturbed (s : System) : Prop :=
  ∀ (i : Nat) (d : Dispatch), s.dispatches[i]? = some d → d.alive = true →
    (∃ row, s.rows.get? d.delivery = some row ∧ row.claimedAt.isSome = true ∧
      row.reenqueueCount = d.attempt) ∧
    ∀ (j : Nat) (e : Dispatch), s.dispatches[j]? = some e → e.delivery = d.delivery → j ≤ i

/-- Where no sweep comes upon a turn that still beats, such a turn keeps its delivery to itself. -/
theorem beating_dispatch_is_alone {as : List Action} {s : System}
    (hrun : run (step config) System.initial as = some s)
    (hspare : Along (step config) (SparesLive config) System.initial as) : Undisturbed s := by
  have hexclusive : Exclusive config s :=
    run_invariant_along (fun _ _ _ hs hC hstep => hs.kept hC hstep) exclusive_initial hspare hrun
  intro i d hi halive
  obtain ⟨⟨row, hget, hheld⟩, hlast⟩ := hexclusive i d hi halive
  exact ⟨⟨row, hget, hheld.claimed, hheld.count⟩, hlast⟩

/-- A turn of `n` times 100 seconds that beats every 100 seconds under a lease of 120. -/
def beatingTurn (n : Nat) : List Action :=
  [.insert "delivery" "event" "worker" false, .claim "worker" 1 none, .start 0] ++
    (List.range n).flatMap fun k => [.tick (100 * (k + 1)), .heartbeat 0, .leaseReap true]

theorem short_beating_turn_is_alone :
    ∃ s, run (step {}) System.initial (beatingTurn 17 ++ [.staleSweep {}]) = some s ∧ Undisturbed s := by
  have hsome : (run (step {}) System.initial (beatingTurn 17 ++ [.staleSweep {}])).isSome = true := by
    decide +kernel
  obtain ⟨s, hs⟩ := Option.isSome_iff_exists.mp hsome
  exact ⟨s, hs, beating_dispatch_is_alone hs (by decide +kernel)⟩

/-- After half an hour the sweep gives the row of a turn that never missed a beat back to the queue, and
the delivery is dispatched a second time. -/
theorem sweep_doubles_a_beating_turn :
    ∃ s, run (step {}) System.initial
        (beatingTurn 18 ++ [.staleSweep {}, .claim "worker" 1 none]) = some s ∧ ¬ Undisturbed s := by
  have htrace : (run (step {}) System.initial
      (beatingTurn 18 ++ [.staleSweep {}, .claim "worker" 1 none])).map
        (fun s => s.dispatches.map fun d => (d.delivery, d.alive)) =
      some [("delivery", true), ("delivery", true)] := by
    decide +kernel
  obtain ⟨s, hs, hdispatches⟩ := Option.map_eq_some_iff.mp htrace
  refine ⟨s, hs, fun hundisturbed => ?_⟩
  have hread : ∀ n : Nat, (s.dispatches[n]?).map (fun d : Dispatch => (d.delivery, d.alive)) =
      [("delivery", true), ("delivery", true)][n]? := by
    intro n
    rw [← List.getElem?_map, hdispatches]
  obtain ⟨d, hd, hfirst⟩ := Option.map_eq_some_iff.mp (hread 0)
  obtain ⟨e, he, hsecond⟩ := Option.map_eq_some_iff.mp (hread 1)
  obtain ⟨hdelivery, halive⟩ := Prod.mk.inj hfirst
  obtain ⟨hdelivery', -⟩ := Prod.mk.inj hsecond
  have hle := (hundisturbed 0 d hd halive).2 1 e he (hdelivery'.trans hdelivery.symm)
  omega

end OpenAgent.Deliveries
