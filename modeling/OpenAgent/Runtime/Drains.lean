import OpenAgent.Runtime.Leases

/-!
# Drains

A graph that is replaced in drain mode is closed when its last lease is given back. The leases on a
graph are exactly its live runs, and the drain waits exactly as long as there is one, in every run in
which no task is cancelled before its first step; a task that is dropped so leaves its lease behind, and
from then on they differ.
-/

namespace OpenAgent

open Lib Bool

variable {D P : Type}

namespace Runtime

def finished (s : Runtime D P) (runId : String) : Bool :=
  s.executions.any fun e => e.request.runId = runId && e.done

def liveOn (s : Runtime D P) (g : Nat) : Nat :=
  s.runGraphs.count fun runId g' => decide (g' = g) && !s.finished runId

/-- The leases of every graph are its live runs, and whoever waits for a graph to drain goes on exactly
when it has none. -/
structure Accounted (s : Runtime D P) : Prop where
  leases : ∀ g, s.leasesOf g = s.liveOn g
  drains : ∀ (k : Nat) call g old, s.reconfigures[k]? = some call → call.phase = .emptying g old →
    ((s.reconfigureEmpty k).isSome ↔ s.liveOn old = 0)

def Undropped (s : Runtime D P) (a : Action D P) : Prop :=
  ∀ t e, a = .execution t .enter → s.executions[t]? = some e → e.phase = .created → e.cancelled = false

def NoDrops (s : Runtime D P) : Prop :=
  ∀ (t : Nat) e, s.executions[t]? = some e → e.phase ≠ .ended true

/-! ### Live runs -/

variable {s : Runtime D P}

theorem finished_iff {runId : String} :
    s.finished runId = true ↔
      ∃ (t : Nat) (e : Execution), s.executions[t]? = some e ∧ e.request.runId = runId ∧ e.done = true := by
  simp only [finished, List.any_eq_true, List.mem_iff_getElem?, and_eq_true, decide_eq_true_eq]
  constructor
  · rintro ⟨e, ⟨t, he⟩, hid, hdone⟩
    exact ⟨t, e, he, hid, hdone⟩
  · rintro ⟨t, e, he, hid, hdone⟩
    exact ⟨e, ⟨t, he⟩, hid, hdone⟩

theorem Sound.live_of_bound (hs : s.Sound) (hdrops : s.NoDrops) {r : String} {g : Nat}
    (hbound : s.runGraphs.get? r = some g) : s.finished r = false := by
  by_contra hfinished
  rw [not_eq_false] at hfinished
  obtain ⟨t, e, he, hid, hdone⟩ := finished_iff.mp hfinished
  obtain ⟨-, ⟨i, call, hcall, hprofiles⟩ | ⟨t', e', he', hid', -, hlive⟩⟩ := hs.owned.owner r g hbound
  · obtain ⟨-, -, -, hfree⟩ := hs.owned.profiled i call r g hcall hprofiles
    exact hfree t e he hid
  · obtain rfl := hs.owned.distinct t t' e e' he he' (hid.trans hid'.symm)
    cases he.symm.trans he'
    unfold Execution.done at hdone
    split at hdone
    · rename_i dropped hphase
      cases dropped with
      | false => exact hlive hphase
      | true => exact hdrops t e he hphase
    · cases hdone

theorem Sound.liveOn_eq_boundTo (hs : s.Sound) (hdrops : s.NoDrops) (g : Nat) :
    s.liveOn g = s.boundTo g := by
  refine Dict.count_congr fun r g' hbound => ?_
  rw [hs.live_of_bound hdrops hbound]
  simp

theorem Sound.liveOn_lt_boundTo (hs : s.Sound) {t : Nat} {e : Execution} (he : s.executions[t]? = some e)
    (hdropped : e.phase = .ended true) :
    s.liveOn e.graph < s.boundTo e.graph := by
  have hbound := hs.owned.bound t e he (by rw [hdropped]; simp)
  have hdone : e.done = true := by rw [Execution.done, hdropped]
  refine Dict.count_lt (fun r g h => ?_) hbound (by simp) ?_
  · simp only [and_eq_true] at h
    exact h.1
  · simp [finished_iff.mpr ⟨t, e, he, rfl, hdone⟩]

theorem Sound.empty_iff (hs : s.Sound) {k g old : Nat} {call : Reconfigure}
    (hcall : s.reconfigures[k]? = some call) (hphase : call.phase = .emptying g old) :
    (s.reconfigureEmpty k).isSome ↔ s.leasesOf old = 0 := by
  obtain ⟨graph, hgraph, hready, -⟩ :=
    hs.staged.old k call old hcall (by rw [Reconfigure.old, hphase])
  have hdrained := (hs.leasing.counted old graph hgraph).drained hready
  have hleases : s.leasesOf old = graph.leases := by rw [leasesOf, hgraph]; rfl
  rw [hleases, ← hdrained]
  simp only [reconfigureEmpty, hcall, hphase, hgraph, Option.any_some]
  cases graph.drained <;> simp

theorem Sound.accounted_iff (hs : s.Sound) : s.Accounted ↔ s.NoDrops := by
  constructor
  · intro haccounted t e he hdropped
    have hleases := haccounted.leases e.graph
    have hbound := hs.owned.leased e.graph
    have hless := hs.liveOn_lt_boundTo he hdropped
    omega
  · intro hdrops
    have hleases : ∀ g, s.leasesOf g = s.liveOn g := by
      intro g
      rw [hs.liveOn_eq_boundTo hdrops, hs.owned.leased]
    refine ⟨hleases, fun k call g old hcall hphase => ?_⟩
    rw [hs.empty_iff hcall hphase, hleases]

/-! ### Steps and runs -/

theorem noDrops_construct (ledger : Ledger D P) (catalog : Catalog) (initialGeneration : Nat)
    (ownsStore : Bool) : (construct ledger catalog initialGeneration ownsStore).NoDrops := by
  intro t e h
  cases h

theorem enter_of_created [DecidableEq D] {env : Environment D} {s' : Runtime D P} {t : Nat} {e : Execution}
    {x : ExecutionAction D P} (he : s.executions[t]? = some e) (hphase : e.phase = .created)
    (h : s.step env (.execution t x) = some s') : x = .enter := by
  have hbody : e.inBody = false := by rw [Execution.inBody, hphase]
  replace h : s.executionStep env t x = some s' := h
  cases x with
  | enter => rfl
  | advance => simp [executionStep, executionAdvance, he, hphase] at h
  | read diagnostic => simp [executionStep, executionRead, he, hphase] at h
  | claim attempt diagnostic => simp [executionStep, executionClaim, he, hphase] at h
  | launch => simp [executionStep, executionLaunch, he, hphase] at h
  | returns output => simp [executionStep, executionReturn, he, hphase] at h
  | absorb => simp [executionStep, executionAbsorb, he, hphase] at h
  | publish diagnostic => simp [executionStep, executionPublish, he, hphase] at h
  | settle attempt diagnostic => simp [executionStep, executionSettle, he, hphase] at h
  | raises diagnostic => simp [executionStep, executionRaise, he, hbody] at h
  | timeout => simp [executionStep, executionTimeout, he, hbody] at h
  | cancelled => simp [executionStep, executionCancelled, he, hphase] at h

theorem noDrops_step [DecidableEq D] {env : Environment D} {s' : Runtime D P} {a : Action D P}
    (hs : s.NoDrops) (ha : s.Undropped a) (h : s.step env a = some s') : s'.NoDrops := by
  have hset : ∀ {t : Nat} {e e' : Execution}, s.executions[t]? = some e → e'.phase ≠ .ended true →
      ∀ (x : Nat) other, (s.executions.set t e')[x]? = some other → other.phase ≠ .ended true := by
    intro t e e' he hphase x other hother
    rcases (getElem?_set_eq_some he).mp hother with ⟨-, rfl⟩ | ⟨-, hsame⟩
    · exact hphase
    · exact hs x other hsame
  rcases step_cases h with ⟨i, x, call, -, -, hmove⟩ | ⟨t, x, e, rfl, he, hmove⟩ | hframe
  · cases hmove with
    | started g revision attempt record sequence payload ledger hphase happend =>
      intro x other hother
      rcases getElem?_append_singleton.mp hother with hold | ⟨-, rfl⟩
      · exact hs x other hold
      · simp
    | refused | entered | authorized | denied | unaccepted | found | unleased | leased | rolledBack
    | withdrawn | interrupted => exact hs
  · cases hmove with
    | dropped hphase hcancelled =>
      have hcalm := ha t e (by rw [enter_of_created he hphase h]) he hphase
      simp [hcalm] at hcancelled
    | moved phase cancelled ledger hledger hlive hlive' hfresh =>
      refine hset he fun hended => ?_
      rw [Execution.done, hended] at hlive'
      cases hlive'
    | launched hphase => exact hset he (by simp)
    | finalized ledger hledger hlive => exact hset he (by simp)
  · intro x other hother
    obtain ⟨before, hbefore, hidle⟩ := hframe.executions.back hother
    rw [hidle.phase]
    exact hs x before hbefore

theorem dropped_step [DecidableEq D] (env : Environment D) {a : Action D P} (ha : ¬ s.Undropped a)
    : ∃ s', s.step env a = some s' ∧ ¬ s'.NoDrops := by
  simp only [Undropped, not_forall, not_eq_false] at ha
  obtain ⟨t, e, rfl, he, hphase, hcancelled⟩ := ha
  refine ⟨s.setPhase t e (.ended true), ?_, fun hdrops => ?_⟩
  · simp only [step, executionStep, executionEnter, he, hphase, hcancelled, if_true]
  · exact hdrops t _ ((getElem?_set_eq_some he).mpr (.inl ⟨rfl, rfl⟩)) rfl

/-- The leases of every graph are its live runs and every drain waits exactly for these, in every state
of a run, if and only if no task of the run is cancelled before its first step. -/
theorem leases_count_live_runs [DecidableEq D] (env : Environment D) (ledger : Ledger D P)
    (catalog : Catalog) (initialGeneration : Nat) (ownsStore : Bool) (schedule : List (Action D P)) :
    Along (step env) Undropped (construct ledger catalog initialGeneration ownsStore) schedule ↔
      ∀ front s, front <+: schedule →
        run (step env) (construct ledger catalog initialGeneration ownsStore) front = some s →
        s.Accounted := by
  have hsound := sound_construct (P := P) ledger catalog initialGeneration ownsStore
  constructor
  · rintro halong front s ⟨rest, rfl⟩ hrun
    rw [(sound_run hsound hrun).accounted_iff]
    exact run_invariant_along (fun _ _ _ hs ha h => noDrops_step hs ha h)
      (noDrops_construct ledger catalog initialGeneration ownsStore) (along_append.mp halong).1 hrun
  · intro haccounted
    rw [along_iff]
    intro front a m hbegin hrun
    by_contra hdropped
    obtain ⟨s', hstep, hdrops⟩ := dropped_step env hdropped
    have hrun' : run (step env) _ (front ++ [a]) = some s' :=
      run_append.mpr ⟨m, hrun, run_cons.mpr ⟨s', hstep, rfl⟩⟩
    exact hdrops ((sound_run hsound hrun').accounted_iff.mp (haccounted _ s' hbegin hrun'))

def droppedSchedule : List (Action String Nat) :=
  Sample.opening ++ Sample.acceptance ++ [.submit 0 (.profile Sample.calm)] ++ Sample.cancellation ++
    [.execution 0 .enter, .cancel 0 .gathered, .cancel 0 (.settle Sample.calm),
      .call (.reconfigure 2 1 false), .reconfigure 0 (.check true), .reconfigure 0 (.preflight true),
      .prepare 1 .done, .reconfigure 0 .swap, .reconfigure 0 (.drain true)]

/-- The only run is cancelled and done, its lease is not given back, and the drain waits for it. -/
theorem dropped_task_blocks_the_drain : ∃ s : Runtime String Nat,
    run (step Sample.environment) Sample.runtime droppedSchedule = some s ∧
      (s.ledger.runs.get? "run").map RunRow.status = some .cancelled ∧ s.leasesOf 0 = 1 ∧
      s.liveOn 0 = 0 ∧ (s.reconfigureEmpty 0).isSome = false ∧ ¬ s.Accounted := by
  have htrace : (run (step Sample.environment) Sample.runtime droppedSchedule).map (fun s =>
      ((s.ledger.runs.get? "run").map RunRow.status, s.leasesOf 0, s.liveOn 0,
        (s.reconfigureEmpty 0).isSome)) = some (some .cancelled, 1, 0, false) := by decide +kernel
  obtain ⟨s, hrun, hs⟩ := Option.map_eq_some_iff.mp htrace
  simp only [Prod.mk.injEq] at hs
  obtain ⟨hstatus, hleases, hlive, hwaits⟩ := hs
  refine ⟨s, hrun, hstatus, hleases, hlive, hwaits, fun haccounted => ?_⟩
  have heq := haccounted.leases 0
  omega

end Runtime

end OpenAgent
