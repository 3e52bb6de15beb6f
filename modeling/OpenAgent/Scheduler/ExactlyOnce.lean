import OpenAgent.Scheduler.System

/-!
# Each occurrence once

However many schedulers tick, each from its own clock, and wherever their claims fail, a task is its first
row advanced once for every run row, in the order of the rows. Each advance takes the cursor it found and
leaves a later one, so no occurrence is claimed twice.
-/

namespace OpenAgent.Scheduler

open Lib List

variable {Zone : Type} {cal : Calendar Zone}

/-- The task after the advances: each takes the cursor of an enabled task that is due and leaves what
`_check_and_run` computes from the time of the tick. -/
inductive Replays (cal : Calendar Zone) (first : Task) : List Advance → Task → Prop
  | nil : Replays cal first [] first
  | snoc {advances : List Advance} {task : Task} {a : Advance} {nextRun : Option Int}
      (before : Replays cal first advances task) (henabled : task.enabled = true)
      (hcursor : task.nextRun = some a.occurrence) (hdue : a.occurrence ≤ a.firedAt)
      (hnext : tickNextRun cal a.firedAt task = some nextRun) :
      Replays cal first (advances ++ [a])
        (task.advance a.firedAt nextRun (isOneShotExpression task.cronExpression))

variable {first task : Task} {advances : List Advance}

theorem Replays.schedule (h : Replays cal first advances task) :
    task.cronExpression = first.cronExpression ∧ task.timezone = first.timezone := by
  induction h with
  | nil => exact ⟨rfl, rfl⟩
  | snoc before henabled hcursor hdue hnext ih => exact ih

theorem Replays.one_shot (h : Replays cal first advances task)
    (hone : isOneShotExpression first.cronExpression = true) :
    advances.length ≤ 1 ∧ (advances ≠ [] → task.enabled = false) := by
  induction h with
  | nil => exact ⟨Nat.zero_le 1, fun hne => absurd rfl hne⟩
  | @snoc advances task a nextRun before henabled hcursor hdue hnext ih =>
    have hempty : advances = [] := by
      by_contra hne
      simp [ih.2 hne] at henabled
    subst hempty
    refine ⟨Nat.le_refl 1, fun _ => ?_⟩
    show (!isOneShotExpression task.cronExpression) = false
    rw [before.schedule.1, hone]
    rfl

theorem Replays.increasing (h : Replays cal first advances task) :
    (advances.map Advance.occurrence).Pairwise (· < ·) ∧
      ∀ a ∈ advances, ∀ v, task.nextRun = some v → a.occurrence < v := by
  induction h with
  | nil => exact ⟨List.Pairwise.nil, fun a ha => nomatch ha⟩
  | @snoc advances task a nextRun before henabled hcursor hdue hnext ih =>
    obtain ⟨hsorted, hbeyond⟩ := ih
    have hless : ∀ b ∈ advances, b.occurrence < a.occurrence := fun b hb =>
      hbeyond b hb a.occurrence hcursor
    refine ⟨?_, fun b hb v hv => ?_⟩
    · rw [map_append, pairwise_append]
      refine ⟨hsorted, pairwise_singleton _ _, ?_⟩
      intro x hx y hy
      obtain ⟨b, hb, rfl⟩ := List.mem_map.mp hx
      cases List.mem_singleton.mp hy
      exact hless b hb
    · have hcursor' : nextRun = some v := hv
      have hlater : a.firedAt < v := by
        rw [tickNextRun] at hnext
        split at hnext
        · simp [hcursor'] at hnext
        · rename_i hrecurring
          rw [hcursor', Option.map_eq_some_iff] at hnext
          obtain ⟨w, hw, heq⟩ := hnext
          cases heq
          exact nextRun_later (Bool.eq_false_iff.mpr hrecurring) hw
      rcases List.mem_append.mp hb with hold | hnew
      · have := hless b hold
        omega
      · cases List.mem_singleton.mp hnew
        omega

/-! ### Runs of ticks -/

def Action.ofTicks : Action → Bool
  | .clock _ | .boot _ | .stop _ | .tick _ _ | .claim _ _ _ _ | .abandonTick _ => true
  | _ => false

def Tables.advancesOf (t : Tables) (id : String) : List Advance :=
  t.advances.filter fun a => a.taskId = id

def Advance.row (a : Advance) : String × TaskRun := (a.runId, ⟨a.taskId, .schedule, .running, a.firedAt⟩)

/-- Every new run row has its advance and every advance its run row, and nothing else moved a task. -/
structure Faithful (cal : Calendar Zone) (start t : Tables) : Prop where
  runs : t.runs.entries = start.runs.entries ++ t.advances.map Advance.row
  rows : ∀ id first, start.tasks.get? id = some first →
    ∃ task, t.tasks.get? id = some task ∧ Replays cal first (t.advancesOf id) task
  absent : ∀ id, start.tasks.get? id = none → t.tasks.get? id = none ∧ t.advancesOf id = []

def ReadOf (start : Tables) (now : Int) (id : String) (task : Task) : Prop :=
  ∃ v first, task.nextRun = some v ∧ v ≤ now ∧ start.tasks.get? id = some first ∧
    task.cronExpression = first.cronExpression ∧ task.timezone = first.timezone

structure Consistent (cal : Calendar Zone) (start : Tables) (s : System) : Prop where
  faithful : Faithful cal start s.tables
  read : ∀ (i : Nat) (pass : Pass), s.ticks[i]? = some pass → ∀ e ∈ pass.rest, ReadOf start pass.now e.1 e.2

variable {start : Tables} {s s' : System}

theorem tickNextRun_congr {a b : Task} {now : Int} (hcron : a.cronExpression = b.cronExpression)
    (hzone : a.timezone = b.timezone) : tickNextRun cal now a = tickNextRun cal now b := by
  rw [tickNextRun, tickNextRun, hcron, hzone]

theorem advancesOf_snoc (t : Tables) (a : Advance) (id : String) :
    ({ t with advances := t.advances ++ [a] } : Tables).advancesOf id =
      t.advancesOf id ++ if a.taskId = id then [a] else [] := by
  rw [Tables.advancesOf, filter_append, Tables.advancesOf]
  by_cases h : a.taskId = id
  · rw [if_pos h, filter_cons_of_pos (by simpa using h), filter_nil]
  · rw [if_neg h, filter_cons_of_neg (by simpa using h), filter_nil]

theorem Faithful.claimed {t : Tables} (h : Faithful cal start t) {now : Int} {runId id : String}
    {read row : Task} {expected : Int} {nextRun : Option Int} (hread : ReadOf start now id read)
    (hexpected : read.nextRun = some expected) (hnext : tickNextRun cal now read = some nextRun)
    (hdue : t.dueRow (tickArgs now runId id read expected nextRun) = some row)
    (hfresh : t.runs.get? runId = none) :
    Faithful cal start (t.claimed (tickArgs now runId id read expected nextRun) row) := by
  obtain ⟨v, first, hcursor, hbefore, hfirst, hcron, hzone⟩ := hread
  cases hexpected.symm.trans hcursor
  obtain ⟨hget, henabled, hrowCursor⟩ := dueRow_eq_some.mp hdue
  obtain ⟨row', hget', hreplays⟩ := h.rows id first hfirst
  cases hget.symm.trans hget'
  obtain ⟨hrowCron, hrowZone⟩ := hreplays.schedule
  have hsame : read.cronExpression = row.cronExpression := hcron.trans hrowCron.symm
  have hnextRow : tickNextRun cal now row = some nextRun :=
    (tickNextRun_congr hsame (hzone.trans hrowZone.symm)).symm.trans hnext
  have hadvances : ∀ x, (t.claimed (tickArgs now runId id read expected nextRun) row).advancesOf x =
      t.advancesOf x ++ if id = x then [⟨runId, id, expected, now⟩] else [] := fun x =>
    advancesOf_snoc t ⟨runId, id, expected, now⟩ x
  constructor
  · show Dict.assign runId _ t.runs.entries =
      start.runs.entries ++ (t.advances ++ [(⟨runId, id, expected, now⟩ : Advance)]).map Advance.row
    rw [Dict.assign_of_absent hfresh, map_append, h.runs, append_assoc]
    rfl
  · intro x other hother
    rw [hadvances]
    by_cases hx : id = x
    · subst hx
      cases hfirst.symm.trans hother
      rw [if_pos rfl]
      refine ⟨row.advance now nextRun (isOneShotExpression read.cronExpression), ?_, ?_⟩
      · exact Dict.get?_set_self ..
      · rw [hsame]
        exact .snoc hreplays henabled hrowCursor hbefore hnextRow
    · obtain ⟨task, htask, hreplay⟩ := h.rows x other hother
      rw [if_neg hx, append_nil]
      refine ⟨task, ?_, hreplay⟩
      exact (Dict.get?_set_ne _ _ fun heq => hx heq.symm).trans htask
  · intro x hx
    have hne : x ≠ id := by
      intro heq
      simp [heq, hfirst] at hx
    obtain ⟨hnone, hempty⟩ := h.absent x hx
    refine ⟨(Dict.get?_set_ne _ _ hne).trans hnone, ?_⟩
    rw [hadvances, hempty, if_neg fun heq => hne heq.symm]
    rfl

theorem Faithful.readOf {t : Tables} (h : Faithful cal start t) {now : Int} {id : String} {task : Task}
    (hdue : (id, task) ∈ dueTasks t.tasks now) : ReadOf start now id task := by
  obtain ⟨hget, -, v, hcursor, hbefore⟩ := mem_dueTasks.mp hdue
  cases hfirst : start.tasks.get? id with
  | none =>
    simp [(h.absent id hfirst).1] at hget
  | some first =>
    obtain ⟨row, hrow, hreplays⟩ := h.rows id first hfirst
    cases hget.symm.trans hrow
    exact ⟨v, first, hcursor, hbefore, hfirst, hreplays.schedule⟩

theorem Consistent.kept (h : Consistent cal start s) {a : Action} (hticks : a.ofTicks = true)
    (hstep : step cal s a = some s') : Consistent cal start s' := by
  obtain ⟨hfaithful, hread⟩ := h
  cases a with
  | clock now =>
    simp only [step] at hstep
    split at hstep
    · cases hstep
      exact ⟨hfaithful, hread⟩
    · cases hstep
  | boot domains =>
    cases hstep
    exact ⟨hfaithful, hread⟩
  | stop p =>
    obtain ⟨process, -, rfl⟩ := Option.map_eq_some_iff.mp hstep
    exact ⟨hfaithful, hread⟩
  | tick p now =>
    obtain ⟨process, -, htick⟩ := Option.bind_eq_some_iff.mp hstep
    split at htick
    · cases htick
      refine ⟨hfaithful, fun i pass hi e he => ?_⟩
      rcases getElem?_append_singleton.mp hi with hold | ⟨-, rfl⟩
      · exact hread i pass hold e he
      · have hdue : e ∈ dueTasks s.tables.tasks now := by
          by_cases hdomain : Domain.scheduler ∈ process.domains
          · simpa [hdomain] using he
          · simp [hdomain] at he
        exact hfaithful.readOf hdue
    · cases htick
  | claim i authorized runId fault =>
    obtain ⟨⟨pass, id, task, rest⟩, hnext, rfl⟩ := Option.map_eq_some_iff.mp hstep
    obtain ⟨hpass, hrest⟩ := nextOf_eq_some hnext
    constructor
    · rcases @claimTask_tables _ cal s i pass id task rest authorized runId fault with
        hsame | ⟨expected, nextRun, row, hcursor, hcomputed, hdue, hfresh, hclaimed⟩
      · rw [hsame]
        exact hfaithful
      · rw [hclaimed]
        have hhead := hread i pass hpass (id, task) (hrest ▸ mem_cons_self)
        exact hfaithful.claimed hhead hcursor hcomputed hdue hfresh
    · intro j other hj e he
      rw [claimTask_ticks, getElem?_set_eq_some hpass] at hj
      rcases hj with ⟨rfl, rfl⟩ | ⟨-, hj⟩
      · exact hread i pass hpass e (hrest ▸ mem_cons_of_mem _ he)
      · exact hread j other hj e he
  | abandonTick i =>
    obtain ⟨pass, hpass, rfl⟩ := Option.map_eq_some_iff.mp hstep
    refine ⟨hfaithful, fun j other hj e he => ?_⟩
    rw [getElem?_set_eq_some hpass] at hj
    rcases hj with ⟨rfl, rfl⟩ | ⟨-, hj⟩
    · cases he
    · exact hread j other hj e he
  | start p now => cases hticks
  | setEnabledDomains p domains now => cases hticks
  | recalculate j authorized => cases hticks
  | abandonRecalculation j => cases hticks
  | addTask id cronExpression timezone now => cases hticks
  | updateTask id edit now => cases hticks
  | deleteTask id => cases hticks

/-! ### Exactly once -/

structure Quiet (s : System) : Prop where
  advances : s.tables.advances = []
  ticks : s.ticks = []

theorem Quiet.consistent (h : Quiet s) : Consistent cal s.tables s := by
  obtain ⟨hadvances, hticks⟩ := h
  have hnone : ∀ id, s.tables.advancesOf id = [] := by
    intro id
    rw [Tables.advancesOf, hadvances]
    rfl
  refine ⟨⟨?_, fun id first hfirst => ⟨first, hfirst, ?_⟩, fun id hid => ⟨hid, hnone id⟩⟩, ?_⟩
  · rw [hadvances, map_nil, append_nil]
  · rw [hnone]
    exact .nil
  · intro i pass hi
    simp [hticks] at hi

/-- However the ticks of all processes interleave and wherever their claims fail, each new run row stands for
one advance of its task and each advance has its run row; a task is its first row advanced by its
advances in turn; the occurrences claimed of a task increase, and a one-shot task is claimed once. -/
theorem each_occurrence_fires_once {as : List Action} {t : System} (hquiet : Quiet s)
    (hticks : ∀ a ∈ as, a.ofTicks = true) (hrun : run (step cal) s as = some t) :
    t.tables.runs.entries = s.tables.runs.entries ++ t.tables.advances.map Advance.row ∧
    (∀ id first, s.tables.tasks.get? id = some first →
      ∃ task, t.tables.tasks.get? id = some task ∧ Replays cal first (t.tables.advancesOf id) task) ∧
    (∀ id, ((t.tables.advancesOf id).map Advance.occurrence).Pairwise (· < ·)) ∧
    ∀ id first, s.tables.tasks.get? id = some first →
      isOneShotExpression first.cronExpression = true → (t.tables.advancesOf id).length ≤ 1 := by
  have hconsistent : Consistent cal s.tables t :=
    run_invariant_along (fun _ _ _ hs hC hstep => hs.kept hC hstep) hquiet.consistent
      (along_of_forall hticks) hrun
  obtain ⟨hruns, hrows, habsent⟩ := hconsistent.faithful
  refine ⟨hruns, hrows, fun id => ?_, fun id first hfirst hone => ?_⟩
  · cases hfirst : s.tables.tasks.get? id with
    | none =>
      rw [(habsent id hfirst).2]
      exact List.Pairwise.nil
    | some first =>
      obtain ⟨task, -, hreplays⟩ := hrows id first hfirst
      exact hreplays.increasing.1
  · obtain ⟨task, -, hreplays⟩ := hrows id first hfirst
    exact (hreplays.one_shot hone).1

def minutely : Calendar Unit where
  zoneInfo _ := none
  strip name := name
  readFloat _ := none
  expanded _ := none
  repeated _ _ := false
  next _ _ base := some ((base / 60 + 1) * 60)
  next_later := by
    intro expr zone base t h
    cases h
    omega

def twoSchedulers : System where
  tables := { tasks := Dict.empty.set "task" { cronExpression := "* * * * *", nextRun := some 60 } }
  processes := [{ domains := [.scheduler], looping := true }, { domains := [.scheduler], looping := true }]

def racingTicks : List Action :=
  [.tick 0 61, .tick 1 62, .claim 0 true "first" (some .commit), .claim 1 true "second" none,
    .tick 0 63, .abandonTick 2]

theorem racing_ticks_fire_once :
    ∃ t, run (step minutely) twoSchedulers racingTicks = some t ∧
      t.tables.runs.entries = [] ++ t.tables.advances.map Advance.row ∧
      t.tables.advancesOf "task" = [⟨"second", "task", 60, 62⟩] := by
  have htrace : (run (step minutely) twoSchedulers racingTicks).map
      (fun t => t.tables.advancesOf "task") = some [⟨"second", "task", 60, 62⟩] := by
    rfl
  obtain ⟨t, ht, hadvances⟩ := Option.map_eq_some_iff.mp htrace
  exact ⟨t, ht, (each_occurrence_fires_once ⟨rfl, rfl⟩ (by decide) ht).1, hadvances⟩

end OpenAgent.Scheduler
