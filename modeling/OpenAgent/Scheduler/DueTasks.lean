import OpenAgent.Scheduler.ExactlyOnce

/-!
# What becomes of a due occurrence

A due occurrence stays due until a claim takes it, an edit of its task takes it back, or a recalculation
moves the cursor past it. The last is meant for the slots that elapsed while nobody ticked, but a change
of the enabled domains recalculates as well, with the loop running.
-/

namespace OpenAgent.Scheduler

open Lib List Option

variable {Zone : Type} {cal : Calendar Zone} {s s' : System} {id : String} {v : Int}

def Due (s : System) (id : String) (v : Int) : Prop :=
  ∃ task, s.tables.tasks.get? id = some task ∧ task.enabled = true ∧ task.nextRun = some v ∧ v ≤ s.now

def Claimed (s : System) (id : String) (v : Int) : Prop :=
  ∃ a ∈ s.tables.advances, a.taskId = id ∧ a.occurrence = v

def Accounted (s : System) (id : String) (v : Int) : Prop :=
  Due s id v ∨ Claimed s id v ∨ (id, v) ∈ s.withdrawn

def SparesDue (cal : Calendar Zone) (s : System) : Action → Bool
  | .recalculate j true => (nextOf s.recalculations j).all fun (pass, id, read, _) =>
    (s.tables.tasks.get? id).all fun task =>
      !(task.pending.any (· ≤ s.now)) || (recalculated cal pass.now read task).pending = task.pending
  | _ => true

theorem pending_eq_some {task : Task} :
    task.pending = some v ↔ task.enabled = true ∧ task.nextRun = some v := by
  rw [Task.pending]
  split
  · rename_i h
    simp [h]
  · rename_i h
    simp [h]

theorem Due.of_row (h : Due s id v) (hrow : s'.tables.tasks.get? id = s.tables.tasks.get? id)
    (hnow : s.now ≤ s'.now) : Due s' id v := by
  obtain ⟨task, hget, henabled, hcursor, hbefore⟩ := h
  exact ⟨task, hrow.trans hget, henabled, hcursor, by omega⟩

theorem Accounted.mono (h : Accounted s id v) (hadvances : s.tables.advances ⊆ s'.tables.advances)
    (hwithdrawn : s.withdrawn ⊆ s'.withdrawn) (hdue : Due s id v → Accounted s' id v) :
    Accounted s' id v := by
  rcases h with hwaits | ⟨a, ha, htask, hoccurrence⟩ | htaken
  · exact hdue hwaits
  · exact .inr (.inl ⟨a, hadvances ha, htask, hoccurrence⟩)
  · exact .inr (.inr (hwithdrawn htaken))

/-! ### Claims -/

theorem claimTask_accounted (i : Nat) (pass : Pass) (x : String) (task : Task)
    (rest : List (String × Task)) (authorized : Bool) (runId : String) (fault : Option Fault)
    (h : Accounted s id v) :
    Accounted (s.claimTask cal i pass x task rest authorized runId fault) id v := by
  obtain ⟨hnow, hwithdrawn⟩ :=
    @claimTask_frame _ cal s i pass x task rest authorized runId fault
  rcases @claimTask_tables _ cal s i pass x task rest authorized runId fault with
    hsame | ⟨expected, nextRun, row, hcursor, hcomputed, hdue, hfresh, hclaimed⟩
  · refine h.mono (by rw [hsame]; exact List.Subset.refl _) (hwithdrawn ▸ List.Subset.refl _)
      fun hwaits => .inl ?_
    exact hwaits.of_row (by rw [hsame]) (by rw [hnow])
  · have hadvances : s.tables.advances ⊆
        (s.claimTask cal i pass x task rest authorized runId fault).tables.advances := by
      rw [hclaimed]
      exact subset_append_left _ _
    refine h.mono hadvances (hwithdrawn ▸ List.Subset.refl _) fun hwaits => ?_
    by_cases hx : id = x
    · subst hx
      obtain ⟨task', hget, -, hcursor', -⟩ := hwaits
      obtain ⟨hget', -, hexpected⟩ := dueRow_eq_some.mp hdue
      cases hget.symm.trans hget'
      obtain rfl := some.inj (hcursor'.symm.trans hexpected)
      refine .inr (.inl ⟨⟨runId, id, v, pass.now⟩, ?_, rfl, rfl⟩)
      rw [hclaimed]
      exact mem_append_right _ (mem_singleton_self _)
    · refine .inl (hwaits.of_row ?_ (by rw [hnow]))
      rw [hclaimed]
      exact Dict.get?_set_ne _ _ hx

/-! ### Recalculations and edits -/

theorem recalculateTask_accounted {j : Nat} {pass : Pass} {x : String} {read : Task}
    {rest : List (String × Task)} {authorized : Bool}
    (hnext : nextOf s.recalculations j = some (pass, x, read, rest))
    (hspares : SparesDue cal s (.recalculate j authorized) = true) (h : Accounted s id v) :
    Accounted (s.recalculateTask cal j pass x read rest authorized) id v := by
  cases authorized with
  | false => exact h.mono (List.Subset.refl _) (List.Subset.refl _) .inl
  | true =>
    refine h.mono (List.Subset.refl _) (List.Subset.refl _) fun hwaits => .inl ?_
    obtain ⟨task, hget, henabled, hcursor, hbefore⟩ := hwaits
    by_cases hx : id = x
    · subst hx
      have hpending := pending_eq_some.mpr ⟨henabled, hcursor⟩
      simp only [SparesDue, hnext, all_some, hget, hpending, any_some, hbefore,
        decide_true, Bool.not_true, Bool.false_or, decide_eq_true_eq] at hspares
      obtain ⟨henabled', hcursor'⟩ := pending_eq_some.mp hspares
      refine ⟨recalculated cal pass.now read task, ?_, henabled', hcursor', hbefore⟩
      show (s.tables.tasks.update id (recalculated cal pass.now read)).get? id = _
      rw [Dict.get?_update, if_pos rfl, hget, map_some]
    · refine ⟨task, ?_, henabled, hcursor, hbefore⟩
      show (s.tables.tasks.update x (recalculated cal pass.now read)).get? id = some task
      rw [Dict.get?_update, if_neg hx, hget]

theorem withdraw_mem {task : Task} (hpending : task.pending = some v) :
    (id, v) ∈ (s.withdraw id task).withdrawn := by
  rw [System.withdraw, hpending]
  exact mem_append_right _ (mem_singleton_self _)

theorem edit_pending {task edited : Task} {edit : Edit} {now : Int}
    (h : task.edit cal edit now = some edited) (hreschedules : edit.reschedules = false)
    (hdisables : edit.enabled ≠ some false) : edited.pending = task.pending := by
  simp only [Task.edit, hreschedules, Bool.false_eq_true, if_false, Option.some.injEq] at h
  have harm : edit.enabled = none := by
    simp only [Edit.reschedules, Bool.or_eq_false_iff, decide_eq_false_iff_not] at hreschedules
    cases hedit : edit.enabled with
    | none => rfl
    | some b =>
      cases b with
      | false => exact absurd hedit hdisables
      | true => exact absurd hedit hreschedules.2
  rw [← h, Task.pending, Task.pending, harm]
  rfl

theorem editTask_accounted {x : String} {edit : Edit} {now : Int}
    (hstep : s.editTask cal x edit now = some s') (h : Accounted s id v) : Accounted s' id v := by
  rw [System.editTask] at hstep
  cases hget : s.tables.tasks.get? x with
  | none =>
    simp [hget] at hstep
  | some task =>
    simp only [hget] at hstep
    cases hedit : task.edit cal edit now with
    | none =>
      rw [hedit] at hstep
      cases hstep
      exact h
    | some edited =>
      simp only [hedit] at hstep
      have hother : id ≠ x → ∀ u : System, u.tables.tasks = s.tables.tasks →
          (u.setTask x edited).tables.tasks.get? id = s.tables.tasks.get? id := by
        intro hx u hu
        show (u.tables.tasks.set x edited).get? id = _
        rw [Dict.get?_set_ne _ _ hx, hu]
      split at hstep
      · cases hstep
        refine h.mono (List.Subset.refl _) (subset_append_left _ _) fun hwaits => ?_
        by_cases hx : id = x
        · subst hx
          obtain ⟨task', hget', henabled, hcursor, -⟩ := hwaits
          cases hget.symm.trans hget'
          exact .inr (.inr (withdraw_mem (pending_eq_some.mpr ⟨henabled, hcursor⟩)))
        · exact .inl (hwaits.of_row (hother hx _ rfl) (Int.le_refl _))
      · rename_i hquiet
        cases hstep
        simp only [Bool.or_eq_true, decide_eq_true_eq, not_or, Bool.not_eq_true] at hquiet
        refine h.mono (List.Subset.refl _) (List.Subset.refl _) fun hwaits => .inl ?_
        by_cases hx : id = x
        · subst hx
          obtain ⟨task', hget', henabled, hcursor, hbefore⟩ := hwaits
          cases hget.symm.trans hget'
          have hpending := pending_eq_some.mpr ⟨henabled, hcursor⟩
          rw [← edit_pending hedit hquiet.1 hquiet.2] at hpending
          obtain ⟨henabled', hcursor'⟩ := pending_eq_some.mp hpending
          exact ⟨edited, Dict.get?_set_self .., henabled', hcursor', hbefore⟩
        · exact hwaits.of_row (hother hx s rfl) (Int.le_refl _)

theorem removeTask_accounted {x : String} (hstep : s.removeTask x = some s') (h : Accounted s id v) :
    Accounted s' id v := by
  rw [System.removeTask] at hstep
  cases hget : s.tables.tasks.get? x with
  | none =>
    simp [hget] at hstep
  | some task =>
    simp only [hget] at hstep
    cases hstep
    refine h.mono (List.Subset.refl _) (subset_append_left _ _) fun hwaits => ?_
    by_cases hx : id = x
    · subst hx
      obtain ⟨task', hget', henabled, hcursor, -⟩ := hwaits
      cases hget.symm.trans hget'
      exact .inr (.inr (withdraw_mem (pending_eq_some.mpr ⟨henabled, hcursor⟩)))
    · refine .inl (hwaits.of_row ?_ (Int.le_refl _))
      show (s.tables.tasks.pop x).get? id = _
      exact Dict.get?_pop_ne _ hx

/-! ### Every step -/

theorem Accounted.frame (h : Accounted s id v) (htables : s'.tables = s.tables)
    (hwithdrawn : s'.withdrawn = s.withdrawn) (hnow : s.now ≤ s'.now) : Accounted s' id v :=
  h.mono (htables ▸ List.Subset.refl _) (hwithdrawn ▸ List.Subset.refl _)
    fun hwaits => .inl (hwaits.of_row (by rw [htables]) hnow)

theorem Accounted.kept (h : Accounted s id v) {a : Action} (hspares : SparesDue cal s a = true)
    (hstep : step cal s a = some s') : Accounted s' id v := by
  cases a with
  | clock now =>
    simp only [step] at hstep
    split at hstep
    · rename_i hnow
      cases hstep
      exact h.frame rfl rfl hnow
    · cases hstep
  | boot domains =>
    cases hstep
    exact h.frame rfl rfl (Int.le_refl _)
  | start p now =>
    obtain ⟨process, -, hstart⟩ := Option.bind_eq_some_iff.mp hstep
    split at hstart
    · cases hstart
    · cases hstart
      exact h.frame rfl rfl (Int.le_refl _)
  | stop p =>
    obtain ⟨process, -, rfl⟩ := Option.map_eq_some_iff.mp hstep
    exact h.frame rfl rfl (Int.le_refl _)
  | setEnabledDomains p domains now =>
    obtain ⟨process, -, rfl⟩ := Option.map_eq_some_iff.mp hstep
    dsimp only
    split
    · exact h.frame rfl rfl (Int.le_refl _)
    · exact h.frame rfl rfl (Int.le_refl _)
  | tick p now =>
    obtain ⟨process, -, htick⟩ := Option.bind_eq_some_iff.mp hstep
    split at htick
    · cases htick
      exact h.frame rfl rfl (Int.le_refl _)
    · cases htick
  | claim i authorized runId fault =>
    obtain ⟨⟨pass, x, task, rest⟩, -, rfl⟩ := Option.map_eq_some_iff.mp hstep
    exact claimTask_accounted i pass x task rest authorized runId fault h
  | abandonTick i =>
    obtain ⟨pass, -, rfl⟩ := Option.map_eq_some_iff.mp hstep
    exact h.frame rfl rfl (Int.le_refl _)
  | recalculate j authorized =>
    obtain ⟨⟨pass, x, read, rest⟩, hnext, rfl⟩ := Option.map_eq_some_iff.mp hstep
    exact recalculateTask_accounted hnext hspares h
  | abandonRecalculation j =>
    obtain ⟨pass, -, rfl⟩ := Option.map_eq_some_iff.mp hstep
    exact h.frame rfl rfl (Int.le_refl _)
  | addTask x cronExpression timezone now =>
    simp only [step] at hstep
    split at hstep
    · cases hstep
    · rename_i habsent
      obtain ⟨nextRun, -, rfl⟩ := Option.map_eq_some_iff.mp hstep
      refine h.mono (List.Subset.refl _) (List.Subset.refl _) fun hwaits => .inl ?_
      refine hwaits.of_row (Dict.get?_set_ne _ _ ?_) (Int.le_refl _)
      rintro rfl
      obtain ⟨task, hget, -⟩ := hwaits
      simp [Dict.contains, hget] at habsent
  | updateTask x edit now => exact editTask_accounted hstep h
  | deleteTask x => exact removeTask_accounted hstep h

/-! ### Service -/

end OpenAgent.Scheduler
