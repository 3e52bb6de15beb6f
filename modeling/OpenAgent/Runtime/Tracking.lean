import OpenAgent.Runtime.Stages

/-!
# Tasks and who waits for them

The task table holds every task that is not done, under its own run. Only a cancellation that has seen
the task of its run done, and a close that has seen all of them done, take tasks out of it from outside.
-/

namespace OpenAgent

open Lib Option

variable {D P : Type}

def Cancel.idle (call : Cancel) : Prop := (∀ t, call.phase ≠ .gathering t) ∧ call.phase ≠ .settling

namespace Runtime

structure Tracked (s : Runtime D P) : Prop where
  task : ∀ r t, s.tasks.get? r = some t → ∃ e, s.executions[t]? = some e ∧ e.request.runId = r
  live : ∀ (t : Nat) e, s.executions[t]? = some e → e.done = false →
    s.tasks.get? e.request.runId = some t
  gathering : ∀ (k : Nat) call t, s.cancels[k]? = some call → call.phase = .gathering t →
    ∃ e, s.executions[t]? = some e ∧ e.request.runId = call.runId
  settling : ∀ (k : Nat) call, s.cancels[k]? = some call → call.phase = .settling →
    ∃ (t : Nat) (e : Execution), s.executions[t]? = some e ∧ e.request.runId = call.runId ∧ e.done = true
  awaited : ∀ (j : Nat) tasks, s.closes[j]? = some (.gathering tasks) →
    ∀ (t : Nat) e, s.executions[t]? = some e → e.done = false → t ∈ tasks
  stopped : ∀ (j : Nat) runs, s.closes[j]? = some (.leftovers runs) →
    ∀ (t : Nat) e, s.executions[t]? = some e → e.done = true

theorem tracked_construct (ledger : Ledger D P) (catalog : Catalog) (initialGeneration : Nat)
    (ownsStore : Bool) : (construct ledger catalog initialGeneration ownsStore).Tracked where
  task r t h := by cases h
  live t e h := by cases h
  gathering k call t h := by cases h
  settling k call h := by cases h
  awaited j tasks h := by cases h
  stopped j runs h := by cases h

structure TrackFrame (s s' : Runtime D P) : Prop where
  tasks : s'.tasks = s.tasks
  executions : SameTasks s.executions s'.executions
  cancels : Grows Cancel.idle s.cancels s'.cancels
  closes : Grows (fun phase => phase = .waiting) s.closes s'.closes

def trackView (s : Runtime D P) := (s.tasks, s.executions, s.cancels, s.closes)

variable {s s' : Runtime D P}

theorem TrackFrame.same (h : s'.trackView = s.trackView) : TrackFrame s s' := by
  simp only [trackView, Prod.mk.injEq] at h
  obtain ⟨htasks, hexecutions, hcancels, hcloses⟩ := h
  exact ⟨htasks, hexecutions ▸ .refl _, hcancels ▸ .refl _, hcloses ▸ .refl _⟩

theorem Tracked.of_frame (hs : s.Tracked) (h : TrackFrame s s') : s'.Tracked where
  task r t htask := by
    rw [h.tasks] at htask
    obtain ⟨e, he, hid⟩ := hs.task r t htask
    obtain ⟨e', he', hidle⟩ := h.executions.forth he
    exact ⟨e', he', by rw [hidle.request, hid]⟩
  live t e' he' hlive := by
    obtain ⟨e, he, hidle⟩ := h.executions.back he'
    rw [h.tasks, hidle.request]
    exact hs.live t e he (by rwa [hidle.done] at hlive)
  gathering k call t hcall hphase := by
    rcases h.cancels.old hcall with hold | hwaiting
    · obtain ⟨e, he, hid⟩ := hs.gathering k call t hold hphase
      obtain ⟨e', he', hidle⟩ := h.executions.forth he
      exact ⟨e', he', by rw [hidle.request, hid]⟩
    · exact absurd hphase (hwaiting.1 t)
  settling k call hcall hphase := by
    rcases h.cancels.old hcall with hold | hwaiting
    · obtain ⟨t, e, he, hid, hdone⟩ := hs.settling k call hold hphase
      obtain ⟨e', he', hidle⟩ := h.executions.forth he
      exact ⟨t, e', he', by rw [hidle.request, hid], by rw [hidle.done, hdone]⟩
    · exact absurd hphase hwaiting.2
  awaited j tasks hclose t e' he' hlive := by
    rcases h.closes.old hclose with hold | hwaiting
    · obtain ⟨e, he, hidle⟩ := h.executions.back he'
      exact hs.awaited j tasks hold t e he (by rwa [hidle.done] at hlive)
    · cases hwaiting
  stopped j runs hclose t e' he' := by
    rcases h.closes.old hclose with hold | hwaiting
    · obtain ⟨e, he, hidle⟩ := h.executions.back he'
      rw [hidle.done]
      exact hs.stopped j runs hold t e he
    · cases hwaiting

/-! ### Tasks -/

variable {i j k t : Nat}

theorem Tracked.of_execution {e e' : Execution} (hs : s.Tracked) (he : s.executions[t]? = some e)
    (hexecutions : s'.executions = s.executions.set t e') (hrequest : e'.request = e.request)
    (hlive : e.done = false)
    (htasks : s'.tasks = s.tasks ∨ e'.done = true ∧ s'.tasks = s.tasks.pop e.request.runId)
    (hdistinct : ∀ (x : Nat) other, s.executions[x]? = some other →
      other.request.runId = e.request.runId → x = t) (hcancels : s'.cancels = s.cancels)
    (hcloses : s'.closes = s.closes) : s'.Tracked := by
  have hback : ∀ (x : Nat) found, s'.executions[x]? = some found → ∃ old, s.executions[x]? = some old ∧
      found.request = old.request ∧ (found.done = false → old.done = false) := by
    intro x found hfound
    rw [hexecutions] at hfound
    rcases (getElem?_set_eq_some he).mp hfound with ⟨rfl, rfl⟩ | ⟨-, hsame⟩
    · exact ⟨e, he, hrequest, fun _ => hlive⟩
    · exact ⟨found, hsame, rfl, id⟩
  have hforth : ∀ (x : Nat) old, s.executions[x]? = some old → ∃ found, s'.executions[x]? = some found ∧
      found.request = old.request ∧ (old.done = true → found.done = true) := by
    intro x old hold
    rw [hexecutions]
    by_cases hx : t = x
    · subst hx
      cases he.symm.trans hold
      refine ⟨e', (getElem?_set_eq_some he).mpr (.inl ⟨rfl, rfl⟩), hrequest, fun hdone => ?_⟩
      simp [hlive] at hdone
    · exact ⟨old, (getElem?_set_eq_some he).mpr (.inr ⟨hx, hold⟩), rfl, id⟩
  refine ⟨?_, ?_, ?_, ?_, ?_, ?_⟩
  · intro r x hx
    have hold : s.tasks.get? r = some x := by
      rcases htasks with hsame | ⟨-, hpop⟩
      · rwa [hsame] at hx
      · rw [hpop, Dict.get?_pop] at hx
        split at hx
        · cases hx
        · exact hx
    obtain ⟨old, hfound, hid⟩ := hs.task r x hold
    obtain ⟨found, hfound', hsame, -⟩ := hforth x old hfound
    exact ⟨found, hfound', by rw [hsame, hid]⟩
  · intro x found hfound hbusy
    obtain ⟨old, hold, hsame, hbefore⟩ := hback x found hfound
    have htask := hs.live x old hold (hbefore hbusy)
    rcases htasks with hkept | ⟨hdone, hpop⟩
    · rw [hkept, hsame, htask]
    · rw [hpop, hsame, Dict.get?_pop_ne _ ?_, htask]
      intro hid
      obtain rfl := hdistinct x old hold hid
      rw [hexecutions, (getElem?_set_eq_some he).mpr (.inl ⟨rfl, rfl⟩)] at hfound
      cases hfound
      simp [hdone] at hbusy
  · intro k call x hcall hphase
    rw [hcancels] at hcall
    obtain ⟨old, hold, hid⟩ := hs.gathering k call x hcall hphase
    obtain ⟨found, hfound, hsame, -⟩ := hforth x old hold
    exact ⟨found, hfound, by rw [hsame, hid]⟩
  · intro k call hcall hphase
    rw [hcancels] at hcall
    obtain ⟨x, old, hold, hid, hdone⟩ := hs.settling k call hcall hphase
    obtain ⟨found, hfound, hsame, hkept⟩ := hforth x old hold
    exact ⟨x, found, hfound, by rw [hsame, hid], hkept hdone⟩
  · intro j tasks hclose x found hfound hbusy
    rw [hcloses] at hclose
    obtain ⟨old, hold, -, hbefore⟩ := hback x found hfound
    exact hs.awaited j tasks hclose x old hold (hbefore hbusy)
  · intro j runs hclose x found hfound
    rw [hcloses] at hclose
    by_contra hbusy
    rw [Bool.not_eq_true] at hbusy
    obtain ⟨old, hold, -, hbefore⟩ := hback x found hfound
    have hdone := hs.stopped j runs hclose x old hold
    simp [hbefore hbusy] at hdone

variable {env : Environment D}

theorem Tracked.of_executionMove [DecidableEq D] {e : Execution} (hs : s.Tracked) (howned : s.Owned)
    (he : s.executions[t]? = some e) (h : ExecutionMove env s t e s') : s'.Tracked := by
  have hdistinct : ∀ (x : Nat) other, s.executions[x]? = some other →
      other.request.runId = e.request.runId → x = t :=
    fun x other hother hid => howned.distinct x t other e hother he hid
  cases h with
  | dropped hphase hcancelled =>
    exact hs.of_execution he rfl rfl (by rw [Execution.done, hphase]) (.inl rfl) hdistinct rfl rfl
  | moved phase cancelled ledger hledger hlive hlive' hfresh =>
    exact hs.of_execution he rfl rfl hlive (.inl rfl) hdistinct rfl rfl
  | launched hphase =>
    exact hs.of_execution he rfl rfl (by rw [Execution.done, hphase]) (.inl rfl) hdistinct rfl rfl
  | finalized ledger hledger hlive =>
    exact hs.of_execution he rfl rfl hlive (.inr ⟨rfl, rfl⟩) hdistinct rfl rfl

/-! ### Submissions -/

theorem Tracked.of_started {g revision : Nat} {call : Submit D} {record : RunRecord D} {ledger : Ledger D P}
    (hs : s.Tracked) (howned : s.Owned) (hlocked : s.Locked) (hcall : s.submits[i]? = some call)
    (hphase : call.phase = .profiling record g revision) :
    Tracked (submitEnd { s with
      ledger
      tasks := s.tasks.set record.runId s.executions.length
      executions := s.executions ++
        [({ request := call.request, context := call.context, graph := g, revision } : Execution)] }
      i call (.ok record) (some record.runId)) := by
  have hprofiles : call.Profiles record.runId g := ⟨record, revision, hphase, rfl⟩
  obtain ⟨hrequest, -, -, hfree⟩ := howned.profiled i call record.runId g hcall hprofiles
  have hopen : ∀ (j : Nat) phase, s.closes[j]? = some phase → phase.locks = false := by
    intro j phase hclose
    by_contra hheld
    rw [Bool.not_eq_false] at hheld
    have hsubmit : s.locks (.submit i) = true := by
      rw [Runtime.locks, hcall, any_some, hprofiles.locks]
    have hother : s.locks (.close j) = true := by rw [Runtime.locks, hclose, any_some, hheld]
    cases hlocked.unique hsubmit hother
  have hkept : ∀ {x : Nat} {e : Execution}, s.executions[x]? = some e → (s.executions ++
      [({ request := call.request, context := call.context, graph := g, revision } : Execution)])[x]? =
        some e := fun he => getElem?_append_singleton.mpr (.inl he)
  refine ⟨?_, ?_, ?_, ?_, ?_, ?_⟩
  · intro r t htask
    replace htask : (s.tasks.set record.runId s.executions.length).get? r = some t := htask
    rw [Dict.get?_set] at htask
    split at htask
    · rename_i hr
      cases htask
      exact ⟨_, getElem?_append_singleton.mpr (.inr ⟨rfl, rfl⟩), hrequest.trans hr.symm⟩
    · obtain ⟨e, he, hid⟩ := hs.task r t htask
      exact ⟨e, hkept he, hid⟩
  · intro t e he hlive
    rcases getElem?_append_singleton.mp he with hold | ⟨rfl, rfl⟩
    · exact (Dict.get?_set_ne _ _ (hfree t e hold)).trans (hs.live t e hold hlive)
    · show (s.tasks.set record.runId s.executions.length).get? call.request.runId = _
      rw [hrequest, Dict.get?_set_self]
  · intro k other t hother hwaits
    obtain ⟨e, he, hid⟩ := hs.gathering k other t hother hwaits
    exact ⟨e, hkept he, hid⟩
  · intro k other hother hsettles
    obtain ⟨t, e, he, hid, hdone⟩ := hs.settling k other hother hsettles
    exact ⟨t, e, hkept he, hid, hdone⟩
  · intro j tasks hclose
    cases hopen j _ hclose
  · intro j runs hclose
    cases hopen j _ hclose

theorem Tracked.of_submitMove [DecidableEq D] {call : Submit D} (hs : s.Tracked) (howned : s.Owned)
    (hlocked : s.Locked) (hcall : s.submits[i]? = some call) (h : SubmitMove env s i call s')
    : s'.Tracked := by
  cases h with
  | started g revision attempt record sequence payload ledger hphase happend =>
    exact hs.of_started howned hlocked hcall hphase
  | refused | entered | authorized | denied | unaccepted | found | unleased | leased | rolledBack
  | withdrawn | interrupted => exact hs.of_frame (.same rfl)

/-! ### Cancellations -/

theorem Tracked.set_cancel {call : Cancel} {phase : CancelPhase} (hs : s.Tracked)
    (hcall : s.cancels[k]? = some call) (hgathering : ∀ t, phase = .gathering t →
      ∃ e, s.executions[t]? = some e ∧ e.request.runId = call.runId)
    (hsettling : phase = .settling → ∃ (t : Nat) (e : Execution),
      s.executions[t]? = some e ∧ e.request.runId = call.runId ∧ e.done = true) :
    (s.setCancel k call phase).Tracked := by
  refine { hs with gathering := ?_, settling := ?_ }
  · intro x other t hother hphase
    rcases (getElem?_set_eq_some hcall).mp hother with ⟨-, rfl⟩ | ⟨-, hsame⟩
    · exact hgathering t hphase
    · exact hs.gathering x other t hsame hphase
  · intro x other hother hphase
    rcases (getElem?_set_eq_some hcall).mp hother with ⟨-, rfl⟩ | ⟨-, hsame⟩
    · exact hsettling hphase
    · exact hs.settling x other hsame hphase

theorem taskDone_iff {e : Execution} (he : s.executions[t]? = some e) :
    s.taskDone t = true ↔ e.done = true := by rw [taskDone, he, all_some]

theorem Tracked.of_cancelMove [DecidableEq D] {call : Cancel} (hs : s.Tracked) (howned : s.Owned)
    (hcall : s.cancels[k]? = some call) (h : CancelMove env s k call s') : s'.Tracked := by
  cases h with
  | moved phase ledger hledger hidle hsettling =>
    refine Tracked.set_cancel (s := { s with ledger }) (hs.of_frame (.same rfl)) hcall ?_ ?_
    · intro t hphase
      exact absurd hphase (hidle t)
    · intro hphase
      obtain ⟨t, hgathering, hdone⟩ := hsettling hphase
      obtain ⟨e, he, hid⟩ := hs.gathering k call t hcall hgathering
      exact ⟨t, e, he, hid, (taskDone_iff he).mp hdone⟩
  | asked t ledger hledger htask =>
    have hsame : TrackFrame s (cancelTasks { s with ledger } [t]) :=
      ⟨rfl, idle_cancelTasks s [t], .refl _, .refl _⟩
    refine (hs.of_frame hsame).set_cancel hcall ?_ nofun
    intro x hphase
    cases hphase
    exact (hs.of_frame hsame).task call.runId t htask
  | settled ledger hphase hledger =>
    refine Tracked.set_cancel (s := { s with ledger := ledger, tasks := s.tasks.pop call.runId }) ?_ hcall
      (fun t h => by cases h) nofun
    refine { hs with task := ?_, live := ?_ }
    · intro r t htask
      replace htask : (s.tasks.pop call.runId).get? r = some t := htask
      rw [Dict.get?_pop] at htask
      split at htask
      · cases htask
      · exact hs.task r t htask
    · intro t e he hlive
      refine (Dict.get?_pop_ne _ fun hid => ?_).trans (hs.live t e he hlive)
      obtain ⟨x, other, hother, hidx, hdone⟩ := hs.settling k call hcall hphase
      obtain rfl := howned.distinct t x e other he hother (hid.trans hidx.symm)
      cases he.symm.trans hother
      simp [hdone] at hlive
  | passed t hphase =>
    have hsame : TrackFrame s (s.cancelTasks [t]) := ⟨rfl, idle_cancelTasks s [t], .refl _, .refl _⟩
    exact (hs.of_frame hsame).set_cancel hcall (fun t h => by cases h) nofun

/-! ### Closing the runtime -/

theorem Tracked.set_close {phase phase' : ClosePhase} (hs : s.Tracked) (hphase : s.closes[j]? = some phase)
    (hawaited : ∀ tasks, phase' = .gathering tasks →
      ∀ (t : Nat) e, s.executions[t]? = some e → e.done = false → t ∈ tasks)
    (hstopped : ∀ runs, phase' = .leftovers runs →
      ∀ (t : Nat) e, s.executions[t]? = some e → e.done = true) : (s.setClose j phase').Tracked := by
  refine { hs with awaited := ?_, stopped := ?_ }
  · intro x tasks hx
    rcases (getElem?_set_eq_some hphase).mp hx with ⟨-, heq⟩ | ⟨-, hsame⟩
    · exact hawaited tasks heq
    · exact hs.awaited x tasks hsame
  · intro x runs hx
    rcases (getElem?_set_eq_some hphase).mp hx with ⟨-, heq⟩ | ⟨-, hsame⟩
    · exact hstopped runs heq
    · exact hs.stopped x runs hsame

theorem Tracked.leave_close {phase phase' : ClosePhase} (hs : s.Tracked)
    (hphase : s.closes[j]? = some phase) (hpast : ∀ tasks, phase' ≠ .gathering tasks)
    (hpast' : ∀ runs, phase' ≠ .leftovers runs) : (s.setClose j phase').Tracked :=
  hs.set_close hphase (fun tasks h => absurd h (hpast tasks)) fun runs h => absurd h (hpast' runs)

theorem Tracked.closeGraphs {phase : ClosePhase} (hs : s.Tracked) (hphase : s.closes[j]? = some phase)
    (graphs : List Nat) : (s.closeGraphs j graphs).Tracked := by
  cases graphs with
  | nil =>
    exact Tracked.leave_close (s := { s with activeGraph := none, retiredGraphs := .empty })
      (hs.of_frame (.same rfl)) hphase (by simp) (by simp)
  | cons g rest =>
    exact Tracked.leave_close (s := s.beginClose g) (hs.of_frame (.same rfl)) hphase (by simp) (by simp)

theorem Tracked.of_closeMove [DecidableEq D] {phase : ClosePhase} (hs : s.Tracked)
    (hphase : s.closes[j]? = some phase) (h : CloseMove env s j phase s') : s'.Tracked := by
  cases h with
  | rejected hwaiting => exact hs.leave_close hphase (by simp) (by simp)
  | entered hwaiting hfree hopen =>
    have hsame : TrackFrame s (cancelTasks
        { s with lifecycle := some (.close j), closing := true } s.tasks.values) :=
      ⟨rfl, idle_cancelTasks s _, .refl _, .refl _⟩
    refine (hs.of_frame hsame).set_close hphase ?_ fun runs h => by cases h
    intro tasks htasks t e he hlive
    cases htasks
    exact Dict.mem_values_of_get? ((hs.of_frame hsame).live t e he hlive)
  | gathered tasks hgathering hdone =>
    subst hgathering
    refine hs.set_close hphase (nofun) ?_
    intro runs _ t e he
    by_contra hlive
    rw [Bool.not_eq_true] at hlive
    have hmem := hs.awaited j tasks hphase t e he hlive
    have htask := (taskDone_iff he).mp (List.all_eq_true.mp hdone t hmem)
    simp [hlive] at htask
  | interrupted runId rest ledger hleftovers hledger =>
    subst hleftovers
    refine Tracked.set_close (s := { s with ledger }) (hs.of_frame (.same rfl)) hphase (nofun) ?_
    intro runs _
    exact hs.stopped j (runId :: rest) hphase
  | raised runId rest hleftovers =>
    exact Tracked.leave_close (s := { s with lifecycle := none }) (hs.of_frame (.same rfl)) hphase (by simp)
      (by simp)
  | snapshot hleftovers =>
    subst hleftovers
    refine Tracked.closeGraphs (s := { s with tasks := .empty }) ?_ hphase _
    refine { hs with task := ?_, live := ?_ }
    · exact nofun
    · intro t e he hlive
      rw [hs.stopped j [] hphase t e he] at hlive
      cases hlive
  | next c rest hclosing hcloser => exact hs.closeGraphs hphase rest
  | failed c rest hclosing hcloser =>
    exact Tracked.leave_close (s := { s with lifecycle := none }) (hs.of_frame (.same rfl)) hphase (by simp)
      (by simp)
  | finished hmodules =>
    exact Tracked.leave_close (s := { s with started := false, lifecycle := none }) (hs.of_frame (.same rfl))
      hphase (by simp) (by simp)
  | ungathered tasks hgathering =>
    have hsame : TrackFrame s (cancelTasks { s with lifecycle := none } tasks) :=
      ⟨rfl, idle_cancelTasks s _, .refl _, .refl _⟩
    exact (hs.of_frame hsame).leave_close hphase (by simp) (by simp)
  | aborted hinner =>
    exact Tracked.leave_close (s := { s with lifecycle := none }) (hs.of_frame (.same rfl)) hphase (by simp)
      (by simp)

/-! ### The other steps -/

theorem spawnMove_trackFrame [DecidableEq D] {n : Nat} {call : Spawn D} {x : SpawnAction D P}
    (h : SpawnMove env s n call x s') : TrackFrame s s' := by
  cases h with
  | interruptedSubmit i submitted hphase hsubmit =>
    obtain ⟨⟨submits, rfl⟩, -⟩ := idle_submitInterrupt hsubmit
    exact .same rfl
  | interruptedGathering child t hx hphase => exact ⟨rfl, idle_cancelTasks s [t], .refl _, .refl _⟩
  | asked child t ledger hphase hledger htask => exact ⟨rfl, idle_cancelTasks s [t], .refl _, .refl _⟩
  | submitted | denied | cut | admitted | refused | linked | unlinked | returned | lost
  | interruptedEarly | interruptedLinking | interruptedWaiting | interruptedHandler | unrequested
  | untracked | gathered | settled | unsettled => exact .same rfl

theorem startFail_trackFrame (h : TrackFrame s s') :
    TrackFrame s (s'.startFail i) := by
  rcases startFail_cases s' i with ⟨g, -, heq⟩ | ⟨-, heq⟩ <;> rw [heq] <;>
    exact ⟨h.tasks, h.executions, h.cancels, h.closes⟩

theorem startMove_trackFrame [DecidableEq D] {phase : StartPhase} (h : StartMove env s i phase s')
    : TrackFrame s s' := by
  cases h with
  | unrecovered | unprepared | raised => exact startFail_trackFrame (.same rfl)
  | rejected | began | prepared | done | closed | aborted => exact .same rfl

theorem reconfigureMove_trackFrame {call : Reconfigure} (h : ReconfigureMove s k call s')
    : TrackFrame s s' := by
  cases h with
  | forced g old hphase => exact ⟨rfl, idle_cancelTasks s _, .refl _, .refl _⟩
  | ungathered g old tasks hphase => exact ⟨rfl, idle_cancelTasks s _, .refl _, .refl _⟩
  | rejected | checked | began | unprepared | losing | swapped | lost | undrained | drained | gathered
  | emptied | closed | abandoned | aborted => exact .same rfl

theorem callStep_trackFrame (s : Runtime D P) (a : CallAction) : TrackFrame s (s.callStep a) := by
  cases a with
  | cancel runId context reserve =>
    refine ⟨rfl, .refl _, .push ?_ s.cancels, .refl _⟩
    cases reserve <;> exact ⟨by simp, by simp⟩
  | close => exact ⟨rfl, .refl _, .refl _, .push (by rfl) s.closes⟩
  | submit | start | reconfigure | spawn => exact .same rfl

theorem tracked_step [DecidableEq D] {a : Action D P} (hs : s.Tracked) (howned : s.Owned)
    (hlocked : s.Locked) (h : s.step env a = some s') :
    s'.Tracked := by
  cases a with
  | call a =>
    cases h
    exact hs.of_frame (callStep_trackFrame s a)
  | submit i a =>
    obtain ⟨call, hcall, hmove⟩ := submitStep_moves h
    exact hs.of_submitMove howned hlocked hcall hmove
  | execution t a =>
    obtain ⟨e, he, hmove⟩ := executionStep_moves h
    exact hs.of_executionMove howned he hmove
  | cancel k a =>
    obtain ⟨call, hcall, hmove⟩ := cancelStep_moves h
    exact hs.of_cancelMove howned hcall hmove
  | prepare g a =>
    obtain ⟨graph, -, hmove⟩ := prepareStep_moves h
    cases hmove <;> exact hs.of_frame (.same rfl)
  | closer c a =>
    obtain ⟨closer, -, hmove⟩ := closingStep_moves h
    cases hmove <;> exact hs.of_frame (.same rfl)
  | start i a =>
    obtain ⟨phase, -, hmove⟩ := startStep_moves h
    exact hs.of_frame (startMove_trackFrame hmove)
  | reconfigure k a =>
    obtain ⟨call, -, hmove⟩ := reconfigureStep_moves h
    exact hs.of_frame (reconfigureMove_trackFrame hmove)
  | close j a =>
    obtain ⟨phase, hphase, hmove⟩ := closeStep_moves h
    exact hs.of_closeMove hphase hmove
  | spawn n a =>
    obtain ⟨call, -, hmove⟩ := spawnStep_moves h
    exact hs.of_frame (spawnMove_trackFrame hmove)
  | host a =>
    cases h
    cases a <;> exact hs.of_frame (.same rfl)

end Runtime

end OpenAgent
