import OpenAgent.Runtime.System
import OpenAgent.Storage.Admission

/-!
# What one step can do

The steps of submissions and of execution tasks, read backwards: from a step that was taken, where
the coroutine was and the state it left. Invariants are proved by cases on these, so no later proof
opens a step.
-/

namespace OpenAgent

open Lib

variable {D P : Type} [DecidableEq D]

namespace Runtime

/-- What a step of the submission `i`, which is `call`, makes of a runtime. -/
inductive SubmitMove (env : Environment D) (s : Runtime D P) (i : Nat) (call : Submit D) :
    Runtime D P → Prop
  | refused (error : Failure) (hphase : call.phase = .waiting) (hfree : s.lifecycle = none) :
      SubmitMove env s i call (s.submitEnd i call (.error error) none)
  | entered (g : Nat) (hphase : call.phase = .waiting) (hfree : s.lifecycle = none)
      (hactive : s.activeGraph = some g) :
      SubmitMove env s i call { s with
        lifecycle := some (.submit i)
        submits := s.submits.set i { call with phase := .authorizing g } }
  | authorized (g : Nat) (hphase : call.phase = .authorizing g) :
      SubmitMove env s i call { s with submits := s.submits.set i { call with phase := .accepting g } }
  | denied (g : Nat) (error : Failure) (hphase : call.phase = .authorizing g) :
      SubmitMove env s i call (s.submitEnd i call (.error error) none)
  | unaccepted (g : Nat) (error : StoreError) (hphase : call.phase = .accepting g) :
      SubmitMove env s i call (s.submitEnd i call (.error (.store error)) none)
  | found (g : Nat) (attempt : Attempt D P) (record : RunRecord D) (ledger : Ledger D P)
      (hphase : call.phase = .accepting g)
      (haccept : Store.accept (attempt.host env) call.request call.context attempt.moment.now s.ledger =
        .ok ((record, false), ledger)) :
      SubmitMove env s i call (submitEnd { s with ledger } i call (.ok record) none)
  | unleased (g : Nat) (attempt : Attempt D P) (record : RunRecord D) (ledger : Ledger D P) (error : Failure)
      (hphase : call.phase = .accepting g)
      (haccept : Store.accept (attempt.host env) call.request call.context attempt.moment.now s.ledger =
        .ok ((record, true), ledger))
      (hdraining : s.graphs[g]?.bind Graph.acquire = none) :
      SubmitMove env s i call (submitEnd { s with ledger } i call (.error error) (some record.runId))
  | leased (g : Nat) (attempt : Attempt D P) (record : RunRecord D) (ledger : Ledger D P) (graph : Graph)
      (revision : Nat) (hphase : call.phase = .accepting g)
      (haccept : Store.accept (attempt.host env) call.request call.context attempt.moment.now s.ledger =
        .ok ((record, true), ledger))
      (hacquire : s.graphs[g]?.bind Graph.acquire = some graph) :
      SubmitMove env s i call { s with
        ledger
        graphs := s.graphs.set g graph
        runGraphs := s.runGraphs.set record.runId g
        runCapabilityRevisions := s.runCapabilityRevisions.set record.runId revision
        submits := s.submits.set i { call with phase := .profiling record g revision } }
  | started (g revision : Nat) (attempt : Attempt D P) (record : RunRecord D) (sequence : Nat)
      (payload : Json) (ledger : Ledger D P) (hphase : call.phase = .profiling record g revision)
      (happend : Store.appendEvent (attempt.host env) record.runId "run.profile" payload s.ledger =
        .ok (sequence, ledger)) :
      SubmitMove env s i call (submitEnd { s with
        ledger
        tasks := s.tasks.set record.runId s.executions.length
        executions := s.executions ++
          [({ request := call.request, context := call.context, graph := g, revision } : Execution)] }
        i call (.ok record) (some record.runId))
  | rolledBack (g revision : Nat) (record : RunRecord D) (error : StoreError)
      (hphase : call.phase = .profiling record g revision) :
      SubmitMove env s i call (submitEnd { s with
        runGraphs := s.runGraphs.pop record.runId
        runCapabilityRevisions := s.runCapabilityRevisions.pop record.runId
        graphs := s.graphs.modify g Graph.release } i call (.error (.store error)) (some record.runId))
  | withdrawn (hphase : call.phase = .waiting) :
      SubmitMove env s i call { s with
        submits := s.submits.set i { call with
          phase := .ended (.error .cancelled) none
          interrupted := true } }
  | interrupted (hpending : ∀ outcome created, call.phase ≠ .ended outcome created) :
      SubmitMove env s i call { s with submits := s.submits.set i { call with interrupted := true } }

variable {env : Environment D} {s s' : Runtime D P} {i t : Nat}

theorem submitEnter_moves (h : s.submitEnter i = some s')
    : ∃ call, s.submits[i]? = some call ∧ SubmitMove env s i call s' := by
  unfold submitEnter at h
  split at h
  · cases h
  rename_i call hcall
  refine ⟨call, hcall, ?_⟩
  split at h
  · rename_i hphase
    split at h
    · cases h
    rename_i hfree
    rw [ne_eq, not_not] at hfree
    split at h
    · cases h
      exact .refused _ hphase hfree
    split at h
    · cases h
      exact .refused _ hphase hfree
    rename_i g hactive
    split at h
    · cases h
      exact .refused _ hphase hfree
    · cases h
      exact .entered g hphase hfree hactive
  · cases h

theorem submitAuthorized_moves {failure : Option Failure} (h : s.submitAuthorized i failure = some s') :
    ∃ call, s.submits[i]? = some call ∧ SubmitMove env s i call s' := by
  unfold submitAuthorized at h
  split at h
  · cases h
  rename_i call hcall
  refine ⟨call, hcall, ?_⟩
  split at h
  · rename_i g hphase
    cases h
    exact .authorized g hphase
  · rename_i g error hphase
    cases h
    exact .denied g error hphase
  · cases h

variable {attempt : Attempt D P}

theorem submitAccept_moves (h : s.submitAccept env i attempt = some s') :
    ∃ call, s.submits[i]? = some call ∧ SubmitMove env s i call s' := by
  unfold submitAccept at h
  split at h
  · cases h
  rename_i call hcall
  refine ⟨call, hcall, ?_⟩
  split at h
  · rename_i g hphase
    split at h
    · rename_i error ledger hraised
      obtain rfl := Store.transaction_error hraised
      cases h
      exact .unaccepted g error hphase
    · rename_i record ledger haccept
      cases h
      exact .found g attempt record ledger hphase (Store.transaction_ok haccept)
    · rename_i record ledger haccept
      replace haccept := Store.transaction_ok haccept
      split at h
      · rename_i hdraining
        cases h
        exact .unleased g attempt record ledger _ hphase haccept hdraining
      · rename_i graph hacquire
        cases h
        exact .leased g attempt record ledger graph _ hphase haccept hacquire
  · cases h

theorem submitProfile_moves (h : s.submitProfile env i attempt = some s') :
    ∃ call, s.submits[i]? = some call ∧ SubmitMove env s i call s' := by
  unfold submitProfile at h
  split at h
  · cases h
  rename_i call hcall
  refine ⟨call, hcall, ?_⟩
  split at h
  · rename_i record g revision hphase
    dsimp only at h
    split at h
    · rename_i sequence ledger happend
      cases h
      exact .started g revision attempt record sequence _ ledger hphase (Store.transaction_ok happend)
    · rename_i error ledger hraised
      obtain rfl := Store.transaction_error hraised
      cases h
      exact .rolledBack g revision record error hphase
  · cases h

theorem submitInterrupt_moves (h : s.submitInterrupt i = some s') :
    ∃ call, s.submits[i]? = some call ∧ SubmitMove env s i call s' := by
  unfold submitInterrupt at h
  split at h
  · cases h
  rename_i call hcall
  refine ⟨call, hcall, ?_⟩
  split at h
  · rename_i hphase
    cases h
    exact .withdrawn hphase
  · cases h
  · rename_i hpending
    cases h
    exact .interrupted hpending

theorem submitStep_moves {a : SubmitAction D P} (h : s.submitStep env i a = some s') :
    ∃ call, s.submits[i]? = some call ∧ SubmitMove env s i call s' := by
  cases a with
  | enter => exact submitEnter_moves h
  | authorized failure => exact submitAuthorized_moves h
  | accept attempt => exact submitAccept_moves h
  | profile attempt => exact submitProfile_moves h
  | interrupt => exact submitInterrupt_moves h

/-! ### Execution tasks -/

/-- What a step of the task `t`, which is `e`, makes of a runtime. -/
inductive ExecutionMove (env : Environment D) (s : Runtime D P) (t : Nat) (e : Execution) :
    Runtime D P → Prop
  | dropped (hphase : e.phase = .created) (hcancelled : e.cancelled = true) :
      ExecutionMove env s t e (s.setPhase t e (.ended true))
  | moved (phase : Phase) (cancelled : Bool) (ledger : Ledger D P)
      (hledger : Store.Reaches env.fingerprint s.ledger ledger) (hlive : e.done = false)
      (hlive' : ({ e with phase, cancelled } : Execution).done = false)
      (hfresh : ({ e with phase, cancelled } : Execution).fresh = true → e.fresh = true) :
      ExecutionMove env s t e { s with
        ledger
        executions := s.executions.set t { e with phase, cancelled } }
  | launched (hphase : e.phase = .claimed) :
      ExecutionMove env s t e { setPhase s t e .executing with
        executed := s.executed ++ [e.request.runId] }
  | finalized (ledger : Ledger D P) (hledger : Store.Reaches env.fingerprint s.ledger ledger)
      (hlive : e.done = false) :
      ExecutionMove env s t e (finalize { s with ledger } t e)

namespace ExecutionMove

variable {env : Environment D} {s : Runtime D P} {t : Nat} {e : Execution}

theorem of_phase (phase : Phase) (hlive : e.done = false)
    (hlive' : ({ e with phase } : Execution).done = false)
    (hfresh : ({ e with phase } : Execution).fresh = true → e.fresh = true) :
    ExecutionMove env s t e (s.setPhase t e phase) :=
  .moved phase e.cancelled s.ledger .refl hlive hlive' hfresh

theorem of_settling (status : RunStatus) (output : Option Json) (handler : Bool)
    (hlive : e.done = false) : ExecutionMove env s t e (s.setPhase t e (.settling status output handler)) :=
  of_phase _ hlive rfl nofun

theorem of_tellCancelled {ledger : Ledger D P} (hledger : Store.Reaches env.fingerprint s.ledger ledger)
    (hlive : e.done = false) : ExecutionMove env s t e (tellCancelled { s with ledger } t e) :=
  .moved _ false ledger hledger hlive rfl nofun

end ExecutionMove

theorem done_of_phase {e : Execution} (h : ∀ dropped, e.phase ≠ .ended dropped) : e.done = false := by
  unfold Execution.done
  split
  · rename_i dropped hphase
    exact absurd hphase (h dropped)
  · rfl

theorem done_of_inBody {e : Execution} (h : e.inBody = true) : e.done = false := by
  apply done_of_phase
  intro dropped hphase
  simp [Execution.inBody, hphase] at h

theorem executionEnter_moves (h : s.executionEnter t = some s') :
    ∃ e, s.executions[t]? = some e ∧ ExecutionMove env s t e s' := by
  unfold executionEnter at h
  split at h
  · cases h
  rename_i e he
  refine ⟨e, he, ?_⟩
  split at h
  · rename_i hphase
    cases h
    split
    · rename_i hcancelled
      exact .dropped hphase hcancelled
    · exact .of_phase _ (done_of_phase (by simp [hphase])) rfl (by simp [Execution.fresh, hphase])
  · cases h

theorem executionAdvance_moves (h : s.executionAdvance t = some s') :
    ∃ e, s.executions[t]? = some e ∧ ExecutionMove env s t e s' := by
  unfold executionAdvance at h
  split at h
  · cases h
  rename_i e he
  refine ⟨e, he, ?_⟩
  split at h
  · rename_i hphase
    cases h
    exact .of_phase _ (done_of_phase (by simp [hphase])) rfl (by simp [Execution.fresh, hphase])
  · cases h

variable {diagnostic : Option Json}

theorem executionRead_moves (h : s.executionRead t diagnostic = some s') :
    ∃ e, s.executions[t]? = some e ∧ ExecutionMove env s t e s' := by
  unfold executionRead at h
  split at h
  · cases h
  rename_i e he
  refine ⟨e, he, ?_⟩
  split at h
  · rename_i hphase
    have hlive := done_of_phase (e := e) (by simp [hphase])
    split at h
    · cases h
      split
      · exact .of_settling _ _ _ hlive
      · exact .of_phase _ hlive rfl (by simp [Execution.fresh, hphase])
    · cases h
      exact .of_settling _ _ _ hlive
  · cases h

theorem executionClaim_moves
    (h : s.executionClaim env t attempt diagnostic = some s') :
    ∃ e, s.executions[t]? = some e ∧ ExecutionMove env s t e s' := by
  unfold executionClaim at h
  split at h
  · cases h
  rename_i e he
  refine ⟨e, he, ?_⟩
  split at h
  · rename_i hphase
    have hlive := done_of_phase (e := e) (by simp [hphase])
    have hledger : Store.Reaches env.fingerprint s.ledger (Store.transaction attempt.moment
        (Store.transition (attempt.host env) e.request.runId .running none attempt.moment.now)
        s.ledger).2 := Store.transaction_reaches fun _ _ => .transition
    dsimp only at h
    split at h
    · cases h
      exact .of_tellCancelled hledger hlive
    split at h
    · cases h
      exact .moved _ e.cancelled _ hledger hlive rfl (by simp [Execution.fresh, hphase])
    · cases h
      exact .moved _ e.cancelled _ hledger hlive rfl (by simp [Execution.fresh])
  · cases h

theorem executionLaunch_moves (h : s.executionLaunch t = some s') :
    ∃ e, s.executions[t]? = some e ∧ ExecutionMove env s t e s' := by
  unfold executionLaunch at h
  split at h
  · cases h
  rename_i e he
  refine ⟨e, he, ?_⟩
  split at h
  · rename_i hphase
    cases h
    exact .launched hphase
  · cases h

theorem executionReturn_moves {output : Option Json} (h : s.executionReturn t output = some s') :
    ∃ e, s.executions[t]? = some e ∧ ExecutionMove env s t e s' := by
  unfold executionReturn at h
  split at h
  · cases h
  rename_i e he
  refine ⟨e, he, ?_⟩
  split at h
  · rename_i hphase
    cases h
    exact .of_phase _ (done_of_phase (by simp [hphase])) rfl (by simp [Execution.fresh])
  · cases h

theorem executionAbsorb_moves (h : s.executionAbsorb t = some s') :
    ∃ e, s.executions[t]? = some e ∧ ExecutionMove env s t e s' := by
  unfold executionAbsorb at h
  split at h
  · cases h
  rename_i e he
  refine ⟨e, he, ?_⟩
  split at h
  · rename_i hphase
    have hlive := done_of_phase (e := e) (by simp [hphase])
    cases h
    exact .moved e.phase false s.ledger .refl hlive hlive id
  · cases h

theorem executionPublish_moves (h : s.executionPublish t diagnostic = some s') :
    ∃ e, s.executions[t]? = some e ∧ ExecutionMove env s t e s' := by
  unfold executionPublish at h
  split at h
  · cases h
  rename_i e he
  refine ⟨e, he, ?_⟩
  split at h
  · rename_i output hphase
    have hlive := done_of_phase (e := e) (by simp [hphase])
    split at h
    · cases h
      split
      · exact .of_settling _ _ _ hlive
      · exact .of_settling _ _ _ hlive
    · cases h
      exact .of_settling _ _ _ hlive
  · cases h

theorem executionSettle_moves
    (h : s.executionSettle env t attempt diagnostic = some s') :
    ∃ e, s.executions[t]? = some e ∧ ExecutionMove env s t e s' := by
  unfold executionSettle at h
  split at h
  · cases h
  rename_i e he
  refine ⟨e, he, ?_⟩
  split at h
  · rename_i status output handler hphase
    have hlive := done_of_phase (e := e) (by simp [hphase])
    have hledger : Store.Reaches env.fingerprint s.ledger (Store.transaction attempt.moment
        (Store.transition (attempt.host env) e.request.runId status output attempt.moment.now)
        s.ledger).2 := Store.transaction_reaches fun _ _ => .transition
    dsimp only at h
    split at h
    · cases h
      exact .finalized _ hledger hlive
    split at h
    · cases h
      exact .of_tellCancelled hledger hlive
    split at h
    · cases h
      exact .finalized _ hledger hlive
    · cases h
      exact .moved _ e.cancelled _ hledger hlive rfl (by simp [Execution.fresh])
  · cases h

theorem executionRaise_moves (h : s.executionRaise t diagnostic = some s') :
    ∃ e, s.executions[t]? = some e ∧ ExecutionMove env s t e s' := by
  unfold executionRaise at h
  split at h
  · cases h
  rename_i e he
  refine ⟨e, he, ?_⟩
  split at h
  · rename_i hbody
    cases h
    exact .of_settling _ _ _ (done_of_inBody hbody)
  · cases h

theorem executionTimeout_moves (h : s.executionTimeout t = some s') :
    ∃ e, s.executions[t]? = some e ∧ ExecutionMove env s t e s' := by
  unfold executionTimeout at h
  split at h
  · cases h
  rename_i e he
  refine ⟨e, he, ?_⟩
  split at h
  · rename_i hbody
    cases h
    exact .of_settling _ _ _ (done_of_inBody hbody)
  · cases h

theorem executionCancelled_moves (h : s.executionCancelled t = some s') :
    ∃ e, s.executions[t]? = some e ∧ ExecutionMove env s t e s' := by
  unfold executionCancelled at h
  split at h
  · cases h
  rename_i e he
  refine ⟨e, he, ?_⟩
  split at h
  · split at h
    · cases h
    · cases h
    · rename_i status output hphase
      cases h
      exact .finalized s.ledger .refl (done_of_phase (by simp [hphase]))
    · rename_i hcreated hended hhandler
      cases h
      exact .of_tellCancelled .refl (done_of_phase hended)
  · cases h

theorem executionStep_moves {a : ExecutionAction D P} (h : s.executionStep env t a = some s') :
    ∃ e, s.executions[t]? = some e ∧ ExecutionMove env s t e s' := by
  cases a with
  | enter => exact executionEnter_moves h
  | advance => exact executionAdvance_moves h
  | read diagnostic => exact executionRead_moves h
  | claim attempt diagnostic => exact executionClaim_moves h
  | launch => exact executionLaunch_moves h
  | returns output => exact executionReturn_moves h
  | absorb => exact executionAbsorb_moves h
  | publish diagnostic => exact executionPublish_moves h
  | settle attempt diagnostic => exact executionSettle_moves h
  | raises diagnostic => exact executionRaise_moves h
  | timeout => exact executionTimeout_moves h
  | cancelled => exact executionCancelled_moves h

/-! ### Cancellations -/

/-- What a step of the cancellation `k`, which is `call`, makes of a runtime. -/
inductive CancelMove (env : Environment D) (s : Runtime D P) (k : Nat) (call : Cancel) :
    Runtime D P → Prop
  | moved (phase : CancelPhase) (ledger : Ledger D P)
      (hledger : Store.Reaches env.fingerprint s.ledger ledger) (hidle : ∀ t, phase ≠ .gathering t)
      (hsettling : phase = .settling → ∃ t, call.phase = .gathering t ∧ s.taskDone t = true) :
      CancelMove env s k call (setCancel { s with ledger } k call phase)
  | asked (t : Nat) (ledger : Ledger D P) (hledger : Store.Reaches env.fingerprint s.ledger ledger)
      (htask : s.tasks.get? call.runId = some t) :
      CancelMove env s k call (setCancel (cancelTasks { s with ledger } [t]) k call (.gathering t))
  | settled (ledger : Ledger D P) (hphase : call.phase = .settling)
      (hledger : Store.Reaches env.fingerprint s.ledger ledger) :
      CancelMove env s k call (setCancel { s with
        ledger := ledger
        tasks := s.tasks.pop call.runId } k call .ended)
  | passed (t : Nat) (hphase : call.phase = .gathering t) :
      CancelMove env s k call ((s.cancelTasks [t]).setCancel k call .ended)

theorem CancelMove.of_phase {k : Nat} {call : Cancel} (phase : CancelPhase)
    (hidle : ∀ t, phase ≠ .gathering t) (hsettling : phase ≠ .settling) :
    CancelMove env s k call (s.setCancel k call phase) :=
  .moved phase s.ledger .refl hidle fun h => absurd h hsettling

theorem cancelStep_moves {k : Nat} {a : CancelAction D P} (h : s.cancelStep env k a = some s') :
    ∃ call, s.cancels[k]? = some call ∧ CancelMove env s k call s' := by
  cases a with
  | look denied =>
    rw [cancelStep, cancelLook] at h
    split at h
    · cases h
    rename_i call hcall
    refine ⟨call, hcall, ?_⟩
    split at h
    · split at h
      · cases h
        split <;> exact .of_phase _ (by simp) (by simp)
      · cases h
        exact .of_phase _ (by simp) (by simp)
      · cases h
        exact .of_phase _ (by simp) (by simp)
    · cases h
  | reserve attempt =>
    rw [cancelStep, cancelReserve] at h
    split at h
    · cases h
    rename_i call hcall
    refine ⟨call, hcall, ?_⟩
    split at h
    · split at h
      · rename_i record ledger hok
        have hledger : Store.Reaches env.fingerprint s.ledger ledger :=
          .single (.reserveCancel (Store.transaction_ok hok))
        cases h
        split <;> exact .moved _ ledger hledger (by simp) (by simp)
      · rename_i error ledger hraised
        obtain rfl := Store.transaction_error hraised
        cases h
        exact .of_phase _ (by simp) (by simp)
    · cases h
  | read denied =>
    rw [cancelStep, cancelRead] at h
    split at h
    · cases h
    rename_i call hcall
    refine ⟨call, hcall, ?_⟩
    split at h
    · split at h
      · cases h
        split <;> exact .of_phase _ (by simp) (by simp)
      · cases h
        exact .of_phase _ (by simp) (by simp)
    · cases h
  | request attempt =>
    rw [cancelStep, cancelRequest] at h
    split at h
    · cases h
    rename_i call hcall
    refine ⟨call, hcall, ?_⟩
    split at h
    · split at h
      · rename_i error ledger hraised
        obtain rfl := Store.transaction_error hraised
        cases h
        exact .of_phase _ (by simp) (by simp)
      · rename_i record ledger hok
        have hledger : Store.Reaches env.fingerprint s.ledger ledger :=
          .single (.requestCancel (Store.transaction_ok hok))
        split at h
        · cases h
          exact .moved _ ledger hledger (by simp) (by simp)
        · rename_i t htask
          cases h
          exact .asked t ledger hledger (Option.filter_eq_some_iff.mp htask).1
    · cases h
  | gathered =>
    rw [cancelStep, cancelGathered] at h
    split at h
    · cases h
    rename_i call hcall
    refine ⟨call, hcall, ?_⟩
    split at h
    · rename_i t hphase
      split at h
      · rename_i hdone
        cases h
        exact .moved .settling s.ledger .refl (by simp) fun _ => ⟨t, hphase, hdone⟩
      · cases h
    · cases h
  | settle attempt =>
    rw [cancelStep, cancelSettle] at h
    split at h
    · cases h
    rename_i call hcall
    refine ⟨call, hcall, ?_⟩
    split at h
    · rename_i hphase
      split at h
      · rename_i record ledger hok
        cases h
        exact .settled ledger hphase (.single (.transition (Store.transaction_ok hok)))
      · rename_i error ledger hraised
        obtain rfl := Store.transaction_error hraised
        cases h
        exact .of_phase _ (by simp) (by simp)
    · cases h
  | abort =>
    rw [cancelStep, cancelAbort] at h
    split at h
    · cases h
    rename_i call hcall
    refine ⟨call, hcall, ?_⟩
    split at h
    · cases h
    · rename_i t hphase
      cases h
      exact .passed t hphase
    · cases h
      exact .of_phase _ (by simp) (by simp)

/-! ### Child runs -/

/-- What the step `x` of the spawn `n`, which is `call`, makes of a runtime. -/
inductive SpawnMove (env : Environment D) (s : Runtime D P) (n : Nat) (call : Spawn D)
    (x : SpawnAction D P) : Runtime D P → Prop
  | submitted (hphase : call.phase = .authorizing) :
      SpawnMove env s n call x
        ((s.submitCall call.request call.context).setSpawn n call (.submitting s.submits.length))
  | denied (error : Failure) (hphase : call.phase = .authorizing) :
      SpawnMove env s n call x (s.setSpawn n call (.raised error none))
  | cut (i : Nat) (submit : Submit D) (outcome : Except Failure (RunRecord D)) (created : Option String)
      (hx : x = .admitted) (hphase : call.phase = .submitting i) (hsubmit : s.submits[i]? = some submit)
      (hended : submit.phase = .ended outcome created) (hinterrupted : submit.interrupted = true) :
      SpawnMove env s n call x (s.setSpawn n call (.raised .cancelled (admittedRun outcome created)))
  | admitted (i : Nat) (submit : Submit D) (record : RunRecord D) (created : Option String)
      (hphase : call.phase = .submitting i) (hsubmit : s.submits[i]? = some submit)
      (hended : submit.phase = .ended (.ok record) created) (hcalm : submit.interrupted = false) :
      SpawnMove env s n call x (s.setSpawn n call (.linking record))
  | refused (i : Nat) (submit : Submit D) (error : Failure) (created : Option String)
      (hphase : call.phase = .submitting i) (hsubmit : s.submits[i]? = some submit)
      (hended : submit.phase = .ended (.error error) created) (hcalm : submit.interrupted = false) :
      SpawnMove env s n call x (s.setSpawn n call (.raised error created))
  | linked (child : RunRecord D) (ledger : Ledger D P) (hphase : call.phase = .linking child)
      (hledger : Store.Reaches env.fingerprint s.ledger ledger) :
      SpawnMove env s n call x (setSpawn { s with ledger } n call (.waiting child))
  | unlinked (child : RunRecord D) (error : StoreError) (hphase : call.phase = .linking child) :
      SpawnMove env s n call x (s.setSpawn n call (.raised (.store error) (some child.runId)))
  | returned (child record : RunRecord D) (hphase : call.phase = .waiting child) :
      SpawnMove env s n call x (s.setSpawn n call (.returned record))
  | lost (child : RunRecord D) (error : Failure) (hphase : call.phase = .waiting child)
      (herror : error ≠ .cancelled) :
      SpawnMove env s n call x (s.setSpawn n call (.raised error (some child.runId)))
  | interruptedEarly (hphase : call.phase = .authorizing) :
      SpawnMove env s n call x (s.setSpawn n { call with interrupted := true } (.raised .cancelled none))
  | interruptedSubmit (i : Nat) (submitted : Runtime D P) (hphase : call.phase = .submitting i)
      (hsubmit : s.submitInterrupt i = some submitted) :
      SpawnMove env s n call x (submitted.setSpawn n { call with interrupted := true } (.submitting i))
  | interruptedLinking (child : RunRecord D) (hx : x = .interrupt) (hphase : call.phase = .linking child) :
      SpawnMove env s n call x (s.setSpawn n { call with interrupted := true }
        (.raised .cancelled (some child.runId)))
  | interruptedWaiting (child : RunRecord D) (hphase : call.phase = .waiting child) :
      SpawnMove env s n call x (s.setSpawn n { call with interrupted := true } (.requesting child))
  | interruptedGathering (child : RunRecord D) (t : Nat) (hx : x = .interrupt)
      (hphase : call.phase = .gathering child t) :
      SpawnMove env s n call x ((s.cancelTasks [t]).setSpawn n { call with interrupted := true }
        (.raised .cancelled (some child.runId)))
  | interruptedHandler (child : RunRecord D) (hx : x = .interrupt)
      (hphase : call.phase = .requesting child ∨ call.phase = .settling child) :
      SpawnMove env s n call x (s.setSpawn n { call with interrupted := true }
        (.raised .cancelled (some child.runId)))
  | unrequested (child : RunRecord D) (error : StoreError) (attempt : Attempt D P)
      (hx : x = .request attempt) (hphase : call.phase = .requesting child)
      (hrefused : (Store.transaction attempt.moment (Store.requestCancel (attempt.host env) child.runId)
        s.ledger).1 = .error error) :
      SpawnMove env s n call x (s.setSpawn n call (.raised (.store error) (some child.runId)))
  | untracked (child : RunRecord D) (ledger : Ledger D P) (hphase : call.phase = .requesting child)
      (hledger : Store.Reaches env.fingerprint s.ledger ledger)
      (htask : s.tasks.get? child.runId = none) :
      SpawnMove env s n call x (setSpawn { s with ledger } n call (.settling child))
  | asked (child : RunRecord D) (t : Nat) (ledger : Ledger D P)
      (hphase : call.phase = .requesting child)
      (hledger : Store.Reaches env.fingerprint s.ledger ledger)
      (htask : s.tasks.get? child.runId = some t) :
      SpawnMove env s n call x
        (setSpawn (cancelTasks { s with ledger } [t]) n call (.gathering child t))
  | gathered (child : RunRecord D) (t : Nat) (hphase : call.phase = .gathering child t)
      (hdone : s.taskDone t = true) : SpawnMove env s n call x (s.setSpawn n call (.settling child))
  | settled (child record : RunRecord D) (attempt : Attempt D P) (ledger : Ledger D P)
      (hphase : call.phase = .settling child)
      (htransition : Store.transition (attempt.host env) child.runId .cancelled none attempt.moment.now
        s.ledger = .ok (record, ledger)) :
      SpawnMove env s n call x (setSpawn { s with ledger } n call (.raised .cancelled (some child.runId)))
  | unsettled (child : RunRecord D) (error : StoreError) (attempt : Attempt D P)
      (hx : x = .settle attempt) (hphase : call.phase = .settling child)
      (hrefused : (Store.transaction attempt.moment (Store.transition (attempt.host env) child.runId
        .cancelled none attempt.moment.now) s.ledger).1 = .error error) :
      SpawnMove env s n call x (s.setSpawn n call (.raised (.store error) (some child.runId)))

theorem spawnInterrupt_moves {n : Nat} (h : s.spawnInterrupt n = some s') :
    ∃ call, s.spawns[n]? = some call ∧ SpawnMove env s n call .interrupt s' := by
  rw [spawnInterrupt] at h
  split at h
  · cases h
  rename_i call hcall
  refine ⟨call, hcall, ?_⟩
  dsimp only at h
  split at h
  · rename_i hphase
    cases h
    exact .interruptedEarly hphase
  · rename_i i hphase
    obtain ⟨submitted, hsubmit, rfl⟩ := Option.map_eq_some_iff.mp h
    exact .interruptedSubmit i submitted hphase hsubmit
  · rename_i child hphase
    cases h
    exact .interruptedLinking child rfl hphase
  · rename_i child hphase
    cases h
    exact .interruptedWaiting child hphase
  · rename_i child t hphase
    cases h
    exact .interruptedGathering child t rfl hphase
  · rename_i child hphase
    cases h
    exact .interruptedHandler child rfl (.inl hphase)
  · rename_i child hphase
    cases h
    exact .interruptedHandler child rfl (.inr hphase)
  · cases h
  · cases h

theorem spawnStep_moves {n : Nat} {a : SpawnAction D P} (h : s.spawnStep env n a = some s') :
    ∃ call, s.spawns[n]? = some call ∧ SpawnMove env s n call a s' := by
  cases a with
  | authorized failure =>
    rw [spawnStep, spawnAuthorized] at h
    split at h
    · cases h
    rename_i call hcall
    refine ⟨call, hcall, ?_⟩
    split at h
    · rename_i hphase
      cases h
      exact .submitted hphase
    · rename_i error hphase
      cases h
      exact .denied error hphase
    · cases h
  | admitted =>
    rw [spawnStep, spawnAdmitted] at h
    split at h
    · cases h
    rename_i call hcall
    refine ⟨call, hcall, ?_⟩
    split at h
    · rename_i i hphase
      split at h
      · cases h
      rename_i submit hsubmit
      split at h
      · rename_i outcome created hended
        split at h
        · rename_i hinterrupted
          cases h
          exact .cut i submit outcome created rfl hphase hsubmit hended hinterrupted
        rename_i hcalm
        rw [Bool.not_eq_true] at hcalm
        split at h
        · cases h
          exact .admitted i submit _ created hphase hsubmit hended hcalm
        · cases h
          exact .refused i submit _ created hphase hsubmit hended hcalm
      · cases h
    · cases h
  | link attempt =>
    rw [spawnStep, spawnLink] at h
    split at h
    · cases h
    rename_i call hcall
    refine ⟨call, hcall, ?_⟩
    split at h
    · rename_i child hphase
      split at h
      · rename_i sequence ledger hok
        cases h
        exact .linked child ledger hphase (.single (.appendEvent (Store.transaction_ok hok)))
      · rename_i error ledger hraised
        obtain rfl := Store.transaction_error hraised
        cases h
        exact .unlinked child error hphase
    · cases h
  | observe denied =>
    rw [spawnStep, spawnObserve] at h
    split at h
    · cases h
    rename_i call hcall
    refine ⟨call, hcall, ?_⟩
    split at h
    · rename_i child hphase
      split at h
      · rename_i record hrecord
        split at h
        · cases h
          exact .lost child .denied hphase (by simp)
        split at h
        · cases h
          exact .returned child record hphase
        · cases h
      · cases h
        exact .lost child .lookup hphase (by simp)
      · rename_i error hraised
        cases h
        exact .lost child (.store error) hphase (by simp)
    · cases h
  | interrupt => exact spawnInterrupt_moves h
  | request attempt =>
    rw [spawnStep, spawnRequest] at h
    split at h
    · cases h
    rename_i call hcall
    refine ⟨call, hcall, ?_⟩
    split at h
    · rename_i child hphase
      split at h
      · rename_i error ledger hraised
        obtain rfl := Store.transaction_error hraised
        cases h
        exact .unrequested child error attempt rfl hphase (congrArg Prod.fst hraised)
      · rename_i record ledger hok
        have hledger : Store.Reaches env.fingerprint s.ledger ledger :=
          .single (.requestCancel (Store.transaction_ok hok))
        split at h
        · rename_i htask
          cases h
          exact .untracked child ledger hphase hledger htask
        · rename_i t htask
          cases h
          exact .asked child t ledger hphase hledger htask
    · cases h
  | gathered =>
    rw [spawnStep, spawnGathered] at h
    split at h
    · cases h
    rename_i call hcall
    refine ⟨call, hcall, ?_⟩
    split at h
    · rename_i child t hphase
      split at h
      · rename_i hdone
        cases h
        exact .gathered child t hphase hdone
      · cases h
    · cases h
  | settle attempt =>
    rw [spawnStep, spawnSettle] at h
    split at h
    · cases h
    rename_i call hcall
    refine ⟨call, hcall, ?_⟩
    split at h
    · rename_i child hphase
      split at h
      · rename_i record ledger hok
        cases h
        exact .settled child record attempt ledger hphase (Store.transaction_ok hok)
      · rename_i error ledger hraised
        obtain rfl := Store.transaction_error hraised
        cases h
        exact .unsettled child error attempt rfl hphase (congrArg Prod.fst hraised)
    · cases h

end Runtime

end OpenAgent
