import OpenAgent.Runtime.Reports

/-!
# Where a step takes a task

What one step makes of the phase of an execution task, and what the steps beside the tasks make of all of them. A task
leaves the body of `_execute` by its end, by an exception, by its deadline or by a cancellation, and it has the session
that its submission was checked to have.
-/

namespace OpenAgent

open Lib

variable {D P : Type}

/-! ### What a step does to a task -/

/-- The phases between the authorization to execute and the end of the `async with lock`. -/
def Phase.within : Phase → Bool
  | .reading | .claiming | .claimed | .executing | .publishing _ => true
  | .settling _ _ handler => !handler
  | .created | .entering | .ended _ => false

def Phase.inBody : Phase → Bool
  | .created | .ended _ => false
  | .settling _ _ handler => !handler
  | _ => true

theorem Execution.inBody_eq (e : Execution) : e.inBody = e.phase.inBody := rfl

theorem Phase.inBody_of_within {phase : Phase} (h : phase.within = true) : phase.inBody = true := by
  cases phase <;> simp_all [within, inBody]

inductive Progress : ExecutionAction D P → Phase → Phase → Prop
  | dropped : Progress .enter .created (.ended true)
  | entered : Progress .enter .created .entering
  | advanced : Progress .advance .entering .reading
  | read (diagnostic : Option Json) : Progress (.read diagnostic) .reading .claiming
  | claimed (attempt : Attempt D P) (diagnostic : Option Json) : Progress (.claim attempt diagnostic) .claiming .claimed
  | launched : Progress .launch .claimed .executing
  | returned (output : Option Json) : Progress (.returns output) .executing (.publishing output)
  | absorbed : Progress .absorb .executing .executing
  | published (diagnostic output : Option Json) :
      Progress (.publish diagnostic) (.publishing output) (.settling .success output false)
  | kept {a : ExecutionAction D P} {phase : Phase} {status : RunStatus} {output : Option Json}
      (hquiet : ∀ t, Serial.notes t a = []) (hstatus : status ≠ .success) (hphase : phase.within = true) :
      Progress a phase (.settling status output false)
  | handled {a : ExecutionAction D P} {phase : Phase} {status : RunStatus} {output : Option Json}
      (hquiet : ∀ t, Serial.notes t a = []) (hstatus : status ≠ .success) (hphase : phase.inBody = true) :
      Progress a phase (.settling status output true)
  | ended {a : ExecutionAction D P} {status : RunStatus} {output : Option Json} {handler : Bool}
      (hquiet : ∀ t, Serial.notes t a = []) : Progress a (.settling status output handler) (.ended false)

/-- What a step of the task `t` leaves: the task went on, and a success is one that it was about to record. -/
structure Advanced (s s' : Runtime D P) (t : Nat) (a : ExecutionAction D P) (e e' : Execution) : Prop where
  executions : s'.executions = s.executions.set t e'
  submits : s'.submits = s.submits
  request : e'.request = e.request
  context : e'.context = e.context
  progress : Progress a e.phase e'.phase
  gains : Ledger.Gains (fun id => id = e.request.runId ∧ ∃ output handler, e.phase = .settling .success output handler)
    s.ledger s'.ledger

theorem Execution.Idle.context {e e' : Execution} (h : e.Idle e') : e'.context = e.context := by
  rcases h with rfl | rfl <;> rfl

namespace Runtime

variable {env : Environment D} {s s' : Runtime D P} {t : Nat}

variable {a : ExecutionAction D P}

theorem advanced_setPhase {e : Execution} {phase : Phase} {ledger : Ledger D P}
    (hgains : Ledger.Gains (fun id => id = e.request.runId ∧ ∃ output handler, e.phase = .settling .success output handler)
      s.ledger ledger) (hprogress : Progress a e.phase phase) :
    ∃ e', Advanced s (setPhase { s with ledger } t e phase) t a e e' :=
  ⟨{ e with phase }, rfl, rfl, rfl, rfl, hprogress, hgains⟩

theorem advanced_tellCancelled {e : Execution} {ledger : Ledger D P} (hquiet : ∀ t, Serial.notes t a = [])
    (hbody : e.phase.inBody = true)
    (hgains : Ledger.Gains (fun id => id = e.request.runId ∧ ∃ output handler, e.phase = .settling .success output handler)
      s.ledger ledger) : ∃ e', Advanced s (tellCancelled { s with ledger } t e) t a e e' := by
  refine ⟨_, rfl, rfl, rfl, rfl, .handled hquiet ?_ hbody, hgains⟩
  split <;> decide

theorem advanced_finalize {e : Execution} {status : RunStatus} {output : Option Json} {handler : Bool}
    {ledger : Ledger D P} (hquiet : ∀ t, Serial.notes t a = [])
    (hphase : e.phase = .settling status output handler)
    (hgains : Ledger.Gains (fun id => id = e.request.runId ∧ ∃ output handler, e.phase = .settling .success output handler)
      s.ledger ledger) : ∃ e', Advanced s (finalize { s with ledger } t e) t a e e' :=
  ⟨{ e with phase := .ended false }, rfl, rfl, rfl, rfl, by rw [hphase]; exact .ended hquiet, hgains⟩

theorem quiet_transition {attempt : Attempt D P} {runId : String} {status : RunStatus} {output : Option Json}
    {p : String → Prop} (hstatus : status = .success → p runId) :
    Ledger.Gains p s.ledger (Store.transaction attempt.moment (Store.transition (attempt.host env) runId status output
      attempt.moment.now) s.ledger).2 := by
  refine Store.transaction_gains fun record L' h => (Store.transition_gains h).weaken ?_
  rintro id ⟨rfl, hsuccess⟩
  exact hstatus hsuccess

theorem executionEnter_advanced (h : s.executionEnter t = some s') :
    ∃ e, s.executions[t]? = some e ∧ ∃ e', Advanced s s' t .enter e e' := by
  rw [executionEnter] at h
  split at h
  · cases h
  rename_i e he
  refine ⟨e, he, ?_⟩
  split at h
  · rename_i hphase
    cases h
    refine advanced_setPhase (.refl _) ?_
    rw [hphase]
    split
    · exact .dropped
    · exact .entered
  · cases h

theorem executionAdvance_advanced (h : s.executionAdvance t = some s') :
    ∃ e, s.executions[t]? = some e ∧ ∃ e', Advanced s s' t .advance e e' := by
  rw [executionAdvance] at h
  split at h
  · cases h
  rename_i e he
  refine ⟨e, he, ?_⟩
  split at h
  · rename_i hphase
    cases h
    exact advanced_setPhase (.refl _) (by rw [hphase]; exact .advanced)
  · cases h

variable {diagnostic : Option Json}

theorem executionRead_advanced (h : s.executionRead t diagnostic = some s') :
    ∃ e, s.executions[t]? = some e ∧ ∃ e', Advanced s s' t (.read diagnostic) e e' := by
  rw [executionRead] at h
  split at h
  · cases h
  rename_i e he
  refine ⟨e, he, ?_⟩
  split at h
  · rename_i hphase
    split at h
    · cases h
      refine advanced_setPhase (.refl _) ?_
      rw [hphase]
      split
      · exact .kept (fun _ => rfl) (by decide) rfl
      · exact .read diagnostic
    · cases h
      exact advanced_setPhase (.refl _) (by rw [hphase]; exact .handled (fun _ => rfl) (by decide) rfl)
  · cases h

theorem executionClaim_advanced {attempt : Attempt D P}
    (h : s.executionClaim env t attempt diagnostic = some s') :
    ∃ e, s.executions[t]? = some e ∧ ∃ e', Advanced s s' t (.claim attempt diagnostic) e e' := by
  rw [executionClaim] at h
  split at h
  · cases h
  rename_i e he
  refine ⟨e, he, ?_⟩
  split at h
  · rename_i hphase
    dsimp only at h
    split at h
    · cases h
      exact advanced_tellCancelled (fun _ => rfl) (by rw [hphase]; rfl) (quiet_transition nofun)
    split at h
    · cases h
      exact advanced_setPhase (quiet_transition nofun) (by rw [hphase]; exact .claimed attempt diagnostic)
    · cases h
      exact advanced_setPhase (quiet_transition nofun)
        (by rw [hphase]; exact .handled (fun _ => rfl) (by decide) rfl)
  · cases h

theorem executionLaunch_advanced (h : s.executionLaunch t = some s') :
    ∃ e, s.executions[t]? = some e ∧ ∃ e', Advanced s s' t .launch e e' := by
  rw [executionLaunch] at h
  split at h
  · cases h
  rename_i e he
  refine ⟨e, he, ?_⟩
  split at h
  · rename_i hphase
    cases h
    exact ⟨{ e with phase := .executing }, rfl, rfl, rfl, rfl, by rw [hphase]; exact .launched, .refl _⟩
  · cases h

theorem executionReturn_advanced {output : Option Json} (h : s.executionReturn t output = some s') :
    ∃ e, s.executions[t]? = some e ∧ ∃ e', Advanced s s' t (.returns output) e e' := by
  rw [executionReturn] at h
  split at h
  · cases h
  rename_i e he
  refine ⟨e, he, ?_⟩
  split at h
  · rename_i hphase
    cases h
    exact advanced_setPhase (.refl _) (by rw [hphase]; exact .returned output)
  · cases h

theorem executionAbsorb_advanced (h : s.executionAbsorb t = some s') :
    ∃ e, s.executions[t]? = some e ∧ ∃ e', Advanced s s' t .absorb e e' := by
  rw [executionAbsorb] at h
  split at h
  · cases h
  rename_i e he
  refine ⟨e, he, ?_⟩
  split at h
  · rename_i hphase
    cases h
    exact ⟨{ e with cancelled := false }, rfl, rfl, rfl, rfl, by rw [hphase]; exact .absorbed, .refl _⟩
  · cases h

theorem executionPublish_advanced (h : s.executionPublish t diagnostic = some s') :
    ∃ e, s.executions[t]? = some e ∧ ∃ e', Advanced s s' t (.publish diagnostic) e e' := by
  rw [executionPublish] at h
  split at h
  · cases h
  rename_i e he
  refine ⟨e, he, ?_⟩
  split at h
  · rename_i output hphase
    split at h
    · cases h
      refine advanced_setPhase (.refl _) ?_
      rw [hphase]
      split
      · exact .kept (fun _ => rfl) (by decide) rfl
      · exact .published diagnostic output
    · cases h
      exact advanced_setPhase (.refl _) (by rw [hphase]; exact .handled (fun _ => rfl) (by decide) rfl)
  · cases h

theorem executionSettle_advanced {attempt : Attempt D P}
    (h : s.executionSettle env t attempt diagnostic = some s') :
    ∃ e, s.executions[t]? = some e ∧ ∃ e', Advanced s s' t (.settle attempt diagnostic) e e' := by
  rw [executionSettle] at h
  split at h
  · cases h
  rename_i e he
  refine ⟨e, he, ?_⟩
  split at h
  · rename_i status output handler hphase
    have hgains := @quiet_transition _ _ env s attempt e.request.runId status output
      (fun id => id = e.request.runId ∧ ∃ output handler, e.phase = .settling .success output handler)
      (fun hsuccess => ⟨rfl, output, handler, by rw [hphase, hsuccess]⟩)
    dsimp only at h
    split at h
    · cases h
      exact advanced_finalize (fun _ => rfl) hphase hgains
    rename_i hbody
    have hinBody : e.phase.inBody = true := by simpa [hphase, Phase.inBody] using hbody
    split at h
    · cases h
      exact advanced_tellCancelled (fun _ => rfl) hinBody hgains
    split at h
    · cases h
      exact advanced_finalize (fun _ => rfl) hphase hgains
    · cases h
      exact advanced_setPhase hgains (.handled (fun _ => rfl) (by decide) hinBody)
  · cases h

theorem executionCancelled_advanced (h : s.executionCancelled t = some s') :
    ∃ e, s.executions[t]? = some e ∧ ∃ e', Advanced s s' t .cancelled e e' := by
  rw [executionCancelled] at h
  split at h
  · cases h
  rename_i e he
  refine ⟨e, he, ?_⟩
  split at h
  · split at h
    · cases h
    · cases h
    · rename_i status output hphase
      cases h
      exact advanced_finalize (fun _ => rfl) hphase (.refl _)
    · rename_i hcreated hended hhandler
      cases h
      refine advanced_tellCancelled (fun _ => rfl) ?_ (.refl _)
      cases hphase : e.phase with
      | created => exact absurd hphase hcreated
      | ended dropped => exact absurd hphase (hended dropped)
      | settling status output handler =>
        cases handler with
        | true => exact absurd hphase (hhandler status output)
        | false => rfl
      | _ => rfl
  · cases h

theorem executionStep_advanced (h : s.executionStep env t a = some s') :
    ∃ e, s.executions[t]? = some e ∧ ∃ e', Advanced s s' t a e e' := by
  cases a with
  | enter => exact executionEnter_advanced h
  | advance => exact executionAdvance_advanced h
  | read diagnostic => exact executionRead_advanced h
  | claim attempt diagnostic => exact executionClaim_advanced h
  | launch => exact executionLaunch_advanced h
  | returns output => exact executionReturn_advanced h
  | absorb => exact executionAbsorb_advanced h
  | publish diagnostic => exact executionPublish_advanced h
  | settle attempt diagnostic => exact executionSettle_advanced h
  | raises diagnostic =>
    rw [executionStep, executionRaise] at h
    split at h
    · cases h
    rename_i e he
    refine ⟨e, he, ?_⟩
    split at h
    · rename_i hbody
      cases h
      exact advanced_setPhase (.refl _) (.handled (fun _ => rfl) (by decide) hbody)
    · cases h
  | timeout =>
    rw [executionStep, executionTimeout] at h
    split at h
    · cases h
    rename_i e he
    refine ⟨e, he, ?_⟩
    split at h
    · rename_i hbody
      cases h
      exact advanced_setPhase (.refl _) (.handled (fun _ => rfl) (by decide) hbody)
    · cases h
  | cancelled => exact executionCancelled_advanced h

/-- What a step beside the execution tasks makes of them: some are told of a cancellation, or a new one is made. -/
structure Unmoved (s s' : Runtime D P) : Prop where
  back : ∀ (t : Nat) e', s'.executions[t]? = some e' →
    (∃ e, s.executions[t]? = some e ∧ e.Idle e') ∨ t = s.executions.length ∧ e'.phase = .created
  forth : ∀ (t : Nat) e, s.executions[t]? = some e → ∃ e', s'.executions[t]? = some e' ∧ e.Idle e'
  length : s.executions.length ≤ s'.executions.length

theorem Unmoved.of_same (h : SameTasks s.executions s'.executions) : Unmoved s s' where
  back t e' he' := .inl (h.back he')
  forth t e he := h.forth he
  length := by
    by_contra hlt
    obtain ⟨e, he⟩ : ∃ e, s.executions[s'.executions.length]? = some e :=
      ⟨_, List.getElem?_eq_getElem (Nat.lt_of_not_le hlt)⟩
    obtain ⟨e', he', -⟩ := h.forth he
    exact absurd (List.getElem?_eq_none (Nat.le_refl _)) (by rw [he']; exact Option.some_ne_none e')

theorem Unmoved.push {e : Execution} (h : s'.executions = s.executions ++ [e]) (hphase : e.phase = .created) :
    Unmoved s s' where
  back t e' he' := by
    rw [h] at he'
    rcases getElem?_append_singleton.mp he' with hold | ⟨ht, rfl⟩
    · exact .inl ⟨e', hold, .inl rfl⟩
    · exact .inr ⟨ht, hphase⟩
  forth t e he := ⟨e, by rw [h]; exact getElem?_append_singleton.mpr (.inl he), .inl rfl⟩
  length := by
    rw [h, List.length_append]
    exact Nat.le_add_right _ _

theorem beside_unmoved [DecidableEq D] {a : Action D P} (ha : Serial.beside a = true) (h : s.step env a = some s') :
    Unmoved s s' := by
  rcases step_cases h with ⟨i, x, call, rfl, -, hmove⟩ | ⟨t, x, e, rfl, -, -⟩ | hframe
  · cases hmove with
    | started => exact .push rfl rfl
    | refused | entered | authorized | denied | unaccepted | found | unleased | leased | rolledBack | withdrawn
      | interrupted => exact .of_same (.refl _)
  · exact absurd ha Bool.false_ne_true
  · exact .of_same hframe.executions

end Runtime

/-! ### A task and its session -/

namespace Runtime

variable {s s' : Runtime D P} {env : Environment D}

def checked (call : Submit D) : Bool :=
  match call.phase with
  | .waiting | .ended _ _ => false
  | _ => true

structure Addressed (s : Runtime D P) : Prop where
  submits : ∀ (i : Nat) call, s.submits[i]? = some call → checked call = true →
    call.request.sessionId = call.context.sessionId
  executions : ∀ (t : Nat) e, s.executions[t]? = some e → e.request.sessionId = e.context.sessionId

theorem addressed_construct (ledger : Ledger D P) (catalog : Catalog) (initialGeneration : Nat) (ownsStore : Bool) :
    (construct ledger catalog initialGeneration ownsStore).Addressed where
  submits i call h := by cases h
  executions t e h := by cases h

theorem Addressed.of_unmoved (hs : s.Addressed) (hunmoved : SameTasks s.executions s'.executions)
    (hsubmits : ∀ i : Nat, Submit.Idle s.submits[i]? s'.submits[i]?) : s'.Addressed where
  submits i call hcall hchecked := by
    have hidle := hsubmits i
    rw [hcall] at hidle
    generalize hold : s.submits[i]? = old at hidle
    cases hidle with
    | same call interrupted => exact hs.submits i call hold hchecked
    | withdrawn call => cases hchecked
    | fresh _ hphase =>
      simp [checked, hphase] at hchecked
  executions t e he := by
    obtain ⟨old, hold, hidle⟩ := hunmoved.back he
    rw [hidle.request, hidle.context]
    exact hs.executions t old hold

theorem Addressed.set_submit (hs : s.Addressed) {i : Nat} {call call' : Submit D} (hcall : s.submits[i]? = some call)
    (hsubmits : s'.submits = s.submits.set i call') (hexecutions : s'.executions = s.executions)
    (hchecked : checked call' = true → call'.request.sessionId = call'.context.sessionId) : s'.Addressed where
  submits j other hj hother := by
    rw [hsubmits] at hj
    rcases (getElem?_set_eq_some hcall).mp hj with ⟨rfl, rfl⟩ | ⟨-, hold⟩
    · exact hchecked hother
    · exact hs.submits j other hold hother
  executions := by
    rw [hexecutions]
    exact hs.executions

theorem addressed_submitEnter (hs : s.Addressed) {i : Nat} (h : s.submitEnter i = some s') : s'.Addressed := by
  rw [submitEnter] at h
  split at h
  · cases h
  rename_i call hcall
  split at h
  · split at h
    · cases h
    split at h
    · cases h
      exact hs.set_submit hcall rfl rfl nofun
    split at h
    · cases h
      exact hs.set_submit hcall rfl rfl nofun
    split at h
    · cases h
      exact hs.set_submit hcall rfl rfl nofun
    · rename_i hsame
      cases h
      exact hs.set_submit hcall rfl rfl fun _ => by simpa using hsame
  · cases h

theorem addressed_submitAuthorized (hs : s.Addressed) {i : Nat} {failure : Option Failure}
    (h : s.submitAuthorized i failure = some s') : s'.Addressed := by
  rw [submitAuthorized] at h
  split at h
  · cases h
  rename_i call hcall
  split at h
  · rename_i g hphase
    cases h
    exact hs.set_submit hcall rfl rfl fun _ => hs.submits i call hcall (by rw [checked, hphase])
  · cases h
    exact hs.set_submit hcall rfl rfl nofun
  · cases h

theorem addressed_submitAccept [DecidableEq D] (hs : s.Addressed) {i : Nat} {attempt : Attempt D P}
    (h : s.submitAccept env i attempt = some s') : s'.Addressed := by
  rw [submitAccept] at h
  split at h
  · cases h
  rename_i call hcall
  split at h
  · rename_i g hphase
    split at h
    · cases h
      exact hs.set_submit hcall rfl rfl nofun
    · cases h
      exact hs.set_submit hcall rfl rfl nofun
    · split at h
      · cases h
        exact hs.set_submit hcall rfl rfl nofun
      · cases h
        exact hs.set_submit hcall rfl rfl fun _ => hs.submits i call hcall (by rw [checked, hphase])
  · cases h

theorem addressed_submitProfile (hs : s.Addressed) {i : Nat} {attempt : Attempt D P}
    (h : s.submitProfile env i attempt = some s') : s'.Addressed := by
  rw [submitProfile] at h
  split at h
  · cases h
  rename_i call hcall
  split at h
  · rename_i record g revision hphase
    have hsame := hs.submits i call hcall (by rw [checked, hphase])
    dsimp only at h
    split at h
    · cases h
      have hpushed : Addressed { s with executions := s.executions ++
          [({ request := call.request, context := call.context, graph := g, revision } : Execution)] } :=
        ⟨hs.submits, fun t e he => by
          rcases getElem?_append_singleton.mp he with hold | ⟨-, rfl⟩
          · exact hs.executions t e hold
          · exact hsame⟩
      exact hpushed.set_submit hcall rfl rfl nofun
    · cases h
      exact hs.set_submit hcall rfl rfl nofun
  · cases h

theorem addressed_step [DecidableEq D] {a : Action D P} (hs : s.Addressed) (h : s.step env a = some s') :
    s'.Addressed := by
  have hcases := step_cases h
  cases a with
  | submit i a =>
    cases a with
    | enter => exact addressed_submitEnter hs h
    | authorized failure => exact addressed_submitAuthorized hs h
    | accept attempt => exact addressed_submitAccept hs h
    | profile attempt => exact addressed_submitProfile hs h
    | interrupt =>
      obtain ⟨⟨_, rfl⟩, hidle⟩ := idle_submitInterrupt h
      exact hs.of_unmoved (.refl _) hidle
  | execution t a =>
    obtain ⟨e, he, e', hadvanced⟩ := executionStep_advanced h
    refine ⟨by rw [hadvanced.submits]; exact hs.submits, fun u f hf => ?_⟩
    rw [hadvanced.executions] at hf
    rcases (getElem?_set_eq_some he).mp hf with ⟨rfl, rfl⟩ | ⟨-, hold⟩
    · rw [hadvanced.request, hadvanced.context]
      exact hs.executions t e he
    · exact hs.executions u f hold
  | _ =>
    rcases hcases with ⟨_, _, _, hother, -⟩ | ⟨_, _, _, hother, -⟩ | hframe
    · cases hother
    · cases hother
    · exact hs.of_unmoved hframe.executions hframe.submits

end Runtime

end OpenAgent
