import OpenAgent.Runtime.Leases

/-!
# Where an admission ends

Whatever fails inside a submission and whenever its caller is cancelled, the run that it has created is
terminal or has a task when the admission ends, except where the store refuses the profile event of a
run that nobody has settled: the bindings of the run are taken back then, the run is not.
-/

namespace OpenAgent

open Lib Option

variable {D P : Type}

namespace Runtime

def Served (s : Runtime D P) (runId : String) : Prop :=
  s.ledger.settled runId = true ∨ s.tasks.get? runId ≠ none

/-- The submission `i` of the call has created the run. -/
def CreatedBy (s s' : Runtime D P) (created : Option String) (runId : String) : Prop :=
  created = some runId ∨ s.ledger.runs.get? runId = none ∧ s'.ledger.runs.get? runId ≠ none

variable {s s' : Runtime D P} {call call' : Submit D}

theorem Sound.acquires (hs : s.Sound) {i g : Nat} (hcall : s.submits[i]? = some call)
    (hphase : call.phase = .accepting g) :
    s.graphs[g]?.bind Graph.acquire ≠ none := by
  have hactive := hs.leasing.selected i call g hcall (by rw [Submit.selected, hphase])
  obtain ⟨graph, hgraph, -, hopen⟩ := hs.staged.active g hactive
  rw [hgraph, bind_some, Graph.acquire, if_neg (by simp [hopen])]
  exact some_ne_none _

theorem Sound.untracked (hs : s.Sound) {i g revision : Nat} {record : RunRecord D}
    (hcall : s.submits[i]? = some call) (hphase : call.phase = .profiling record g revision)
    : s.tasks.get? record.runId = none := by
  by_contra htask
  obtain ⟨t, ht⟩ := ne_none_iff_exists'.mp htask
  obtain ⟨e, he, hid⟩ := hs.tracked.task record.runId t ht
  obtain ⟨-, -, -, hfree⟩ := hs.owned.profiled i call record.runId g hcall ⟨record, revision, hphase, rfl⟩
  exact hfree t e he hid

def ProfileRefused (env : Environment D) (s : Runtime D P) (i : Nat) (a : Action D P) : Prop :=
  ∃ attempt call record g revision error, a = .submit i (.profile attempt) ∧
    s.submits[i]? = some call ∧ call.phase = .profiling record g revision ∧
    (Store.transaction attempt.moment (Store.appendEvent (attempt.host env) record.runId "run.profile"
      (profilePayload (s.generationOf g) revision)) s.ledger).1 = .error error ∧
    s.ledger.settled record.runId = false

variable {env : Environment D} {outcome : Except Failure (RunRecord D)}

theorem profile_ended {i : Nat} {attempt : Attempt D P} {created : Option String} (hs : s.Sound)
    (h : s.submitProfile env i attempt = some s') (hcall' : s'.submits[i]? = some call')
    (hended : call'.phase = .ended outcome created) :
    (∀ r, s.CreatedBy s' created r → s'.Served r) ↔
      ¬ s.ProfileRefused env i (.submit i (.profile attempt)) := by
  unfold submitProfile at h
  split at h
  · cases h
  rename_i call hcall
  split at h
  case h_2 => cases h
  rename_i record g revision hphase
  have hset : ∀ {t : Runtime D P} {out : Except Failure (RunRecord D)} {r : String},
      t.submits = s.submits → (submitEnd t i call out (some r)).submits[i]? = some call' →
        created = some r := by
    intro t out r ht hfound
    rw [submitEnd, ht, (getElem?_set_eq_some hcall).mpr (.inl ⟨rfl, rfl⟩)] at hfound
    cases hfound
    cases hended
    rfl
  dsimp only at h
  split at h
  · rename_i sequence ledger hok
    cases h
    have hcreated := hset rfl hcall'
    have happended := Store.appendEvent_ok (Store.transaction_ok hok)
    obtain ⟨row, p, -, hr⟩ := happended
    cases hr
    constructor
    · rintro - ⟨attempt', other, record', g', revision', error, haction, hother, hphase', herror, -⟩
      cases haction
      cases hcall.symm.trans hother
      cases hphase.symm.trans hphase'
      rw [generationOf, hok] at herror
      cases herror
    · rintro - r (hr | ⟨hbefore, hafter⟩)
      · cases hcreated.symm.trans hr
        refine .inr ?_
        show (s.tasks.set record.runId s.executions.length).get? record.runId ≠ none
        rw [Dict.get?_set_self]
        exact some_ne_none _
      · exact absurd hbefore hafter
  · rename_i error ledger hraised
    obtain rfl := Store.transaction_error hraised
    cases h
    have hcreated := hset rfl hcall'
    constructor
    · intro hserved
      rintro ⟨attempt', other, record', g', revision', error', haction, hother, hphase', -, hopen⟩
      cases haction
      cases hcall.symm.trans hother
      cases hphase.symm.trans hphase'
      rcases hserved record.runId (.inl hcreated) with hsettled | htask
      · rw [show s.ledger.settled record.runId = true from hsettled] at hopen
        cases hopen
      · exact htask (hs.untracked hcall hphase)
    · rintro hcalm r (hr | ⟨hbefore, hafter⟩)
      · cases hcreated.symm.trans hr
        refine .inl ?_
        by_contra hopen
        rw [Bool.not_eq_true] at hopen
        exact hcalm ⟨attempt, call, record, g, revision, error, rfl, hcall, hphase,
          congrArg Prod.fst hraised, hopen⟩
      · exact absurd hbefore hafter

variable [DecidableEq D]

theorem profile_of_profiling {i g revision : Nat} {a : SubmitAction D P} {record : RunRecord D}
    (h : s.submitStep env i a = some s') (hcall : s.submits[i]? = some call)
    (hphase : call.phase = .profiling record g revision) :
    (∃ attempt, a = .profile attempt) ∨
      s' = { s with submits := s.submits.set i { call with interrupted := true } } := by
  cases a with
  | enter => simp [submitStep, submitEnter, hcall, hphase] at h
  | authorized failure => simp [submitStep, submitAuthorized, hcall, hphase] at h
  | accept attempt => simp [submitStep, submitAccept, hcall, hphase] at h
  | profile attempt => exact .inl ⟨attempt, rfl⟩
  | interrupt =>
    simp only [submitStep, submitInterrupt, hcall, hphase, Option.some.injEq] at h
    rw [← hphase] at h
    exact .inr h.symm

theorem submit_ended {i : Nat} {a : SubmitAction D P} {created : Option String} (hs : s.Sound)
    (h : s.submitStep env i a = some s') (hcall : s.submits[i]? = some call)
    (hpending : ∀ outcome created, call.phase ≠ .ended outcome created)
    (hcall' : s'.submits[i]? = some call') (hended : call'.phase = .ended outcome created)
    (hother : ∀ attempt, a ≠ .profile attempt) : ∀ r, s.CreatedBy s' created r → s'.Served r := by
  have hunset : ∀ {phase : SubmitPhase D} {interrupted : Bool},
      (∀ outcome created, phase ≠ .ended outcome created) →
      s'.submits = s.submits.set i { call with phase, interrupted } → False := by
    intro phase interrupted hphase hsubmits
    rw [hsubmits, (getElem?_set_eq_some hcall).mpr (.inl ⟨rfl, rfl⟩)] at hcall'
    cases hcall'
    exact hphase _ _ hended
  have hprofiling : ∀ {record : RunRecord D} {g revision : Nat},
      call.phase ≠ .profiling record g revision := by
    intro record g revision hphase
    rcases profile_of_profiling h hcall hphase with ⟨attempt, rfl⟩ | rfl
    · exact hother attempt rfl
    · exact hunset hpending rfl
  -- An admission that neither accepts nor profiles a run leaves the ledger as it was.
  have hnothing : ∀ {out : Except Failure (RunRecord D)} {interrupted : Bool}, s'.ledger = s.ledger →
      s'.submits = s.submits.set i { call with phase := .ended out none, interrupted } →
        ∀ r, s.CreatedBy s' created r → s'.Served r := by
    rintro out interrupted hledger hsubmits r (hr | ⟨hbefore, hafter⟩)
    · rw [hsubmits, (getElem?_set_eq_some hcall).mpr (.inl ⟨rfl, rfl⟩)] at hcall'
      cases hcall'
      cases hended
      cases hr
    · rw [hledger] at hafter
      exact absurd hbefore hafter
  obtain ⟨found, hfound, hmove⟩ := submitStep_moves h
  cases hcall.symm.trans hfound
  cases hmove with
  | refused | denied | unaccepted => exact hnothing rfl rfl
  | withdrawn => exact hnothing rfl rfl
  | entered | authorized | leased => exact (hunset (by simp) rfl).elim
  | interrupted => exact (hunset hpending rfl).elim
  | started g revision attempt record sequence payload ledger hphase => exact absurd hphase hprofiling
  | rolledBack g revision record error hphase => exact absurd hphase hprofiling
  | unleased g attempt record ledger error hphase haccept hdraining =>
    exact absurd hdraining (hs.acquires hcall hphase)
  | found g attempt record ledger hphase haccept =>
    rintro r (hr | ⟨hbefore, hafter⟩)
    · replace hcall' : (s.submits.set i _)[i]? = some call' := hcall'
      rw [(getElem?_set_eq_some hcall).mpr (.inl ⟨rfl, rfl⟩)] at hcall'
      cases hcall'
      cases hended
      cases hr
    · exact .inl (Store.accept_added haccept hbefore hafter)

theorem SubmitMove.submits {i : Nat} (h : SubmitMove env s i call s')
    : ∃ call', s'.submits = s.submits.set i call' := by
  cases h <;> exact ⟨_, rfl⟩

theorem withdrawn_elsewhere {i : Nat} {a : Action D P} {created : Option String}
    (h : s.step env a = some s') (hcall : s.submits[i]? = some call)
    (hpending : ∀ outcome created, call.phase ≠ .ended outcome created)
    (hcall' : s'.submits[i]? = some call') (hended : call'.phase = .ended outcome created)
    (hother : ∀ x, a ≠ .submit i x) : created = none ∧ s'.ledger = s.ledger := by
  have hmoved : s'.submits[i]? ≠ s.submits[i]? := by
    intro hsame
    rw [hsame, hcall] at hcall'
    cases hcall'
    exact hpending _ _ hended
  rcases step_cases h with ⟨j, x, other, rfl, -, hmove⟩ | ⟨t, x, e, -, -, hmove⟩ | hframe
  · obtain ⟨other', hsubmits⟩ := hmove.submits
    have hne : j ≠ i := fun heq => hother x (by rw [heq])
    rw [hsubmits, List.getElem?_set_ne hne] at hmoved
    exact absurd rfl hmoved
  · have hsame : s'.submits = s.submits := by cases hmove <;> rfl
    rw [hsame] at hmoved
    exact absurd rfl hmoved
  · rcases hframe.apart with hsame | hledger
    · rw [hsame] at hmoved
      exact absurd rfl hmoved
    · refine ⟨?_, hledger⟩
      have hidle := hframe.submits i
      rw [hcall, hcall'] at hidle
      cases hidle with
      | same call interrupted => exact absurd hended (hpending _ _)
      | withdrawn call hphase =>
        cases hended
        rfl

/-- Wherever a submission of a reachable runtime ends, every run it has created can reach a terminal
state, if and only if the step is not the refusal of the profile event of a run that is not terminal. -/
theorem created_run_is_served_iff (env : Environment D) (ledger : Ledger D P) (catalog : Catalog)
    (initialGeneration : Nat) (ownsStore : Bool) (schedule : List (Action D P)) {s s' : Runtime D P}
    (hrun : run (step env) (construct ledger catalog initialGeneration ownsStore) schedule = some s)
    {a : Action D P} (h : s.step env a = some s') {i : Nat} {call call' : Submit D}
    {outcome : Except Failure (RunRecord D)} {created : Option String} (hcall : s.submits[i]? = some call)
    (hpending : ∀ outcome created, call.phase ≠ .ended outcome created)
    (hcall' : s'.submits[i]? = some call') (hended : call'.phase = .ended outcome created) :
    (∀ r, s.CreatedBy s' created r → s'.Served r) ↔ ¬ s.ProfileRefused env i a := by
  have hs := sound_run (sound_construct ledger catalog initialGeneration ownsStore) hrun
  by_cases hsubmit : ∃ x, a = .submit i x
  · obtain ⟨x, rfl⟩ := hsubmit
    by_cases hprofile : ∃ attempt, x = .profile attempt
    · obtain ⟨attempt, rfl⟩ := hprofile
      exact profile_ended hs h hcall' hended
    · rw [not_exists] at hprofile
      refine iff_of_true (submit_ended hs h hcall hpending hcall' hended hprofile) ?_
      rintro ⟨attempt, other, record, g, revision, error, haction, -⟩
      cases haction
      exact hprofile attempt rfl
  · rw [not_exists] at hsubmit
    obtain ⟨rfl, hledger⟩ := withdrawn_elsewhere h hcall hpending hcall' hended hsubmit
    refine iff_of_true ?_ ?_
    · rintro r (hr | ⟨hbefore, hafter⟩)
      · cases hr
      · rw [hledger] at hafter
        exact absurd hbefore hafter
    · rintro ⟨attempt, other, record, g, revision, error, haction, -⟩
      exact hsubmit _ haction

def takesProfile (s : Runtime String Nat) (i : Nat) : Bool :=
  s.submits[i]?.any fun call =>
    match call.phase with
    | .profiling record g revision =>
      (Store.transaction (Sample.calm (D := String)).moment (Store.appendEvent
        (Sample.calm.host Sample.environment) record.runId "run.profile"
        (profilePayload (s.generationOf g) revision)) s.ledger).1.toBool
    | _ => false

def createdRun (s : Runtime String Nat) (i : Nat) : Option String :=
  s.submits[i]?.bind fun call =>
    match call.phase with
    | .ended _ created => created
    | _ => none

theorem accepted_run_is_served : ∃ s s' : Runtime String Nat,
    run (step Sample.environment) Sample.runtime (Sample.opening ++ Sample.acceptance) = some s ∧
      s.step Sample.environment (.submit 0 (.profile Sample.calm)) = some s' ∧ s'.Served "run" := by
  have htrace : ((run (step Sample.environment) Sample.runtime (Sample.opening ++ Sample.acceptance)).bind
      fun s => (s.step Sample.environment (.submit 0 (.profile Sample.calm))).map fun s' =>
        (s.takesProfile 0, s'.createdRun 0)) = some (true, some "run") := by decide +kernel
  obtain ⟨s, hrun, hnext⟩ := Option.bind_eq_some_iff.mp htrace
  obtain ⟨s', hstep, hfacts⟩ := Option.map_eq_some_iff.mp hnext
  obtain ⟨htakes, hcreated⟩ := Prod.mk.inj hfacts
  refine ⟨s, s', hrun, hstep, ?_⟩
  obtain ⟨call, hcall, hpending⟩ := (Option.any_eq_true _ _).mp htakes
  obtain ⟨call', hcall', hended⟩ := Option.bind_eq_some_iff.mp hcreated
  split at hpending
  · rename_i record g revision hphase
    split at hended
    · rename_i outcome created hphase'
      obtain rfl := hended
      refine (created_run_is_served_iff Sample.environment _ _ _ _ _ hrun hstep hcall (by simp [hphase])
        hcall' hphase').mpr ?_ "run" (.inl rfl)
      rintro ⟨attempt, other, record', g', revision', error, haction, hother, hphase'', herror, -⟩
      cases haction
      cases hcall.symm.trans hother
      cases hphase.symm.trans hphase''
      rw [herror] at hpending
      cases hpending
    · cases hended
  · cases hpending

def refusedSchedule : List (Action String Nat) :=
  Sample.opening ++ Sample.acceptance ++ [.submit 0 (.profile Sample.faulty),
    .call (.submit Sample.request Sample.context), .submit 1 .enter, .submit 1 (.authorized none),
    .submit 1 (.accept Sample.calm)]

/-- The run stays queued and has no task, and a retry only finds it so. -/
theorem refused_profile_strands_the_run : ∃ s : Runtime String Nat,
    run (step Sample.environment) Sample.runtime refusedSchedule = some s ∧
      (s.ledger.runs.get? "run").map RunRow.status = some .queued ∧ s.executions.isEmpty = true ∧
      ¬ s.Served "run" := by
  have htrace : (run (step Sample.environment) Sample.runtime refusedSchedule).map (fun s =>
      ((s.ledger.runs.get? "run").map RunRow.status, s.executions.isEmpty, s.ledger.settled "run",
        s.tasks.get? "run")) = some (some .queued, true, false, none) := by decide +kernel
  obtain ⟨s, hrun, hs⟩ := Option.map_eq_some_iff.mp htrace
  simp only [Prod.mk.injEq] at hs
  obtain ⟨hstatus, hidle, hopen, htask⟩ := hs
  refine ⟨s, hrun, hstatus, hidle, ?_⟩
  rintro (hsettled | hserved)
  · simp [hopen] at hsettled
  · exact hserved htask

end Runtime

end OpenAgent
