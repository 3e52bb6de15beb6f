import OpenAgent.Runtime.Admissions

/-!
# Runs that are known

A run that was accepted is never created again, so once no submission profiles it, no task is ever made
for it: if it is finished it stays so. Every submission that ends with a run ends with one that is known.
-/

namespace OpenAgent

open Lib Option

variable {D P : Type}

namespace Runtime

structure Known (s : Runtime D P) (r : String) : Prop where
  present : s.ledger.runs.get? r ≠ none
  unprofiled : ∀ (i : Nat) call g, s.submits[i]? = some call → ¬ call.Profiles r g

def Idle (s : Runtime D P) (r : String) : Prop :=
  ∀ (t : Nat) e, s.executions[t]? = some e → e.request.runId = r → e.done = true

structure Finished (s : Runtime D P) (r : String) : Prop where
  settled : s.ledger.settled r = true
  idle : s.Idle r

structure Carries (s s' : Runtime D P) : Prop where
  known : ∀ r, s.Known r → s'.Known r
  idle : ∀ r, s.Known r → s.Idle r → s'.Idle r
  settled : ∀ r, s.ledger.settled r = true → s'.ledger.settled r = true
  task : ∀ (t : Nat) e, s.executions[t]? = some e →
    ∃ e', s'.executions[t]? = some e' ∧ e'.request = e.request
  interrupted : ∀ (i : Nat) call, s.submits[i]? = some call → call.interrupted = true →
    ∃ call', s'.submits[i]? = some call' ∧ call'.interrupted = true

variable {s s' : Runtime D P}

theorem Carries.finished (h : Carries s s') {r : String} (hknown : s.Known r) (hfinished : s.Finished r)
    : s'.Finished r where
  settled := h.settled r hfinished.settled
  idle := h.idle r hknown hfinished.idle

/-! ### What steps carry on -/

variable [DecidableEq D] {env : Environment D}

variable {call : Submit D}

theorem SubmitMove.call_kept {i : Nat} (h : SubmitMove env s i call s')
    : ∃ call', s'.submits = s.submits.set i call' ∧
      (call.interrupted = true → call'.interrupted = true) := by
  cases h with
  | withdrawn | interrupted => exact ⟨_, rfl, fun _ => rfl⟩
  | refused | entered | authorized | denied | unaccepted | found | unleased | leased | started
  | rolledBack => exact ⟨_, rfl, id⟩

theorem ExecutionMove.executions {t : Nat} {e : Execution} (h : ExecutionMove env s t e s')
    : s'.submits = s.submits ∧
      ∃ e', s'.executions = s.executions.set t e' ∧ e'.request = e.request ∧
        (e.done = true → e'.done = true) := by
  cases h with
  | moved phase cancelled ledger hledger hlive hlive' hfresh =>
    exact ⟨rfl, _, rfl, rfl, fun hdone => by rw [hlive] at hdone; cases hdone⟩
  | launched hphase => exact ⟨rfl, _, rfl, rfl, fun hdone => by rw [Execution.done, hphase] at hdone; cases hdone⟩
  | dropped | finalized => exact ⟨rfl, _, rfl, rfl, fun _ => rfl⟩

theorem SubmitMove.known {i : Nat} {r : String} (hretains : s.ledger.Retains s'.ledger)
    (hcall : s.submits[i]? = some call) (h : SubmitMove env s i call s') (hr : s.Known r) : s'.Known r := by
  have hset : ∀ {call' : Submit D}, (∀ g, ¬ call'.Profiles r g) → ∀ (j : Nat) other g,
      (s.submits.set i call')[j]? = some other → ¬ other.Profiles r g := by
    intro call' hquiet j other g hother
    rcases (getElem?_set_eq_some hcall).mp hother with ⟨-, rfl⟩ | ⟨-, hsame⟩
    · exact hquiet g
    · exact hr.unprofiled j other g hsame
  have hquiet : ∀ {call' : Submit D}, (∀ record g revision, call'.phase ≠ .profiling record g revision) →
      ∀ g, ¬ call'.Profiles r g := fun h g => Submit.not_profiles h r g
  refine ⟨hretains.present hr.present, ?_⟩
  cases h with
  | refused | entered | authorized | denied | unaccepted | found | unleased | rolledBack | withdrawn
  | started => exact hset (hquiet (by simp))
  | interrupted hpending => exact hset fun g => hr.unprofiled i call g hcall
  | leased g attempt record ledger graph revision hphase haccept hacquire =>
    refine hset fun g' => ?_
    rintro ⟨found, _, hfound, rfl⟩
    cases hfound
    obtain ⟨hid, habsent, -⟩ := Store.accept_created haccept
    exact hr.present (by rw [hid, habsent])

theorem SubmitMove.idle {i : Nat} {r : String} (hs : s.Owned)
    (hcall : s.submits[i]? = some call) (h : SubmitMove env s i call s') (hr : s.Known r) (hidle : s.Idle r)
    : s'.Idle r := by
  cases h with
  | started g revision attempt record sequence payload ledger hphase happend =>
    intro t e he hid
    rcases getElem?_append_singleton.mp he with hold | ⟨-, rfl⟩
    · exact hidle t e hold hid
    · have hprofiles : call.Profiles record.runId g := ⟨record, revision, hphase, rfl⟩
      obtain ⟨hrequest, -⟩ := hs.profiled i call record.runId g hcall hprofiles
      have hsame : record.runId = r := hrequest.symm.trans hid
      rw [hsame] at hprofiles
      exact absurd hprofiles (hr.unprofiled i call g hcall)
  | refused | entered | authorized | denied | unaccepted | found | unleased | leased | rolledBack
  | withdrawn | interrupted => exact hidle

theorem carries_step {a : Action D P} (hs : s.Owned) (h : s.step env a = some s') :
    Carries s s' := by
  have hretains := (step_reaches h).retains
  rcases step_cases h with ⟨i, x, call, -, hcall, hmove⟩ | ⟨t, x, e, -, he, hmove⟩ | hframe
  · refine ⟨fun r => hmove.known hretains hcall, fun r hr => hmove.idle hs hcall hr,
      fun r => hretains.settled, fun t e he => ?_, fun j other hother hinterrupted => ?_⟩
    · cases hmove with
      | started => exact ⟨e, getElem?_append_singleton.mpr (.inl he), rfl⟩
      | refused | entered | authorized | denied | unaccepted | found | unleased | leased | rolledBack
      | withdrawn | interrupted => exact ⟨e, he, rfl⟩
    · obtain ⟨call', hsubmits, hkept⟩ := hmove.call_kept
      rw [hsubmits]
      by_cases hij : i = j
      · subst hij
        cases hcall.symm.trans hother
        exact ⟨call', (getElem?_set_eq_some hcall).mpr (.inl ⟨rfl, rfl⟩), hkept hinterrupted⟩
      · exact ⟨other, (getElem?_set_eq_some hcall).mpr (.inr ⟨hij, hother⟩), hinterrupted⟩
  · obtain ⟨hsubmits, e', hexecutions, hrequest, hdone⟩ := hmove.executions
    refine ⟨fun r hr => ⟨hretains.present hr.present, by rw [hsubmits]; exact hr.unprofiled⟩,
      fun r hr hidle y other hother hid => ?_, fun r => hretains.settled, fun y old hold => ?_,
      fun j other hother hinterrupted => ⟨other, by rw [hsubmits, hother], hinterrupted⟩⟩
    · rw [hexecutions] at hother
      rcases (getElem?_set_eq_some he).mp hother with ⟨-, rfl⟩ | ⟨-, hsame⟩
      · exact hdone (hidle t e he ((congrArg RunRequest.runId hrequest).symm.trans hid))
      · exact hidle y other hsame hid
    · rw [hexecutions]
      by_cases hyt : t = y
      · subst hyt
        cases he.symm.trans hold
        exact ⟨e', (getElem?_set_eq_some he).mpr (.inl ⟨rfl, rfl⟩), hrequest⟩
      · exact ⟨old, (getElem?_set_eq_some he).mpr (.inr ⟨hyt, hold⟩), rfl⟩
  · refine ⟨fun r hr => ⟨hretains.present hr.present, fun i call' g hcall' hprofiles' => ?_⟩,
      fun r _ hidle t e' he' hid => ?_, fun r => hretains.settled, fun t e he => ?_,
      fun i call hcall hinterrupted => ?_⟩
    · have hmoved := hframe.submits i
      rw [hcall'] at hmoved
      obtain ⟨call, hcall, hprofiles, -⟩ := Submit.Idle.profiles_back hmoved hprofiles'
      exact hr.unprofiled i call g hcall hprofiles
    · obtain ⟨e, he, hsame⟩ := hframe.executions.back he'
      rw [hsame.done]
      exact hidle t e he (by rwa [hsame.request] at hid)
    · obtain ⟨e', he', hsame⟩ := hframe.executions.forth he
      exact ⟨e', he', hsame.request⟩
    · have hmoved := hframe.submits i
      rw [hcall] at hmoved
      cases hnext : s'.submits[i]? with
      | none =>
        rw [hnext] at hmoved
        cases hmoved
      | some call' =>
        rw [hnext] at hmoved
        refine ⟨call', rfl, ?_⟩
        cases hmoved with
        | same call interrupted hkept => exact hkept hinterrupted
        | withdrawn call hphase => rfl

/-! ### What an admission ends with -/

def Ends (s : Runtime D P) : Prop :=
  ∀ (i : Nat) call outcome created, s.submits[i]? = some call → call.phase = .ended outcome created →
    (∀ r, admittedRun outcome created = some r → s.Known r) ∧
      (∀ r, created = some r → outcome ≠ .error .cancelled ∧ s.Known r)

omit [DecidableEq D] in
theorem Sound.unprofiled (hs : s.Sound) {i : Nat} (hcall : s.submits[i]? = some call)
    (hlocks : call.locks = true) {call' : Submit D} (hquiet : ∀ r g, ¬ call'.Profiles r g) (r : String) :
    ∀ (j : Nat) other g, (s.submits.set i call')[j]? = some other → ¬ other.Profiles r g := by
  intro j other g hother hprofiles
  rcases (getElem?_set_eq_some hcall).mp hother with ⟨-, rfl⟩ | ⟨hne, hsame⟩
  · exact hquiet r g hprofiles
  · have hheld : s.locks (.submit i) = true := by rw [Runtime.locks, hcall, any_some, hlocks]
    have hheld' : s.locks (.submit j) = true := by
      rw [Runtime.locks, hsame, any_some, hprofiles.locks]
    cases hs.locked.unique hheld hheld'
    exact hne rfl

theorem Ends.of_submitMove {i : Nat} (hs : s.Sound) (hends : s.Ends)
    (hcarries : Carries s s') (hretains : s.ledger.Retains s'.ledger) (hcall : s.submits[i]? = some call)
    (h : SubmitMove env s i call s') : s'.Ends := by
  -- Whatever the move is, the other submissions are as they were.
  have hset : ∀ {call' : Submit D}, s'.submits = s.submits.set i call' →
      (∀ outcome created, call'.phase = .ended outcome created →
        (∀ r, admittedRun outcome created = some r → s'.Known r) ∧
          (∀ r, created = some r → outcome ≠ .error .cancelled ∧ s'.Known r)) → s'.Ends := by
    intro call' hsubmits hown j other outcome created hother hended
    rw [hsubmits] at hother
    rcases (getElem?_set_eq_some hcall).mp hother with ⟨-, rfl⟩ | ⟨-, hsame⟩
    · exact hown outcome created hended
    · obtain ⟨hadmitted, hcreated⟩ := hends j other outcome created hsame hended
      exact ⟨fun r hr => hcarries.known r (hadmitted r hr),
        fun r hr => ⟨(hcreated r hr).1, hcarries.known r (hcreated r hr).2⟩⟩
  have hprofiling : ∀ {record : RunRecord D} {g revision : Nat}, call.phase = .profiling record g revision →
      s.ledger.runs.get? record.runId ≠ none :=
    fun hphase => (hs.owned.profiled i call _ _ hcall ⟨_, _, hphase, rfl⟩).2.1
  cases h with
  | refused | denied | unaccepted | withdrawn =>
    refine hset rfl fun outcome created hended => ?_
    cases hended
    exact ⟨fun r hr => (by cases hr), fun r hr => (by cases hr)⟩
  | entered | authorized | leased =>
    exact hset rfl fun outcome created hended => (by cases hended)
  | interrupted hpending => exact hset rfl fun outcome created hended => absurd hended (hpending _ _)
  | unleased g attempt record ledger error hphase haccept hdraining =>
    exact absurd hdraining (hs.acquires hcall hphase)
  | found g attempt record ledger hphase haccept =>
    refine hset rfl fun outcome created hended => ?_
    cases hended
    refine ⟨fun r hr => ?_, fun r hr => (by cases hr)⟩
    cases hr
    exact ⟨Store.accept_present haccept,
      hs.unprofiled hcall (by rw [Submit.locks, hphase]) (Submit.not_profiles (by simp)) _⟩
  | started g revision attempt record sequence payload ledger hphase happend =>
    refine hset rfl fun outcome created hended => ?_
    cases hended
    have hknown : Known (submitEnd { s with
        ledger
        tasks := s.tasks.set record.runId s.executions.length
        executions := s.executions ++
          [({ request := call.request, context := call.context, graph := g, revision } : Execution)] }
        i call (.ok record) (some record.runId)) record.runId :=
      ⟨hretains.present (hprofiling hphase),
        hs.unprofiled hcall (by rw [Submit.locks, hphase]) (Submit.not_profiles (by simp)) _⟩
    refine ⟨fun r hr => ?_, fun r hr => ⟨by simp, ?_⟩⟩ <;> obtain rfl := some.inj hr <;>
      exact hknown
  | rolledBack g revision record error hphase =>
    refine hset rfl fun outcome created hended => ?_
    cases hended
    have hunprofiled := hs.unprofiled hcall (by rw [Submit.locks, hphase])
      (Submit.not_profiles (by simp) : ∀ r g, ¬ ({ call with
        phase := .ended (.error (.store error)) (some record.runId) } : Submit D).Profiles r g)
      record.runId
    refine ⟨fun r hr => ?_, fun r hr => ⟨by simp, ?_⟩⟩ <;> obtain rfl := some.inj hr <;>
      exact ⟨hprofiling hphase, hunprofiled⟩

theorem ends_step {a : Action D P} (hs : s.Sound) (hends : s.Ends) (h : s.step env a = some s')
    : s'.Ends := by
  have hcarries := carries_step hs.owned h
  have hsame : ∀ {call : Submit D} {outcome : Except Failure (RunRecord D)} {created : Option String}
      {i : Nat}, s.submits[i]? = some call → call.phase = .ended outcome created →
      (∀ r, admittedRun outcome created = some r → s'.Known r) ∧
        (∀ r, created = some r → outcome ≠ .error .cancelled ∧ s'.Known r) := by
    intro call outcome created i hcall hended
    obtain ⟨hadmitted, hcreated⟩ := hends i call outcome created hcall hended
    exact ⟨fun r hr => hcarries.known r (hadmitted r hr),
      fun r hr => ⟨(hcreated r hr).1, hcarries.known r (hcreated r hr).2⟩⟩
  rcases step_cases h with ⟨i, x, call, -, hcall, hmove⟩ | ⟨t, x, e, -, he, hmove⟩ | hframe
  · exact hends.of_submitMove hs hcarries (step_reaches h).retains hcall hmove
  · intro i call outcome created hcall hended
    rw [hmove.executions.1] at hcall
    exact hsame hcall hended
  · intro i call' outcome created hcall' hended
    have hmoved := hframe.submits i
    rw [hcall'] at hmoved
    cases hbefore : s.submits[i]? with
    | none =>
      rw [hbefore] at hmoved
      cases hmoved with
      | fresh call hphase =>
        simp [hphase] at hended
    | some call =>
      rw [hbefore] at hmoved
      cases hmoved with
      | same call interrupted hkept => exact hsame hbefore hended
      | withdrawn call hphase =>
        cases hended
        exact ⟨fun r hr => (by cases hr), fun r hr => (by cases hr)⟩

end Runtime

end OpenAgent
