import OpenAgent.Runtime.Children

/-!
# Cancelled parents and their children

A spawn that is cancelled while it waits for its child requests the cancellation of the child, waits for
its task and settles it before the cancellation leaves. A cancellation that comes at another await, a
second one, or a store that raises inside the handler leaves earlier, and then the child is finished only
if it was so already.
-/

namespace OpenAgent

open Lib

variable {D P : Type}

namespace SpawnPhase

def admitted : SpawnPhase D → Option String
  | .linking child | .waiting child | .requesting child | .settling child => some child.runId
  | .gathering child _ => some child.runId
  | .raised _ child => child
  | .authorizing | .submitting _ | .returned _ => none

def calm : SpawnPhase D → Bool
  | .authorizing | .linking _ | .waiting _ => true
  | _ => false

def handling : SpawnPhase D → Bool
  | .requesting _ | .gathering _ _ | .settling _ => true
  | _ => false

end SpawnPhase

structure Spawn.Fits (s : Runtime D P) (call : Spawn D) : Prop where
  known : ∀ r, call.phase.admitted = some r → s.Known r
  calm : call.phase.calm = true → call.interrupted = false
  handling : call.phase.handling = true → call.interrupted = true
  told : ∀ i, call.phase = .submitting i → call.interrupted = true →
    ∃ submit, s.submits[i]? = some submit ∧ submit.interrupted = true
  gathering : ∀ child t, call.phase = .gathering child t →
    ∃ e, s.executions[t]? = some e ∧ e.request.runId = child.runId
  settling : ∀ child, call.phase = .settling child → s.Idle child.runId

namespace Spawn.Fits

variable {s : Runtime D P} {call : Spawn D}

theorem carry {s' : Runtime D P} (h : call.Fits s) (hcarries : Runtime.Carries s s') :
    call.Fits s' where
  known r hr := hcarries.known r (h.known r hr)
  calm := h.calm
  handling := h.handling
  told i hphase hinterrupted := by
    obtain ⟨submit, hsubmit, htold⟩ := h.told i hphase hinterrupted
    exact hcarries.interrupted i submit hsubmit htold
  gathering child t hphase := by
    obtain ⟨e, he, hid⟩ := h.gathering child t hphase
    obtain ⟨e', he', hsame⟩ := hcarries.task t e he
    exact ⟨e', he', (congrArg RunRequest.runId hsame).trans hid⟩
  settling child hphase := by
    refine hcarries.idle _ (h.known _ ?_) (h.settling child hphase)
    rw [hphase]
    rfl

attribute [local simp] SpawnPhase.admitted SpawnPhase.calm SpawnPhase.handling

theorem of_authorizing (h : call.phase = .authorizing ∧ call.interrupted = false) : call.Fits s := by
  constructor <;> simp [h]

theorem of_submitting {i : Nat} (hphase : call.phase = .submitting i)
    (htold : call.interrupted = true → ∃ submit, s.submits[i]? = some submit ∧ submit.interrupted = true) :
    call.Fits s := by
  constructor <;> simp [hphase]
  exact htold

variable {child : RunRecord D}

theorem of_calm (hphase : call.phase = .linking child ∨ call.phase = .waiting child)
    (hknown : s.Known child.runId) (hcalm : call.interrupted = false) : call.Fits s := by
  rcases hphase with hphase | hphase <;> constructor <;> simp [hphase, hcalm, hknown]

theorem of_requesting (hphase : call.phase = .requesting child)
    (hknown : s.Known child.runId) (hinterrupted : call.interrupted = true) : call.Fits s := by
  constructor <;> simp [hphase, hinterrupted, hknown]

theorem of_gathering {t : Nat} (hphase : call.phase = .gathering child t)
    (hknown : s.Known child.runId) (hinterrupted : call.interrupted = true)
    (htask : ∃ e, s.executions[t]? = some e ∧ e.request.runId = child.runId) : call.Fits s := by
  constructor <;> simp [hphase, hinterrupted, hknown, htask]

theorem of_settling (hphase : call.phase = .settling child)
    (hknown : s.Known child.runId) (hinterrupted : call.interrupted = true) (hidle : s.Idle child.runId)
    : call.Fits s := by
  constructor <;> simp [hphase, hinterrupted, hknown, hidle]

theorem of_left
    (hphase : (∃ record, call.phase = .returned record) ∨ ∃ failure child, call.phase = .raised failure child)
    (hknown : ∀ r, call.phase.admitted = some r → s.Known r) : call.Fits s := by
  rcases hphase with ⟨record, hphase⟩ | ⟨failure, child, hphase⟩ <;> refine ⟨hknown, ?_, ?_, ?_, ?_, ?_⟩ <;>
    simp [hphase]

end Spawn.Fits

namespace Runtime

def Fitted (s : Runtime D P) : Prop := ∀ (n : Nat) call, s.spawns[n]? = some call → call.Fits s

def ChildrenFinished (s : Runtime D P) : Prop :=
  ∀ (n : Nat) call failure r, s.spawns[n]? = some call → call.phase = .raised failure (some r) →
    failure = .cancelled ∨ call.interrupted = true → s.Finished r

variable {s s' : Runtime D P}

theorem Owned.idle_of_done (hs : s.Owned) {t : Nat} {e : Execution} {r : String}
    (he : s.executions[t]? = some e) (hid : e.request.runId = r) (hdone : e.done = true) : s.Idle r := by
  intro x other hother hidx
  obtain rfl := hs.distinct t x e other he hother (hid.trans hidx.symm)
  cases he.symm.trans hother
  exact hdone

theorem Tracked.idle_of_untracked (hs : s.Tracked) {r : String} (htask : s.tasks.get? r = none)
    : s.Idle r := by
  intro t e he hid
  by_contra hlive
  rw [Bool.not_eq_true] at hlive
  have hregistered := hs.live t e he hlive
  simp [hid, htask] at hregistered

theorem submitInterrupt_told {i : Nat} (h : s.submitInterrupt i = some s') :
    ∃ submit, s'.submits[i]? = some submit ∧ submit.interrupted = true := by
  unfold submitInterrupt at h
  split at h
  · cases h
  rename_i call hcall
  split at h
  · cases h
    exact ⟨_, (getElem?_set_eq_some hcall).mpr (.inl ⟨rfl, rfl⟩), rfl⟩
  · cases h
  · cases h
    exact ⟨_, (getElem?_set_eq_some hcall).mpr (.inl ⟨rfl, rfl⟩), rfl⟩

variable [DecidableEq D] {env : Environment D}

theorem step_spawns {a : Action D P} (h : s.step env a = some s') :
    (∃ n x call, a = .spawn n x ∧ s.spawns[n]? = some call ∧ SpawnMove env s n call x s') ∨
      (∀ n x, a ≠ .spawn n x) ∧
        Grows (fun call => call.phase = .authorizing ∧ call.interrupted = false) s.spawns s'.spawns := by
  have hsame : s'.spawns = s.spawns →
      Grows (fun call => call.phase = .authorizing ∧ call.interrupted = false) s.spawns s'.spawns := by
    intro heq
    rw [heq]
    exact .refl _
  cases a with
  | call a =>
    cases h
    refine .inr ⟨by simp, ?_⟩
    cases a with
    | spawn parent request context => exact .push ⟨rfl, rfl⟩ s.spawns
    | submit | cancel | start | reconfigure | close => exact .refl _
  | submit i a =>
    obtain ⟨call, -, hmove⟩ := submitStep_moves h
    exact .inr ⟨by simp, hsame (by cases hmove <;> rfl)⟩
  | execution t a =>
    obtain ⟨e, -, hmove⟩ := executionStep_moves h
    exact .inr ⟨by simp, hsame (by cases hmove <;> rfl)⟩
  | cancel k a =>
    obtain ⟨call, -, hmove⟩ := cancelStep_moves h
    exact .inr ⟨by simp, hsame (by cases hmove <;> rfl)⟩
  | prepare g a =>
    obtain ⟨graph, -, hmove⟩ := prepareStep_moves h
    exact .inr ⟨by simp, hsame (by cases hmove <;> rfl)⟩
  | closer c a =>
    obtain ⟨closer, -, hmove⟩ := closingStep_moves h
    exact .inr ⟨by simp, hsame (by cases hmove <;> rfl)⟩
  | start i a =>
    obtain ⟨phase, -, hmove⟩ := startStep_moves h
    have hfail : ∀ t : Runtime D P, (t.startFail i).spawns = t.spawns := by
      intro t
      rcases startFail_cases t i with ⟨g, -, heq⟩ | ⟨-, heq⟩ <;> rw [heq] <;> rfl
    exact .inr ⟨by simp, hsame (by cases hmove <;> first | rfl | exact hfail _)⟩
  | reconfigure k a =>
    obtain ⟨call, -, hmove⟩ := reconfigureStep_moves h
    exact .inr ⟨by simp, hsame (by cases hmove <;> rfl)⟩
  | close j a =>
    obtain ⟨phase, -, hmove⟩ := closeStep_moves h
    have hgraphs : ∀ (t : Runtime D P) graphs, (t.closeGraphs j graphs).spawns = t.spawns := by
      intro t graphs
      cases graphs <;> rfl
    exact .inr ⟨by simp, hsame (by cases hmove <;> first | rfl | exact hgraphs _ _)⟩
  | spawn n a =>
    obtain ⟨call, hcall, hmove⟩ := spawnStep_moves h
    exact .inl ⟨n, a, call, rfl, hcall, hmove⟩
  | host a =>
    cases h
    exact .inr ⟨by simp, hsame (by cases a <;> rfl)⟩

theorem SpawnMove.fits {n : Nat} {call : Spawn D} {x : SpawnAction D P} (hs : s.Sound) (hends : s.Ends)
    (hcarries : Carries s s') (hfits : call.Fits s) (h : SpawnMove env s n call x s') :
    ∃ call', s'.spawns = s.spawns.set n call' ∧ call'.Fits s' := by
  have hknown : ∀ {child : RunRecord D}, call.phase.admitted = some child.runId → s'.Known child.runId :=
    fun hphase => hcarries.known _ (hfits.known _ hphase)
  have hleft : ∀ {failure : Failure} {child : Option String} {interrupted : Bool},
      (∀ r, child = some r → s'.Known r) →
        ({ call with phase := .raised failure child, interrupted } : Spawn D).Fits s' :=
    fun hchild => .of_left (.inr ⟨_, _, rfl⟩) hchild
  have hraised : ∀ {failure : Failure} {child : RunRecord D} {interrupted : Bool},
      call.phase.admitted = some child.runId →
        ({ call with phase := .raised failure (some child.runId), interrupted } : Spawn D).Fits s' := by
    intro failure child interrupted hphase
    refine hleft fun r hr => ?_
    cases hr
    exact hknown hphase
  cases h with
  | submitted hphase =>
    refine ⟨_, rfl, .of_submitting rfl fun hinterrupted => ?_⟩
    have hcalm := hfits.calm (by rw [hphase]; rfl)
    simp [show call.interrupted = true from hinterrupted] at hcalm
  | denied error hphase => exact ⟨_, rfl, hleft fun r hr => by cases hr⟩
  | interruptedEarly hphase => exact ⟨_, rfl, hleft fun r hr => by cases hr⟩
  | cut i submit outcome created hx hphase hsubmit hended hinterrupted =>
    exact ⟨_, rfl, hleft fun r hr => hcarries.known r ((hends i submit outcome created hsubmit hended).1 r hr)⟩
  | admitted i submit record created hphase hsubmit hended hcalm =>
    refine ⟨_, rfl, .of_calm (.inl rfl)
      (hcarries.known _ ((hends i submit _ created hsubmit hended).1 _ rfl)) ?_⟩
    by_contra htold
    rw [Bool.not_eq_false] at htold
    obtain ⟨other, hother, hinterrupted⟩ := hfits.told i hphase htold
    cases hsubmit.symm.trans hother
    simp [hcalm] at hinterrupted
  | refused i submit error created hphase hsubmit hended hcalm =>
    exact ⟨_, rfl, hleft fun r hr =>
      hcarries.known r ((hends i submit _ created hsubmit hended).2 r hr).2⟩
  | linked child ledger hphase hledger =>
    exact ⟨_, rfl, .of_calm (.inr rfl) (hknown (by rw [hphase]; rfl))
      (hfits.calm (by rw [hphase]; rfl))⟩
  | unlinked child error hphase => exact ⟨_, rfl, hraised (by rw [hphase]; rfl)⟩
  | returned child record hphase =>
    exact ⟨_, rfl, .of_left (.inl ⟨record, rfl⟩) fun r hr => by cases hr⟩
  | lost child error hphase herror => exact ⟨_, rfl, hraised (by rw [hphase]; rfl)⟩
  | interruptedSubmit i submitted hphase hsubmit =>
    have htold := submitInterrupt_told hsubmit
    obtain ⟨⟨submits, rfl⟩, -⟩ := idle_submitInterrupt hsubmit
    exact ⟨_, rfl, .of_submitting rfl fun _ => htold⟩
  | interruptedLinking child hx hphase => exact ⟨_, rfl, hraised (by rw [hphase]; rfl)⟩
  | interruptedWaiting child hphase =>
    exact ⟨_, rfl, .of_requesting rfl (hknown (by rw [hphase]; rfl)) rfl⟩
  | interruptedGathering child t hx hphase => exact ⟨_, rfl, hraised (by rw [hphase]; rfl)⟩
  | interruptedHandler child hx hphase =>
    exact ⟨_, rfl, hraised (by rcases hphase with hphase | hphase <;> rw [hphase] <;> rfl)⟩
  | unrequested child error attempt hx hphase hrefused => exact ⟨_, rfl, hraised (by rw [hphase]; rfl)⟩
  | untracked child ledger hphase hledger htask =>
    exact ⟨_, rfl, .of_settling rfl (hknown (by rw [hphase]; rfl))
      (hfits.handling (by rw [hphase]; rfl)) (hs.tracked.idle_of_untracked htask)⟩
  | asked child t ledger hphase hledger htask =>
    refine ⟨_, rfl, .of_gathering rfl (hknown (by rw [hphase]; rfl))
      (hfits.handling (by rw [hphase]; rfl)) ?_⟩
    obtain ⟨e, he, hid⟩ := hs.tracked.task child.runId t htask
    obtain ⟨e', he', hsame⟩ := hcarries.task t e he
    exact ⟨e', he', (congrArg RunRequest.runId hsame).trans hid⟩
  | gathered child t hphase hdone =>
    obtain ⟨e, he, hid⟩ := hfits.gathering child t hphase
    exact ⟨_, rfl, .of_settling rfl (hknown (by rw [hphase]; rfl))
      (hfits.handling (by rw [hphase]; rfl)) (hs.owned.idle_of_done he hid ((taskDone_iff he).mp hdone))⟩
  | settled child record attempt ledger hphase htransition => exact ⟨_, rfl, hraised (by rw [hphase]; rfl)⟩
  | unsettled child error attempt hx hphase hrefused => exact ⟨_, rfl, hraised (by rw [hphase]; rfl)⟩

theorem fitted_step {a : Action D P} (hs : s.Sound) (hends : s.Ends) (hfitted : s.Fitted)
    (h : s.step env a = some s') : s'.Fitted := by
  have hcarries := carries_step hs.owned h
  intro n call' hcall'
  rcases step_spawns h with ⟨m, x, call, rfl, hcall, hmove⟩ | ⟨-, hgrows⟩
  · obtain ⟨moved, hspawns, hfits⟩ := hmove.fits hs hends hcarries (hfitted m call hcall)
    rw [hspawns] at hcall'
    rcases (getElem?_set_eq_some hcall).mp hcall' with ⟨-, rfl⟩ | ⟨-, hsame⟩
    · exact hfits
    · exact (hfitted n call' hsame).carry hcarries
  · rcases hgrows.old hcall' with hold | hnew
    · exact (hfitted n call' hold).carry hcarries
    · exact .of_authorizing hnew

/-! ### Leaving past the handler -/

/-- By the step `x` a cancelled spawn leaves otherwise than at the end of its handler, and `r` is the
child it had admitted. -/
inductive Leaves (env : Environment D) (s : Runtime D P) (call : Spawn D) :
    SpawnAction D P → String → Prop
  | admission (i : Nat) (submit : Submit D) (outcome : Except Failure (RunRecord D))
      (created : Option String) (r : String) (hphase : call.phase = .submitting i)
      (hsubmit : s.submits[i]? = some submit) (hended : submit.phase = .ended outcome created)
      (hinterrupted : submit.interrupted = true) (hadmitted : admittedRun outcome created = some r) :
      Leaves env s call .admitted r
  | interrupted (child : RunRecord D)
      (hphase : call.phase = .linking child ∨ call.phase = .requesting child ∨
        call.phase = .settling child ∨ ∃ t, call.phase = .gathering child t) :
      Leaves env s call .interrupt child.runId
  | unrequested (child : RunRecord D) (error : StoreError) (attempt : Attempt D P)
      (hphase : call.phase = .requesting child)
      (hrefused : (Store.transaction attempt.moment (Store.requestCancel (attempt.host env) child.runId)
        s.ledger).1 = .error error) : Leaves env s call (.request attempt) child.runId
  | unsettled (child : RunRecord D) (error : StoreError) (attempt : Attempt D P)
      (hphase : call.phase = .settling child)
      (hrefused : (Store.transaction attempt.moment (Store.transition (attempt.host env) child.runId
        .cancelled none attempt.moment.now) s.ledger).1 = .error error) :
      Leaves env s call (.settle attempt) child.runId

/-- No cancelled spawn leaves past its handler by this step, unless the child is finished. -/
def Contained (env : Environment D) (s : Runtime D P) (a : Action D P) : Prop :=
  ∀ n x call r, a = .spawn n x → s.spawns[n]? = some call → Leaves env s call x r → s.Finished r

theorem SpawnMove.finished {n : Nat} {call call' : Spawn D} {x : SpawnAction D P} (hends : s.Ends)
    (hcarries : Carries s s') (hfits : call.Fits s) (hcall : s.spawns[n]? = some call)
    (hcontained : ∀ r, Leaves env s call x r → s.Finished r) (h : SpawnMove env s n call x s')
    (hcall' : s'.spawns[n]? = some call') {failure : Failure} {r : String}
    (hraised : call'.phase = .raised failure (some r))
    (hcancelled : failure = .cancelled ∨ call'.interrupted = true) : s'.Finished r := by
  have hset : ∀ {moved : Spawn D}, s'.spawns = s.spawns.set n moved → call' = moved := by
    intro moved hspawns
    rw [hspawns, (getElem?_set_eq_some hcall).mpr (.inl ⟨rfl, rfl⟩)] at hcall'
    exact (Option.some.inj hcall').symm
  have hleft : ∀ {r : String}, s.Known r → Leaves env s call x r → s'.Finished r :=
    fun hknown hleaves => hcarries.finished hknown (hcontained _ hleaves)
  -- A spawn that nothing has cancelled raises what its own calls raise.
  have hcalm : ∀ {f : Failure} {c : Option String}, call.interrupted = false → f ≠ .cancelled →
      call' = { call with phase := .raised f c } → s'.Finished r := by
    rintro f c hnot hf rfl
    cases hraised
    rcases hcancelled with hc | hc
    · exact absurd hc hf
    · simp [show call.interrupted = true from hc] at hnot
  cases h with
  | submitted | admitted | linked | returned | interruptedWaiting | untracked | asked | gathered =>
    obtain rfl := hset rfl
    cases hraised
  | interruptedSubmit i submitted hphase hsubmit =>
    obtain ⟨⟨submits, rfl⟩, -⟩ := idle_submitInterrupt hsubmit
    obtain rfl := hset rfl
    cases hraised
  | denied error hphase =>
    obtain rfl := hset rfl
    cases hraised
  | interruptedEarly hphase =>
    obtain rfl := hset rfl
    cases hraised
  | cut i submit outcome created hx hphase hsubmit hended hinterrupted =>
    obtain rfl := hset rfl
    simp only [SpawnPhase.raised.injEq] at hraised
    obtain ⟨-, hadmitted⟩ := hraised
    subst hx
    exact hleft ((hends i submit outcome created hsubmit hended).1 r hadmitted)
      (.admission i submit outcome created r hphase hsubmit hended hinterrupted hadmitted)
  | refused i submit error created hphase hsubmit hended hnot =>
    have heq := hset rfl
    rw [heq] at hraised
    simp only [SpawnPhase.raised.injEq] at hraised
    obtain ⟨rfl, hcreated⟩ := hraised
    refine hcalm ?_ (fun herror => ?_) heq
    · by_contra htold
      rw [Bool.not_eq_false] at htold
      obtain ⟨other, hother, hinterrupted⟩ := hfits.told i hphase htold
      cases hsubmit.symm.trans hother
      simp [hnot] at hinterrupted
    · exact ((hends i submit _ created hsubmit hended).2 r hcreated).1 (by rw [herror])
  | unlinked child error hphase =>
    exact hcalm (hfits.calm (by rw [hphase]; rfl)) (by simp) (hset rfl)
  | lost child error hphase herror =>
    exact hcalm (hfits.calm (by rw [hphase]; rfl)) herror (hset rfl)
  | interruptedLinking child hx hphase =>
    obtain rfl := hset rfl
    cases hraised
    subst hx
    exact hleft (hfits.known _ (by rw [hphase]; rfl)) (.interrupted child (.inl hphase))
  | interruptedGathering child t hx hphase =>
    obtain rfl := hset rfl
    cases hraised
    subst hx
    exact hleft (hfits.known _ (by rw [hphase]; rfl)) (.interrupted child (.inr (.inr (.inr ⟨t, hphase⟩))))
  | interruptedHandler child hx hphase =>
    obtain rfl := hset rfl
    cases hraised
    subst hx
    rcases hphase with hphase | hphase
    · exact hleft (hfits.known _ (by rw [hphase]; rfl)) (.interrupted child (.inr (.inl hphase)))
    · exact hleft (hfits.known _ (by rw [hphase]; rfl)) (.interrupted child (.inr (.inr (.inl hphase))))
  | unrequested child error attempt hx hphase hrefused =>
    obtain rfl := hset rfl
    cases hraised
    subst hx
    exact hleft (hfits.known _ (by rw [hphase]; rfl)) (.unrequested child error attempt hphase hrefused)
  | unsettled child error attempt hx hphase hrefused =>
    obtain rfl := hset rfl
    cases hraised
    subst hx
    exact hleft (hfits.known _ (by rw [hphase]; rfl)) (.unsettled child error attempt hphase hrefused)
  | settled child record attempt ledger hphase htransition =>
    obtain rfl := hset rfl
    cases hraised
    have hidle := hcarries.idle _ (hfits.known _ (by rw [hphase]; rfl)) (hfits.settling child hphase)
    exact ⟨Store.transition_settles rfl htransition, hidle⟩

theorem childrenFinished_step {a : Action D P} (hs : s.Sound) (hends : s.Ends) (hfitted : s.Fitted)
    (hfinished : s.ChildrenFinished) (ha : s.Contained env a) (h : s.step env a = some s')
    : s'.ChildrenFinished := by
  have hcarries := carries_step hs.owned h
  have hkept : ∀ (n : Nat) call failure r, s.spawns[n]? = some call →
      call.phase = .raised failure (some r) → failure = .cancelled ∨ call.interrupted = true →
        s'.Finished r := by
    intro n call failure r hcall hraised hcancelled
    refine hcarries.finished ((hfitted n call hcall).known r ?_)
      (hfinished n call failure r hcall hraised hcancelled)
    rw [hraised]
    rfl
  intro n call' failure r hcall' hraised hcancelled
  rcases step_spawns h with ⟨m, x, call, rfl, hcall, hmove⟩ | ⟨-, hgrows⟩
  · by_cases hmn : m = n
    · subst hmn
      exact hmove.finished hends hcarries (hfitted m call hcall) hcall
        (fun r hleaves => ha m x call r rfl hcall hleaves) hcall' hraised hcancelled
    · obtain ⟨moved, hspawns, -⟩ := hmove.fits hs hends hcarries (hfitted m call hcall)
      rw [hspawns, List.getElem?_set_ne hmn] at hcall'
      exact hkept n call' failure r hcall' hraised hcancelled
  · rcases hgrows.old hcall' with hold | hnew
    · exact hkept n call' failure r hold hraised hcancelled
    · simp [hnew.1] at hraised

theorem uncontained_step {a : Action D P} (hfitted : s.Fitted) (ha : ¬ s.Contained env a)
    : ∃ s', s.step env a = some s' ∧ ¬ s'.ChildrenFinished := by
  simp only [Contained, not_forall] at ha
  obtain ⟨n, x, call, r, rfl, hcall, hleaves, hunfinished⟩ := ha
  have hraise : ∀ {t : Runtime D P} {raised : Spawn D} {failure : Failure},
      t.spawns = s.spawns.set n raised → raised.phase = .raised failure (some r) →
      failure = .cancelled ∨ raised.interrupted = true → t.ledger = s.ledger →
      SameTasks s.executions t.executions → ¬ t.ChildrenFinished := by
    intro t raised failure hspawns hphase hcancelled hledger htasks hfinished
    have hcall' : t.spawns[n]? = some raised := by
      rw [hspawns, (getElem?_set_eq_some hcall).mpr (.inl ⟨rfl, rfl⟩)]
    obtain ⟨hsettled, hidle⟩ := hfinished n raised failure r hcall' hphase hcancelled
    refine hunfinished ⟨by rwa [hledger] at hsettled, fun y e he hid => ?_⟩
    obtain ⟨e', he', hsame⟩ := htasks.forth he
    rw [← hsame.done]
    exact hidle y e' he' (by rw [hsame.request, hid])
  cases hleaves with
  | admission i submit outcome created r hphase hsubmit hended hinterrupted hadmitted =>
    refine ⟨s.setSpawn n call (.raised .cancelled (admittedRun outcome created)), ?_, ?_⟩
    · simp only [step, spawnStep, spawnAdmitted, hcall, hphase, hsubmit, hended, hinterrupted, if_true]
    · exact hraise rfl (by rw [hadmitted]) (.inl rfl) rfl (.refl _)
  | interrupted child hphase =>
    rcases hphase with hphase | hphase | hphase | ⟨t, hphase⟩
    · refine ⟨s.setSpawn n { call with interrupted := true } (.raised .cancelled (some child.runId)), ?_,
        hraise rfl rfl (.inl rfl) rfl (.refl _)⟩
      simp only [step, spawnStep, spawnInterrupt, hcall, hphase]
    · refine ⟨s.setSpawn n { call with interrupted := true } (.raised .cancelled (some child.runId)), ?_,
        hraise rfl rfl (.inl rfl) rfl (.refl _)⟩
      simp only [step, spawnStep, spawnInterrupt, hcall, hphase]
    · refine ⟨s.setSpawn n { call with interrupted := true } (.raised .cancelled (some child.runId)), ?_,
        hraise rfl rfl (.inl rfl) rfl (.refl _)⟩
      simp only [step, spawnStep, spawnInterrupt, hcall, hphase]
    · refine ⟨(s.cancelTasks [t]).setSpawn n { call with interrupted := true }
        (.raised .cancelled (some child.runId)), ?_,
        hraise rfl rfl (.inl rfl) rfl (idle_cancelTasks s [t])⟩
      simp only [step, spawnStep, spawnInterrupt, hcall, hphase]
  | unrequested child error attempt hphase hrefused =>
    have hinterrupted := (hfitted n call hcall).handling (by rw [hphase]; rfl)
    cases htransaction : Store.transaction attempt.moment
        (Store.requestCancel (attempt.host env) child.runId) s.ledger with
    | mk result ledger =>
      rw [htransaction] at hrefused
      obtain rfl : result = .error error := hrefused
      obtain rfl := Store.transaction_error htransaction
      refine ⟨s.setSpawn n call (.raised (.store error) (some child.runId)), ?_,
        hraise rfl rfl (.inr hinterrupted) rfl (.refl _)⟩
      simp only [step, spawnStep, spawnRequest, hcall, hphase, htransaction]
  | unsettled child error attempt hphase hrefused =>
    have hinterrupted := (hfitted n call hcall).handling (by rw [hphase]; rfl)
    cases htransaction : Store.transaction attempt.moment (Store.transition (attempt.host env)
        child.runId .cancelled none attempt.moment.now) s.ledger with
    | mk result ledger =>
      rw [htransaction] at hrefused
      obtain rfl : result = .error error := hrefused
      obtain rfl := Store.transaction_error htransaction
      refine ⟨s.setSpawn n call (.raised (.store error) (some child.runId)), ?_,
        hraise rfl rfl (.inr hinterrupted) rfl (.refl _)⟩
      simp only [step, spawnStep, spawnSettle, hcall, hphase, htransaction]

/-- In every state of a run each cancelled spawn that has left has left a finished child behind, if and
only if no step of the run takes one past its handler while its child is unfinished. -/
theorem cancelled_parents_finish_their_children (env : Environment D) (ledger : Ledger D P)
    (catalog : Catalog) (initialGeneration : Nat) (ownsStore : Bool) (schedule : List (Action D P)) :
    Along (step env) (Contained env) (construct ledger catalog initialGeneration ownsStore) schedule ↔
      ∀ front s, front <+: schedule →
        run (step env) (construct ledger catalog initialGeneration ownsStore) front = some s →
        s.ChildrenFinished := by
  have hinit : (construct (P := P) ledger catalog initialGeneration ownsStore).Sound ∧
      (construct (P := P) ledger catalog initialGeneration ownsStore).Ends ∧
      (construct (P := P) ledger catalog initialGeneration ownsStore).Fitted :=
    ⟨sound_construct ledger catalog initialGeneration ownsStore,
      fun i call outcome created h => (by cases h), fun n call h => (by cases h)⟩
  have hstep : ∀ (s : Runtime D P) a s', s.Sound ∧ s.Ends ∧ s.Fitted → s.step env a = some s' →
      s'.Sound ∧ s'.Ends ∧ s'.Fitted := fun s a s' hs h =>
    ⟨sound_step hs.1 h, ends_step hs.1 hs.2.1 h, fitted_step hs.1 hs.2.1 hs.2.2 h⟩
  constructor
  · rintro halong front s ⟨rest, rfl⟩ hrun
    refine (run_invariant_along (I := fun s : Runtime D P => (s.Sound ∧ s.Ends ∧ s.Fitted) ∧
      s.ChildrenFinished) ?_ ⟨hinit, fun n call failure r h => (by cases h)⟩
      (along_append.mp halong).1 hrun).2
    rintro s a s' ⟨hs, hfinished⟩ ha h
    exact ⟨hstep s a s' hs h, childrenFinished_step hs.1 hs.2.1 hs.2.2 hfinished ha h⟩
  · intro hfinished
    rw [along_iff]
    intro front a m hbegin hrun
    by_contra hleaves
    have hm := run_invariant hstep hinit hrun
    obtain ⟨s', hnext, hunfinished⟩ := uncontained_step hm.2.2 hleaves
    have hrun' : run (step env) _ (front ++ [a]) = some s' :=
      run_append.mpr ⟨m, hrun, run_cons.mpr ⟨s', hnext, rfl⟩⟩
    exact hunfinished (hfinished _ s' hbegin hrun')

def cutSchedule : List (Action String Nat) :=
  Sample.opening ++ [.call (.spawn "parent" Sample.request Sample.context), .spawn 0 (.authorized none),
    .submit 0 .enter, .submit 0 (.authorized none), .spawn 0 .interrupt, .submit 0 (.accept Sample.calm),
    .submit 0 (.profile Sample.calm), .spawn 0 .admitted, .execution 0 .enter, .execution 0 .advance,
    .execution 0 (.read none), .execution 0 (.claim Sample.calm none), .execution 0 .launch]

/-- The cancellation has left the spawn and the executor of the child is called afterwards. -/
theorem cut_parent_leaves_its_child_running : ∃ s : Runtime String Nat,
    run (step Sample.environment) Sample.runtime cutSchedule = some s ∧
      (s.ledger.runs.get? "run").map RunRow.status = some .running ∧ s.executed = ["run"] ∧
      ¬ s.ChildrenFinished := by
  have htrace : (run (step Sample.environment) Sample.runtime cutSchedule).map (fun s =>
      ((s.ledger.runs.get? "run").map RunRow.status, s.executed, s.ledger.settled "run",
        s.spawns[0]?.bind fun call => match call.phase with
          | .raised .cancelled child => child
          | _ => none)) = some (some .running, ["run"], false, some "run") := by decide +kernel
  obtain ⟨s, hrun, hs⟩ := Option.map_eq_some_iff.mp htrace
  simp only [Prod.mk.injEq] at hs
  obtain ⟨hstatus, hexecuted, hopen, hleft⟩ := hs
  refine ⟨s, hrun, hstatus, hexecuted, fun hfinished => ?_⟩
  obtain ⟨call, hcall, hchild⟩ := Option.bind_eq_some_iff.mp hleft
  split at hchild
  · rename_i child hphase
    obtain rfl := hchild
    have hsettled := (hfinished 0 call .cancelled "run" hcall hphase (.inl rfl)).settled
    simp [hopen] at hsettled
  · cases hchild

end Runtime

end OpenAgent
