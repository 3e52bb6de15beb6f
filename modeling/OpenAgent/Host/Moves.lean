import OpenAgent.Host.System

/-!
# What one step of the hosts can do

Every step is one of the moves below, with all that it checked. A proof about a step goes by cases on
the move and never looks at the step function again.
-/

namespace OpenAgent.Host

open Lib Option Bool

variable {F R : Type} {s s' : System F R} {i h : Nat}

theorem System.host?_eq_some {host : CapabilityHost} :
    s.host? h = some host ↔ s.hosts[h]? = some host ∧ host.alive = true := by
  simp [host?, filter_eq_some_iff]

variable {call call' : Call F R}

theorem System.call?_eq_some :
    s.call? i = some call ↔ s.calls[i]? = some call ∧ ∃ host, s.host? call.host = some host := by
  simp [call?, filter_eq_some_iff, isSome_iff_exists]

theorem orphan_nil : s.orphan h [] = s := by
  simp [System.orphan]

theorem requestCancel_nil : s.requestCancel [] = s := by
  simp [System.requestCancel]

theorem releaseNext_kept {change : ConsentChange} {granted : Nat} {host : CapabilityHost}
    {principals : List String} :
    (s.releaseNext i change granted host principals).calls = s.calls ∧
      (s.releaseNext i change granted host principals).reads = s.reads ∧
      (s.releaseNext i change granted host principals).tables = s.tables ∧
      (s.releaseNext i change granted host principals).jobs = s.jobs := by
  cases principals with
  | nil => exact ⟨rfl, rfl, rfl, rfl⟩
  | cons principal rest => exact ⟨rfl, rfl, rfl, rfl⟩

theorem dispatch_kept :
    (s.dispatch i call).reads = s.reads ∧ (s.dispatch i call).tables = s.tables ∧
      (s.dispatch i call).jobs = s.jobs := by
  rw [System.dispatch]
  split
  · exact ⟨rfl, rfl, rfl⟩
  · split
    · exact ⟨rfl, rfl, rfl⟩
    · exact ⟨rfl, rfl, rfl⟩

variable {job : Job F R}

theorem mem_orphan {ops : List (Op F R)} :
    job ∈ (s.orphan h ops).jobs ↔ job ∈ s.jobs ∨ ∃ op ∈ ops, job = ⟨h, op⟩ := by
  simp [System.orphan, eq_comm]

theorem executes_operate (h : s.executes (.operate i) = some job) :
    ∃ call op, s.call? i = some call ∧ call.pending i = some op ∧ job = ⟨call.host, op⟩ := by
  obtain ⟨call, hcall, h⟩ := Option.bind_eq_some_iff.mp h
  obtain ⟨op, hop, h⟩ := Option.bind_eq_some_iff.mp h
  exact ⟨call, op, hcall, hop, (some.inj h).symm⟩

theorem executes_operateRelease (h : s.executes (.operateRelease i) = some job) :
    ∃ release, s.release? i = some release ∧ release.phase = .releasing ∧
      job = ⟨release.host, .releasePrincipal release.principal⟩ := by
  obtain ⟨release, hrelease, h⟩ := Option.bind_eq_some_iff.mp h
  split at h
  · rename_i hphase
    exact ⟨release, hrelease, hphase, (some.inj h).symm⟩
  · cases h

theorem executes_operateClose (h : s.executes (.operateClose i) = some job) :
    ∃ closing principal rest, s.closing? i = some closing ∧
      closing.phase = .releasing (principal :: rest) ∧
      job = ⟨closing.host, .releasePrincipal principal⟩ := by
  obtain ⟨closing, hclosing, h⟩ := Option.bind_eq_some_iff.mp h
  split at h
  · rename_i principal rest hphase
    exact ⟨closing, principal, rest, hclosing, hphase, (some.inj h).symm⟩
  · cases h

def CapabilityHost.unretained (principal : String) (host : CapabilityHost) : CapabilityHost :=
  { host with retainedLeasePrincipals := host.retainedLeasePrincipals.erase principal }

def CapabilityHost.retaining (principal : String) (host : CapabilityHost) : CapabilityHost :=
  { host with retainedLeasePrincipals := host.retainedLeasePrincipals.insert principal }

def Phase.locked : Phase R → Bool
  | .admitted => true
  | .claiming => true
  | .claimed _ => true
  | .entering => true
  | .entered => true
  | .leavingEarly => true
  | .abandoningEarly => true
  | .unlocking => true
  | _ => false

def ConsentPhase.locked : ConsentPhase → Bool
  | .gathering _ _ => true
  | .releasing _ _ _ => true
  | .stopping _ => true
  | _ => false

def ClosePhase.locked : ClosePhase → Bool
  | .gathering _ => true
  | .stopping => true
  | .releasing _ => true
  | _ => false

/-- Where an interruption, or the end of its task, may leave a call. -/
inductive Call.Landed (call : Call F R) : Phase R → Bool → Prop
  | stayed : Landed call call.phase call.leaseIndeterminate
  | back (hlocked : call.phase.locked = true) {phase : Phase R}
      (hback : phase = .unlocking ∨ phase = .abandoningEarly) : Landed call phase call.leaseIndeterminate
  | dropped (hphase : call.phase = .waiting ∨ call.phase = .leaving ∨ call.phase = .left) :
      Landed call .finished call.leaseIndeterminate
  | on (hrenewing : call.phase.renewing = true) {phase : Phase R} {indeterminate : Bool}
      (hphase : phase.renewing = true ∨ phase = .closing)
      (hindeterminate : indeterminate = call.leaseIndeterminate ∨
        indeterminate = true ∧ phase = .marking ∧ call.safeRetry = false) :
      Landed call phase indeterminate

theorem Call.cutShort_landed (hphase : call.phase = .awaiting) :
    ∃ phase indeterminate,
      call.cutShort = { call with phase := phase, leaseIndeterminate := indeterminate } ∧
        call.Landed phase indeterminate := by
  rw [cutShort]
  split
  · exact ⟨_, _, rfl, .on (by rw [hphase]; rfl) (.inl rfl) (.inl rfl)⟩
  · split
    · exact ⟨_, _, rfl, .on (by rw [hphase]; rfl) (.inl rfl) (.inl rfl)⟩
    · rename_i hsafe
      exact ⟨_, _, rfl, .on (by rw [hphase]; rfl) (.inl rfl) (.inr ⟨rfl, rfl, by simpa using hsafe⟩)⟩

theorem Call.failed_landed (hphase : call.phase = .awaiting) {external : Bool} {result : R} :
    ∃ phase indeterminate, call.failed external result =
        { call with phase := phase, leaseIndeterminate := indeterminate } ∧
      call.Landed phase indeterminate := by
  rw [failed]
  split
  · rename_i hcond
    have hsafe : call.safeRetry = false := by
      simp only [and_eq_true, not_eq_true'] at hcond
      exact hcond.1
    exact ⟨_, _, rfl, .on (by rw [hphase]; rfl) (.inl rfl) (.inr ⟨rfl, rfl, hsafe⟩)⟩
  · exact ⟨_, _, rfl, .on (by rw [hphase]; rfl) (.inl rfl) (.inl rfl)⟩

theorem Call.settled_landed {config : HostConfig R} (hphase : call.phase = .awaiting) {external : Bool}
    {outcome : Outcome R} :
    ∃ phase indeterminate, call.settled config external outcome =
        { call with phase := phase, leaseIndeterminate := indeterminate } ∧
      call.Landed phase indeterminate := by
  cases outcome with
  | returned result => exact ⟨_, _, rfl, .on (by rw [hphase]; rfl) (.inl rfl) (.inl rfl)⟩
  | hostError code message => exact Call.failed_landed hphase
  | timeout text => exact Call.cutShort_landed hphase
  | cancelled => exact Call.cutShort_landed hphase
  | raised text => exact Call.failed_landed hphase

theorem Call.drained_landed {config : HostConfig R} (hphase : call.phase = .draining) {outcome : Outcome R} :
    ∃ phase indeterminate, call.drained config outcome =
        { call with phase := phase, leaseIndeterminate := indeterminate } ∧
      call.Landed phase indeterminate := by
  have hrenewing : call.phase.renewing = true := by rw [hphase]; rfl
  cases outcome with
  | cancelled => exact ⟨_, _, rfl, .on hrenewing (.inr rfl) (.inl rfl)⟩
  | _ => exact ⟨_, _, rfl, .on hrenewing (.inl rfl) (.inl rfl)⟩

theorem Call.interrupted_landed :
    ∃ phase indeterminate,
      call.interrupted = { call with phase := phase, leaseIndeterminate := indeterminate } ∧
        call.Landed phase indeterminate := by
  cases hphase : call.phase with
  | awaiting =>
    simp only [interrupted, hphase]
    split
    · exact ⟨_, _, rfl, .stayed⟩
    · exact Call.cutShort_landed hphase
  | waiting =>
    simp only [interrupted, hphase]
    exact ⟨_, _, rfl, .dropped (.inl hphase)⟩
  | leaving =>
    simp only [interrupted, hphase]
    exact ⟨_, _, rfl, .dropped (.inr (.inl hphase))⟩
  | left =>
    simp only [interrupted, hphase]
    exact ⟨_, _, rfl, .dropped (.inr (.inr hphase))⟩
  | entering =>
    simp only [interrupted, hphase]
    exact ⟨_, _, rfl, .back (by rw [hphase]; rfl) (.inr rfl)⟩
  | entered =>
    simp only [interrupted, hphase]
    exact ⟨_, _, rfl, .back (by rw [hphase]; rfl) (.inr rfl)⟩
  | admitted | claiming | claimed | leavingEarly | abandoningEarly =>
    simp only [interrupted, hphase]
    exact ⟨_, _, rfl, .back (by rw [hphase]; rfl) (.inl rfl)⟩
  | draining | completing | marking | abandoning =>
    simp only [interrupted, hphase]
    exact ⟨_, _, rfl, .on (by rw [hphase]; rfl) (.inr rfl) (.inl rfl)⟩
  | unlocking | closing | finished =>
    simp only [interrupted, hphase]
    exact ⟨_, _, rfl, .stayed⟩

/-! ### The two halves of a call -/

/-- The phases of `_admit_call`. -/
def Phase.early : Phase R → Bool
  | .waiting => true
  | phase => phase.locked

def Phase.late : Phase R → Bool
  | .awaiting => true
  | .draining => true
  | .completing _ => true
  | .marking => true
  | .abandoning => true
  | .closing => true
  | .leaving => true
  | .left => true
  | _ => false

structure Call.Staged (call : Call F R) : Prop where
  early : call.phase.early = true → call.task = none
  late : call.phase.late = true → call.task.isSome = true

variable {phase : Phase R}

theorem Phase.early_of_locked (h : phase.locked = true) : phase.early = true := by
  cases phase with
  | waiting => rfl
  | _ => exact h

theorem Phase.early_answered {reply : Except HostException (Reply R)}
    (h : (phase.answered reply).early = true) : phase.early = true := by
  cases phase with
  | leaving =>
    cases reply with
    | ok => exact h
    | error => exact h
  | _ => first | exact h | rfl

theorem Phase.late_answered {reply : Except HostException (Reply R)}
    (h : (phase.answered reply).late = true) : phase.late = true := by
  cases phase with
  | claiming =>
    cases reply with
    | ok reply =>
      cases reply with
      | claimed => exact h
      | done => exact h
    | error => exact h
  | entering =>
    cases reply with
    | ok => exact h
    | error => exact h
  | leavingEarly =>
    cases reply with
    | ok => exact h
    | error => exact h
  | _ => first | exact h | rfl

theorem Phase.late_of_renewing (h : phase.renewing = true) : phase.late = true := by
  cases phase with
  | _ => first | rfl | cases h

theorem Phase.early_of_late (h : phase.late = true) : phase.early = false := by
  cases phase with
  | _ => first | rfl | cases h

theorem Call.Staged.of_early (h : call.phase.early = true) (htask : call.task = none) : call.Staged := by
  refine ⟨fun _ => htask, fun hlate => ?_⟩
  simp [Phase.early_of_late hlate] at h

theorem Call.Staged.of_late (h : call.phase.late = true) (htask : call.task.isSome = true) :
    call.Staged := by
  refine ⟨fun hearly => ?_, fun _ => htask⟩
  simp [Phase.early_of_late h] at hearly

theorem Call.Staged.of_over (h : call.phase = .finished) : call.Staged := by
  refine ⟨fun hearly => ?_, fun hlate => ?_⟩
  · rw [h] at hearly
    cases hearly
  · rw [h] at hlate
    cases hlate

variable [DecidableEq F]

inductive Move (config : HostConfig R) (s : System F R) : Action F R → System F R → Prop
  | booted : Move config s .boot { s with hosts := s.hosts ++ [.booted] }
  | crashed {h : Nat} :
      Move config s (.crash h) (s.onHost h fun host => { host with alive := false })
  | ticked {now : Int} (hnow : s.now ≤ now) : Move config s (.tick now) { s with now := now }
  | called {h : Nat} {request : Request F} {host : CapabilityHost} (hhost : s.host? h = some host) :
      Move config s (.call h request)
        (({ s with calls := s.calls ++ [{ host := h, request := request }] } : System F R).onHost h
          fun host => { host with principals := host.principals.insert request.principal })
  | acquired {i : Nat} {call : Call F R} {host : CapabilityHost} (hcall : s.call? i = some call)
      (hhost : s.host? call.host = some host) (hphase : call.phase = .waiting)
      (hfree : host.admission = none) :
      Move config s (.acquire i) ((s.setCall i { call with phase := .admitted }).onHost call.host
        fun host => { host with admission := some (.call i) })
  | admitted {i : Nat} {call : Call F R} {tool : Option Tool} (hcall : s.call? i = some call)
      (hphase : call.phase = .admitted) (hconsent : s.consent = true) :
      Move config s (.admitCall i tool) (s.setCall i { call with phase := .claiming, tool := tool })
  | refused {i : Nat} {call : Call F R} {tool : Option Tool} (hcall : s.call? i = some call)
      (hphase : call.phase = .admitted) :
      Move config s (.admitCall i tool) (s.setCall i { call with phase := .unlocking })
  | operated {i : Nat} {call : Call F R} {op : Op F R} (hcall : s.call? i = some call)
      (hop : call.pending i = some op) :
      Move config s (.operate i) ((s.ran config ⟨call.host, op⟩).2.setCall i
        { call with phase := call.phase.answered (s.ran config ⟨call.host, op⟩).1 })
  | faulted {i : Nat} {call : Call F R} {op : Op F R} {text : String} (hcall : s.call? i = some call)
      (hop : call.pending i = some op) :
      Move config s (.fault i text)
        (s.setCall i { call with phase := call.phase.answered (.error (.python text)) })
  | renewerFailed {i : Nat} {call : Call F R} {text : String} (hcall : s.call? i = some call)
      (hphase : call.phase = .closing) :
      Move config s (.fault i text) (s.setCall i { call with
        phase := .finished
        kept := if call.leaseIndeterminate then s.tables.lease.expiryOf i else call.kept })
  | interrupted {i : Nat} {call : Call F R} (hcall : s.call? i = some call) (requests : List TaskRef) :
      Move config s (.interrupt i)
        (((s.setCall i call.interrupted).orphan call.host (call.pending i).toList).requestCancel requests)
  | replayed {i : Nat} {call : Call F R} {external : Bool} {result : R} (hcall : s.call? i = some call)
      (hphase : call.phase = .claimed (.replay result)) :
      Move config s (.resume i external) (s.setCall i { call with phase := .unlocking })
  | entering {i : Nat} {call : Call F R} {external : Bool} (hcall : s.call? i = some call)
      (hphase : call.phase = .claimed .new) (hmutating : call.mutating = true) :
      Move config s (.resume i external) (s.setCall i { call with phase := .entering })
  | dispatched {i : Nat} {call : Call F R} {external : Bool} (hcall : s.call? i = some call)
      (hphase : call.phase = .claimed .new) (hmutating : call.mutating = false) :
      Move config s (.resume i external) (s.dispatch i call)
  | enteredThen {i : Nat} {call : Call F R} {external : Bool} (hcall : s.call? i = some call)
      (hphase : call.phase = .entered) :
      Move config s (.resume i external)
        ((s.dispatch i call).onHost call.host (.unretained call.request.principal))
  | unlocked {i : Nat} {call : Call F R} {external : Bool} (hcall : s.call? i = some call)
      (hphase : call.phase = .unlocking) :
      Move config s (.resume i external) ((s.setCall i { call with phase := .finished }).onHost call.host
        fun host => { host with admission := none })
  | settled {i : Nat} {call : Call F R} {external : Bool} {outcome : Outcome R}
      (hcall : s.call? i = some call) (hphase : call.phase = .awaiting)
      (htask : call.task = some (.ended outcome)) :
      Move config s (.resume i external) (s.setCall i (call.settled config external outcome))
  | drained {i : Nat} {call : Call F R} {external : Bool} {outcome : Outcome R}
      (hcall : s.call? i = some call) (hphase : call.phase = .draining)
      (htask : call.task = some (.ended outcome)) :
      Move config s (.resume i external) (s.setCall i (call.drained config outcome))
  | kept {i : Nat} {call : Call F R} {external : Bool} (hcall : s.call? i = some call)
      (hphase : call.phase = .closing) (hmutating : call.mutating = true)
      (hindeterminate : call.leaseIndeterminate = true) :
      Move config s (.resume i external)
        ((s.finish i { call with kept := s.tables.lease.expiryOf i }).onHost call.host
          (.retaining call.request.principal))
  | leaving {i : Nat} {call : Call F R} {external : Bool} (hcall : s.call? i = some call)
      (hphase : call.phase = .closing) (hmutating : call.mutating = true)
      (hcertain : call.leaseIndeterminate = false) :
      Move config s (.resume i external) (s.setCall i { call with phase := .leaving })
  | finished {i : Nat} {call : Call F R} {external : Bool} (hcall : s.call? i = some call)
      (hphase : call.phase = .closing ∧ call.mutating = false ∨ call.phase = .left) :
      Move config s (.resume i external) (s.finish i call)
  | taskEnded {i : Nat} {call : Call F R} {outcome : Outcome R} (hcall : s.call? i = some call)
      (hrunning : call.running = true) :
      Move config s (.taskEnds i outcome) (s.setCall i { call with task := some (.ended outcome) })
  | renewed {i : Nat} {call : Call F R} (hcall : s.call? i = some call)
      (hphase : call.phase.renewing = true) :
      Move config s (.renew i) (s.orphan call.host call.request.renewals)
  | worked {n : Nat} {job : Job F R} (hjob : s.executes (.job n) = some job) :
      Move config s (.job n) { (s.ran config job).2 with jobs := s.jobs.eraseIdx n }
  | cancelled {h : Nat} {callId : String} (task : TaskRef) :
      Move config s (.cancel h callId) (s.requestCancel [task])
  | readOpened {h : Nat} {principal callId : String} :
      Move config s (.read h principal callId)
        { s with reads := s.reads ++ [{ host := h, principal := principal, callId := callId }] }
  | readAdmitted {i : Nat} {read : Read} {host : CapabilityHost} {declared : Bool}
      (hread : s.read? i = some read) (hhost : s.host? read.host = some host)
      (hphase : read.phase = .waiting) (hfree : host.admission = none) (hconsent : s.consent = true)
      (hnew : host.active.get? read.callId = none) :
      Move config s (.admitRead i declared)
        ((s.setRead i { read with phase := .running, grants := s.grants }).onHost read.host
          fun host => { host with
            principals := host.principals.insert read.principal
            active := host.active.set read.callId ⟨.read i, read.principal⟩ })
  | readRefused {i : Nat} {read : Read} {declared : Bool} (hread : s.read? i = some read)
      (hphase : read.phase = .waiting) :
      Move config s (.admitRead i declared) (s.setRead i { read with phase := .finished })
  | readEnded {i : Nat} {read : Read} (hread : s.read? i = some read) (hphase : read.phase = .running) :
      Move config s (.readEnds i) (s.setRead i { read with phase := .ended })
  | readOver {i : Nat} {read : Read} (hread : s.read? i = some read) (hphase : read.phase = .ended) :
      Move config s (.resumeRead i) ((s.setRead i { read with phase := .finished }).onHost read.host
        fun host => { host with active := host.active.pop read.callId })
  | releaseOpened {h : Nat} {principal : String} :
      Move config s (.releasePrincipal h principal)
        { s with releases := s.releases ++ [⟨h, principal, .waiting⟩] }
  | releaseMoved {a : Action F R} {i : Nat} {release : Release} (hquiet : s.executes a = none)
      (hrelease : s.release? i = some release) (phase : ReleasePhase) (requests : List TaskRef) :
      Move config s a ((s.requestCancel requests).setRelease i release phase)
  | released {i : Nat} {release : Release} (hrelease : s.release? i = some release) :
      Move config s (.resumeRelease i) ((s.setRelease i release .finished).discard release.host release.principal)
  | releaseOperated {i : Nat} {release : Release} (hrelease : s.release? i = some release)
      (hphase : release.phase = .releasing) :
      Move config s (.operateRelease i)
        (((s.ran config ⟨release.host, .releasePrincipal release.principal⟩).2.setRelease i release
          .finished).discard release.host release.principal)
  | releaseFailed {i : Nat} {later : Bool} {release : Release} (hrelease : s.release? i = some release)
      {ops : List (Op F R)} (hops : ∀ op ∈ ops, ∃ principal, op = .releasePrincipal principal) :
      Move config s (.failRelease i later) ((s.setRelease i release .failed).orphan release.host ops)
  | changeOpened {h : Nat} {enabled : Bool} :
      Move config s (.setConsent h enabled)
        { s with changes := s.changes ++ [{ host := h, enabled := enabled }] }
  | granted {i : Nat} {change : ConsentChange} (hchange : s.change? i = some change)
      (hphase : change.phase = .waiting) :
      Move config s (.writeConsent i)
        (({ s.onHost change.host fun host => { host with consentLock := some i } with
          consent := true, grants := s.grants + 1 } : System F R).setChange i change .enabling)
  | withdrawing {i : Nat} {change : ConsentChange} (hchange : s.change? i = some change)
      (hphase : change.phase = .waiting) :
      Move config s (.writeConsent i)
        (({ s.onHost change.host fun host => { host with consentLock := some i } with
          consent := false } : System F R).setChange i change (.barrier s.grants))
  | enabledOver {a : Action F R} {i : Nat} {change : ConsentChange} (hquiet : s.executes a = none)
      (hchange : s.change? i = some change)
      (hphase : change.phase = .enabling ∨ ∃ granted, change.phase = .barrier granted) :
      Move config s a ((s.setChange i change .finished).onHost change.host
        fun host => { host with consentLock := none })
  | changeDropped {i : Nat} {change : ConsentChange} (hchange : s.change? i = some change)
      (hphase : change.phase = .waiting) :
      Move config s (.failConsent i) (s.setChange i change .finished)
  | gathering {i : Nat} {change : ConsentChange} {host : CapabilityHost} {granted : Nat}
      (hchange : s.change? i = some change) (hhost : s.host? change.host = some host)
      (hphase : change.phase = .barrier granted) (hfree : host.admission = none) :
      Move config s (.resumeConsent i) (((s.requestCancel host.cancellable).setChange i change
        (.gathering granted (host.active.values.map ActiveEntry.task))).onHost change.host
          fun host => { host with admission := some (.consent i) })
  | gathered {i : Nat} {change : ConsentChange} {host : CapabilityHost} {granted : Nat}
      {tasks : List TaskRef} (hchange : s.change? i = some change)
      (hhost : s.host? change.host = some host) (hphase : change.phase = .gathering granted tasks)
      (hdone : tasks.all s.taskDone = true) (principals : List String) :
      Move config s (.resumeConsent i) (s.releaseNext i change granted host principals)
  | releasedNext {i : Nat} {change : ConsentChange} {host : CapabilityHost} {granted release : Nat}
      {rest : List String} (hchange : s.change? i = some change)
      (hhost : s.host? change.host = some host)
      (hphase : change.phase = .releasing granted release rest) :
      Move config s (.resumeConsent i) (s.releaseNext i change granted host rest)
  | withdrawn {i : Nat} {change : ConsentChange} {granted : Nat} (hchange : s.change? i = some change)
      (hphase : change.phase = .stopping granted) :
      Move config s (.resumeConsent i)
        ((s.setChange i change (.withdrawn granted)).unlockBoth change.host)
  | changeFailed {a : Action F R} {i : Nat} {change : ConsentChange} (hquiet : s.executes a = none)
      (hchange : s.change? i = some change) (hlocked : change.phase.locked = true) :
      Move config s a ((s.setChange i change .finished).unlockBoth change.host)
  | closeOpened {h : Nat} :
      Move config s (.close h) (({ s with closings := s.closings ++ [{ host := h }] } : System F R).onHost h
        fun host => { host with closing := true })
  | closeLocked {i : Nat} {closing : Closing} {host : CapabilityHost}
      (hclosing : s.closing? i = some closing) (hhost : s.host? closing.host = some host)
      (hphase : closing.phase = .waiting) (hfree : host.admission = none) (tasks : List TaskRef) :
      Move config s (.resumeClose i) (((s.requestCancel host.cancellable).setClosing i closing
        (.gathering tasks)).onHost closing.host fun host => { host with admission := some (.close i) })
  | closeMoved {a : Action F R} {i : Nat} {closing : Closing} (hquiet : s.executes a = none)
      (hclosing : s.closing? i = some closing) (hlocked : closing.phase.locked = true) {phase : ClosePhase} (hphase : phase.locked = true) :
      Move config s a (s.setClosing i closing phase)
  | closeOperated {i : Nat} {closing : Closing} {principal : String} {rest : List String}
      (hclosing : s.closing? i = some closing)
      (hphase : closing.phase = .releasing (principal :: rest)) :
      Move config s (.operateClose i)
        ((s.ran config ⟨closing.host, .releasePrincipal principal⟩).2.setClosing i closing
          (.releasing rest))
  | closeDropped {i : Nat} {later : Bool} {closing : Closing} (hclosing : s.closing? i = some closing)
      (hphase : closing.phase = .waiting) :
      Move config s (.failClose i later) (s.setClosing i closing .finished)
  | closed {a : Action F R} {i : Nat} {closing : Closing} (hquiet : s.executes a = none)
      (hclosing : s.closing? i = some closing) (hlocked : closing.phase.locked = true)
      {ops : List (Op F R)} (hops : ∀ op ∈ ops, ∃ principal, op = .releasePrincipal principal) :
      Move config s a (((s.setClosing i closing .finished).orphan closing.host ops).onHost closing.host
        fun host => { host with admission := none })

variable {config : HostConfig R}

theorem resume_cases {external : Bool} (h : s.resume config i external = some s') :
    Move config s (.resume i external) s' := by
  obtain ⟨call, hcall, h⟩ := Option.bind_eq_some_iff.mp h
  cases hphase : call.phase with
  | claimed answer =>
    cases answer with
    | replay result =>
      simp only [hphase, Option.some.injEq] at h
      subst h
      exact .replayed hcall hphase
    | new =>
      simp only [hphase] at h
      cases hmutating : call.mutating with
      | true =>
        simp only [hmutating, if_true, Option.some.injEq] at h
        subst h
        exact .entering hcall hphase hmutating
      | false =>
        simp only [hmutating, false_eq_true, if_false, Option.some.injEq] at h
        subst h
        exact .dispatched hcall hphase hmutating
  | entered =>
    simp only [hphase, Option.some.injEq] at h
    subst h
    exact .enteredThen hcall hphase
  | unlocking =>
    simp only [hphase, Option.some.injEq] at h
    subst h
    exact .unlocked hcall hphase
  | awaiting =>
    simp only [hphase] at h
    split at h
    · rename_i outcome htask
      cases h
      exact .settled hcall hphase htask
    · cases h
  | draining =>
    simp only [hphase] at h
    split at h
    · rename_i outcome htask
      cases h
      exact .drained hcall hphase htask
    · cases h
  | closing =>
    simp only [hphase] at h
    split at h
    · rename_i hcond
      obtain ⟨hmutating, hindeterminate⟩ := Bool.and_eq_true_iff.mp hcond
      cases h
      rw [← hphase]
      exact .kept hcall hphase hmutating hindeterminate
    · rename_i hcond
      split at h
      · rename_i hmutating
        cases h
        exact .leaving hcall hphase hmutating (by simpa [hmutating] using hcond)
      · rename_i hmutating
        cases h
        exact .finished hcall (.inl ⟨hphase, by simpa using hmutating⟩)
  | left =>
    simp only [hphase, Option.some.injEq] at h
    subst h
    exact .finished hcall (.inr hphase)
  | _ => simp [hphase] at h

theorem resumeConsent_cases (h : s.resumeConsent i = some s') : Move config s (.resumeConsent i) s' := by
  obtain ⟨change, hchange, h⟩ := Option.bind_eq_some_iff.mp h
  obtain ⟨host, hhost, h⟩ := Option.bind_eq_some_iff.mp h
  cases hphase : change.phase with
  | enabling =>
    simp only [hphase, Option.some.injEq] at h
    subst h
    exact .enabledOver rfl hchange (.inl hphase)
  | barrier granted =>
    simp only [hphase] at h
    split at h
    · rename_i hfree
      cases h
      exact .gathering hchange hhost hphase hfree
    · cases h
  | gathering granted tasks =>
    simp only [hphase] at h
    split at h
    · rename_i hdone
      cases h
      exact .gathered hchange hhost hphase hdone _
    · cases h
  | releasing granted release rest =>
    simp only [hphase] at h
    split at h
    · cases h
      exact .releasedNext hchange hhost hphase
    · cases h
      exact .changeFailed rfl hchange (by rw [hphase]; rfl)
    · cases h
  | stopping granted =>
    simp only [hphase, Option.some.injEq] at h
    subst h
    exact .withdrawn hchange hphase
  | _ => simp [hphase] at h

theorem failConsent_cases (h : s.failConsent i = some s') : Move config s (.failConsent i) s' := by
  obtain ⟨change, hchange, h⟩ := Option.bind_eq_some_iff.mp h
  cases hphase : change.phase with
  | waiting =>
    simp only [hphase, Option.some.injEq] at h
    subst h
    exact .changeDropped hchange hphase
  | enabling =>
    simp only [hphase, Option.some.injEq] at h
    subst h
    exact .enabledOver rfl hchange (.inl hphase)
  | barrier granted =>
    simp only [hphase, Option.some.injEq] at h
    subst h
    exact .enabledOver rfl hchange (.inr ⟨granted, hphase⟩)
  | gathering granted tasks =>
    simp only [hphase, Option.some.injEq] at h
    subst h
    exact .changeFailed rfl hchange (by rw [hphase]; rfl)
  | stopping granted =>
    simp only [hphase, Option.some.injEq] at h
    subst h
    exact .changeFailed rfl hchange (by rw [hphase]; rfl)
  | _ => simp [hphase] at h

theorem resumeClose_cases (h : s.resumeClose i = some s') : Move config s (.resumeClose i) s' := by
  obtain ⟨closing, hclosing, h⟩ := Option.bind_eq_some_iff.mp h
  obtain ⟨host, hhost, h⟩ := Option.bind_eq_some_iff.mp h
  cases hphase : closing.phase with
  | waiting =>
    simp only [hphase] at h
    split at h
    · rename_i hfree
      cases h
      exact .closeLocked hclosing hhost hphase hfree _
    · cases h
  | gathering tasks =>
    simp only [hphase] at h
    split at h
    · cases h
      exact .closeMoved rfl hclosing (by rw [hphase]; rfl) rfl
    · cases h
  | stopping =>
    simp only [hphase, Option.some.injEq] at h
    subst h
    exact .closeMoved rfl hclosing (by rw [hphase]; rfl) rfl
  | releasing principals =>
    cases principals with
    | nil =>
      simp only [hphase, Option.some.injEq] at h
      subst h
      have hclosed : Move config s (.resumeClose i) _ :=
        .closed rfl hclosing (by rw [hphase]; rfl) (List.forall_mem_nil _)
      rwa [orphan_nil] at hclosed
    | cons principal rest => simp [hphase] at h
  | finished => simp [hphase] at h

variable {a : Action F R}

theorem step_cases [DecidableEq R] (h : step config s a = some s') : Move config s a s' := by
  cases a with
  | boot =>
    cases h
    exact .booted
  | crash h' =>
    obtain ⟨host, -, rfl⟩ := Option.map_eq_some_iff.mp h
    exact .crashed
  | tick now =>
    rw [step] at h
    split at h
    · rename_i hnow
      cases h
      exact .ticked hnow
    · cases h
  | call h' request =>
    obtain ⟨host, hhost, rfl⟩ := Option.map_eq_some_iff.mp h
    exact .called hhost
  | acquire i =>
    obtain ⟨call, hcall, h⟩ := Option.bind_eq_some_iff.mp h
    obtain ⟨host, hhost, h⟩ := Option.bind_eq_some_iff.mp h
    split at h
    · rename_i hcond
      cases h
      exact .acquired hcall hhost hcond.1 hcond.2
    · cases h
  | admitCall i tool =>
    obtain ⟨call, hcall, h⟩ := Option.bind_eq_some_iff.mp h
    split at h
    · rename_i hphase
      split at h
      · rename_i hcond
        cases h
        exact .admitted hcall hphase hcond.1
      · cases h
        exact .refused hcall hphase
    · cases h
  | operate i =>
    obtain ⟨job, hjob, h⟩ := Option.bind_eq_some_iff.mp h
    obtain ⟨call', op, hcall', hop, rfl⟩ := executes_operate hjob
    obtain ⟨call, hcall, h⟩ := Option.bind_eq_some_iff.mp h
    cases hcall'.symm.trans hcall
    cases h
    exact .operated hcall hop
  | fault i text =>
    obtain ⟨call, hcall, h⟩ := Option.bind_eq_some_iff.mp h
    split at h
    · rename_i op hop
      cases h
      exact .faulted hcall hop
    · split at h
      · rename_i hphase
        cases h
        exact .renewerFailed hcall hphase
      · cases h
  | interrupt i =>
    obtain ⟨call, hcall, h⟩ := Option.bind_eq_some_iff.mp h
    cases h
    exact .interrupted hcall _
  | resume i external => exact resume_cases h
  | taskEnds i outcome =>
    obtain ⟨call, hcall, h⟩ := Option.bind_eq_some_iff.mp h
    split at h
    · rename_i hrunning
      cases h
      exact .taskEnded hcall hrunning
    · cases h
  | renew i =>
    obtain ⟨call, hcall, h⟩ := Option.bind_eq_some_iff.mp h
    split at h
    · rename_i hphase
      cases h
      exact .renewed hcall hphase
    · cases h
  | job n =>
    obtain ⟨job, hjob, h⟩ := Option.bind_eq_some_iff.mp h
    cases h
    exact .worked hjob
  | cancel h' callId =>
    obtain ⟨host, -, h⟩ := Option.bind_eq_some_iff.mp h
    obtain ⟨entry, -, h⟩ := Option.bind_eq_some_iff.mp h
    split at h
    · cases h
      exact .cancelled entry.task
    · cases h
  | read h' principal callId =>
    obtain ⟨host, -, rfl⟩ := Option.map_eq_some_iff.mp h
    exact .readOpened
  | admitRead i declared =>
    obtain ⟨read, hread, h⟩ := Option.bind_eq_some_iff.mp h
    obtain ⟨host, hhost, h⟩ := Option.bind_eq_some_iff.mp h
    split at h
    · rename_i hcond
      split at h
      · rename_i hchecks
        cases h
        simp only [and_eq_true, not_eq_true', Dict.contains,
          isSome_eq_false_iff, isNone_iff_eq_none] at hchecks
        exact .readAdmitted hread hhost hcond.1 hcond.2 hchecks.1.1.1.2 hchecks.2
      · cases h
        exact .readRefused hread hcond.1
    · cases h
  | readEnds i =>
    obtain ⟨read, hread, h⟩ := Option.bind_eq_some_iff.mp h
    split at h
    · rename_i hphase
      cases h
      exact .readEnded hread hphase
    · cases h
  | resumeRead i =>
    obtain ⟨read, hread, h⟩ := Option.bind_eq_some_iff.mp h
    split at h
    · rename_i hphase
      cases h
      exact .readOver hread hphase
    · cases h
  | releasePrincipal h' principal =>
    obtain ⟨host, -, rfl⟩ := Option.map_eq_some_iff.mp h
    exact .releaseOpened
  | beginRelease i =>
    obtain ⟨release, hrelease, h⟩ := Option.bind_eq_some_iff.mp h
    obtain ⟨host, hhost, h⟩ := Option.bind_eq_some_iff.mp h
    split at h
    · cases h
      exact .releaseMoved rfl hrelease _ _
    · cases h
  | resumeRelease i =>
    obtain ⟨release, hrelease, h⟩ := Option.bind_eq_some_iff.mp h
    obtain ⟨host, hhost, h⟩ := Option.bind_eq_some_iff.mp h
    split at h
    · split at h
      · split at h
        · cases h
          exact .released hrelease
        · cases h
          have hmoved : Move config s (.resumeRelease i) _ :=
            .releaseMoved rfl hrelease .releasing []
          rwa [requestCancel_nil] at hmoved
      · cases h
    · cases h
  | operateRelease i =>
    obtain ⟨job, hjob, h⟩ := Option.bind_eq_some_iff.mp h
    obtain ⟨release', hrelease', hphase, rfl⟩ := executes_operateRelease hjob
    obtain ⟨release, hrelease, h⟩ := Option.bind_eq_some_iff.mp h
    cases hrelease'.symm.trans hrelease
    cases h
    exact .releaseOperated hrelease hphase
  | failRelease i later =>
    obtain ⟨release, hrelease, h⟩ := Option.bind_eq_some_iff.mp h
    split at h
    · cases h
    · cases h
    · cases h
      refine .releaseFailed hrelease fun op hop => ?_
      split at hop
      · exact ⟨release.principal, List.mem_singleton.mp hop⟩
      · cases hop
  | setConsent h' enabled =>
    obtain ⟨host, -, rfl⟩ := Option.map_eq_some_iff.mp h
    exact .changeOpened
  | writeConsent i =>
    obtain ⟨change, hchange, h⟩ := Option.bind_eq_some_iff.mp h
    obtain ⟨host, hhost, h⟩ := Option.bind_eq_some_iff.mp h
    split at h
    · rename_i hcond
      split at h
      · cases h
        exact .granted hchange hcond.1
      · cases h
        exact .withdrawing hchange hcond.1
    · cases h
  | resumeConsent i => exact resumeConsent_cases h
  | failConsent i => exact failConsent_cases h
  | close h' =>
    obtain ⟨host, -, rfl⟩ := Option.map_eq_some_iff.mp h
    exact .closeOpened
  | resumeClose i => exact resumeClose_cases h
  | operateClose i =>
    obtain ⟨job, hjob, h⟩ := Option.bind_eq_some_iff.mp h
    obtain ⟨closing', principal, rest, hclosing', hphase, rfl⟩ := executes_operateClose hjob
    obtain ⟨closing, hclosing, h⟩ := Option.bind_eq_some_iff.mp h
    cases hclosing'.symm.trans hclosing
    simp only [hphase, Option.some.injEq] at h
    subst h
    exact .closeOperated hclosing hphase
  | failClose i later =>
    obtain ⟨closing, hclosing, h⟩ := Option.bind_eq_some_iff.mp h
    cases hphase : closing.phase with
    | waiting =>
      simp only [hphase, Option.some.injEq] at h
      subst h
      exact .closeDropped hclosing hphase
    | finished => simp [hphase] at h
    | gathering tasks =>
      simp only [hphase, Option.some.injEq] at h
      subst h
      exact .closed rfl hclosing (by rw [hphase]; rfl) (by simp)
    | stopping =>
      simp only [hphase, Option.some.injEq] at h
      subst h
      exact .closed rfl hclosing (by rw [hphase]; rfl) (by simp)
    | releasing principals =>
      simp only [hphase, Option.some.injEq] at h
      subst h
      refine .closed rfl hclosing (by rw [hphase]; rfl) fun op hop => ?_
      cases principals with
      | nil => cases hop
      | cons principal rest =>
        cases later with
        | true => exact ⟨principal, List.mem_singleton.mp hop⟩
        | false => cases hop

/-! ### What a step does to one call, to the database and to the jobs -/

/-- How a step changes the call `i`. -/
inductive Call.Moved (config : HostConfig R) (s : System F R) (a : Action F R) (i : Nat)
    (call : Call F R) : Call F R → Prop
  | acquired (hphase : call.phase = .waiting) :
      Moved config s a i call { call with phase := .admitted }
  | admitted (hphase : call.phase = .admitted) (tool : Option Tool) :
      Moved config s a i call { call with phase := .claiming, tool := tool }
  | refused (hphase : call.phase = .admitted) :
      Moved config s a i call { call with phase := .unlocking }
  | operated {op : Op F R} (hop : call.pending i = some op)
      (hjob : s.executes a = some ⟨call.host, op⟩) :
      Moved config s a i call
        { call with phase := call.phase.answered (s.ran config ⟨call.host, op⟩).1 }
  | faulted {op : Op F R} (hop : call.pending i = some op) (text : String) :
      Moved config s a i call { call with phase := call.phase.answered (.error (.python text)) }
  | renewerFailed (hphase : call.phase = .closing) (hquiet : s.executes a = none) :
      Moved config s a i call { call with
        phase := .finished
        kept := if call.leaseIndeterminate then s.tables.lease.expiryOf i else call.kept }
  | landed {phase : Phase R} {indeterminate : Bool} (hlanded : call.Landed phase indeterminate) :
      Moved config s a i call { call with phase := phase, leaseIndeterminate := indeterminate }
  | replayed {result : R} (hphase : call.phase = .claimed (.replay result)) :
      Moved config s a i call { call with phase := .unlocking }
  | entering (hphase : call.phase = .claimed .new) (hmutating : call.mutating = true) :
      Moved config s a i call { call with phase := .entering }
  | dispatched (hphase : call.phase = .claimed .new ∧ call.mutating = false ∨ call.phase = .entered)
      (hquiet : s.executes a = none) (hconsent : s.consent = true) :
      Moved config s a i call { call with
        phase := .awaiting
        task := some .running
        grants := s.grants
        epoch := s.tables.expiries.count call.request.key }
  | disabled (hphase : call.phase = .claimed .new ∧ call.mutating = false ∨ call.phase = .entered)
      {phase : Phase R} (hback : phase = .leavingEarly ∨ phase = .abandoningEarly) :
      Moved config s a i call { call with phase := phase }
  | unlocked (hphase : call.phase = .unlocking) : Moved config s a i call { call with phase := .finished }
  | kept (hphase : call.phase = .closing) (hmutating : call.mutating = true)
      (hindeterminate : call.leaseIndeterminate = true) (hquiet : s.executes a = none) :
      Moved config s a i call
        { call with kept := s.tables.lease.expiryOf i, phase := .finished, signalled := true }
  | leaving (hphase : call.phase = .closing) (hmutating : call.mutating = true)
      (hcertain : call.leaseIndeterminate = false) :
      Moved config s a i call { call with phase := .leaving }
  | finished (hphase : call.phase = .closing ∧ call.mutating = false ∨ call.phase = .left) :
      Moved config s a i call { call with phase := .finished, signalled := true }
  | taskEnded (hrunning : call.running = true) (outcome : Outcome R) :
      Moved config s a i call { call with task := some (.ended outcome) }

theorem Call.Moved.started (h : call.Moved config s a i call') (hrunning : call'.running = true) :
    (call.running = true ∧ call'.host = call.host ∧ call'.request = call.request ∧
      call'.grants = call.grants) ∨ s.consent = true ∧ call'.grants = s.grants := by
  cases h with
  | dispatched _ _ hconsent => exact .inr ⟨hconsent, rfl⟩
  | taskEnded => cases hrunning
  | _ => exact .inl ⟨hrunning, rfl, rfl, rfl⟩

theorem Call.Moved.staged (hstaged : call.Staged) (h : call.Moved config s a i call') : call'.Staged := by
  cases h with
  | acquired hphase => exact .of_early rfl (hstaged.early (by rw [hphase]; rfl))
  | admitted hphase tool => exact .of_early rfl (hstaged.early (by rw [hphase]; rfl))
  | refused hphase => exact .of_early rfl (hstaged.early (by rw [hphase]; rfl))
  | operated hop hjob =>
    refine ⟨fun hearly => ?_, fun hlate => ?_⟩
    · exact hstaged.early (Phase.early_answered hearly)
    · exact hstaged.late (Phase.late_answered hlate)
  | faulted hop text =>
    refine ⟨fun hearly => ?_, fun hlate => ?_⟩
    · have hanswered : (call.phase.answered (.error (.python text))).early = true := hearly
      exact hstaged.early (Phase.early_answered hanswered)
    · have hanswered : (call.phase.answered (.error (.python text))).late = true := hlate
      exact hstaged.late (Phase.late_answered hanswered)
  | renewerFailed => exact .of_over rfl
  | landed hlanded =>
    cases hlanded with
    | stayed => exact ⟨hstaged.early, hstaged.late⟩
    | back hlocked hback =>
      refine .of_early ?_ (hstaged.early (Phase.early_of_locked hlocked))
      rcases hback with rfl | rfl
      · rfl
      · rfl
    | dropped => exact .of_over rfl
    | on hrenewing hphase =>
      refine .of_late ?_ (hstaged.late (Phase.late_of_renewing hrenewing))
      rcases hphase with hphase | rfl
      · exact Phase.late_of_renewing hphase
      · rfl
  | replayed hphase => exact .of_early rfl (hstaged.early (by rw [hphase]; rfl))
  | entering hphase _ => exact .of_early rfl (hstaged.early (by rw [hphase]; rfl))
  | dispatched => exact .of_late rfl rfl
  | disabled hphase hback =>
    refine .of_early ?_ (hstaged.early ?_)
    · rcases hback with rfl | rfl
      · rfl
      · rfl
    · rcases hphase with ⟨hphase, -⟩ | hphase
      · rw [hphase]; rfl
      · rw [hphase]; rfl
  | unlocked => exact .of_over rfl
  | kept => exact .of_over rfl
  | leaving hphase _ _ => exact .of_late rfl (hstaged.late (by rw [hphase]; rfl))
  | finished => exact .of_over rfl
  | taskEnded hrunning outcome =>
    refine ⟨fun hearly => ?_, fun _ => rfl⟩
    have htask := hstaged.early hearly
    simp [Call.task_of_running hrunning] at htask

/-- What a step does to the calls: nothing, one more is opened, or one is moved. -/
inductive CallsMoved (config : HostConfig R) (s : System F R) (a : Action F R) : List (Call F R) → Prop
  | same : CallsMoved config s a s.calls
  | opened {h : Nat} {host : CapabilityHost} (hhost : s.host? h = some host) (request : Request F) :
      CallsMoved config s a (s.calls ++ [{ host := h, request := request }])
  | moved {i : Nat} {call call' : Call F R} (hcall : s.call? i = some call)
      (hmoved : call.Moved config s a i call') : CallsMoved config s a (s.calls.set i call')

theorem dispatch_moved (hquiet : s.executes a = none) (hcall : s.call? i = some call)
    (hphase : call.phase = .claimed .new ∧ call.mutating = false ∨ call.phase = .entered) :
    CallsMoved config s a (s.dispatch i call).calls := by
  rw [System.dispatch]
  split
  · rename_i hconsent
    exact .moved hcall (.dispatched hphase hquiet hconsent)
  · split
    · exact .moved hcall (.disabled hphase (.inl rfl))
    · exact .moved hcall (.disabled hphase (.inr rfl))

theorem Move.calls (h : Move config s a s') : CallsMoved config s a s'.calls := by
  cases h with
  | called hhost => exact .opened hhost _
  | acquired hcall _ hphase _ => exact .moved hcall (.acquired hphase)
  | admitted hcall hphase _ => exact .moved hcall (.admitted hphase _)
  | refused hcall hphase => exact .moved hcall (.refused hphase)
  | operated hcall hop =>
    refine .moved hcall (.operated hop ?_)
    simp [System.executes, hcall, hop]
  | faulted hcall hop => exact .moved hcall (.faulted hop _)
  | renewerFailed hcall hphase => exact .moved hcall (.renewerFailed hphase rfl)
  | interrupted hcall requests =>
    obtain ⟨phase, indeterminate, heq, hlanded⟩ := Call.interrupted_landed
    rw [show (_ : System F R).calls = s.calls.set _ _ from rfl, heq]
    exact .moved hcall (.landed hlanded)
  | replayed hcall hphase => exact .moved hcall (.replayed hphase)
  | entering hcall hphase hmutating => exact .moved hcall (.entering hphase hmutating)
  | dispatched hcall hphase hmutating => exact dispatch_moved rfl hcall (.inl ⟨hphase, hmutating⟩)
  | enteredThen hcall hphase => exact dispatch_moved rfl hcall (.inr hphase)
  | unlocked hcall hphase => exact .moved hcall (.unlocked hphase)
  | settled hcall hphase htask =>
    obtain ⟨phase, indeterminate, heq, hlanded⟩ := Call.settled_landed hphase
    rw [heq]
    exact .moved hcall (.landed hlanded)
  | drained hcall hphase htask =>
    obtain ⟨phase, indeterminate, heq, hlanded⟩ := Call.drained_landed hphase
    rw [heq]
    exact .moved hcall (.landed hlanded)
  | kept hcall hphase hmutating hindeterminate =>
    exact .moved hcall (.kept hphase hmutating hindeterminate rfl)
  | leaving hcall hphase hmutating hcertain => exact .moved hcall (.leaving hphase hmutating hcertain)
  | finished hcall hphase => exact .moved hcall (.finished hphase)
  | taskEnded hcall hrunning => exact .moved hcall (.taskEnded hrunning _)
  | gathered _ _ _ _ principals =>
    rw [releaseNext_kept.1]
    exact .same
  | releasedNext _ _ _ =>
    rw [releaseNext_kept.1]
    exact .same
  | _ => exact .same

theorem Move.call_of (h : Move config s a s') {j : Nat} (hcall' : s'.calls[j]? = some call') :
    s.calls[j]? = some call' ∨ (∃ call, s.call? j = some call ∧ call.Moved config s a j call') ∨
      ∃ h host request, s.host? h = some host ∧ call' = { host := h, request := request } := by
  have hcalls := h.calls
  generalize s'.calls = calls at hcalls hcall'
  cases hcalls with
  | same => exact .inl hcall'
  | opened hhost request =>
    rcases getElem?_append_singleton.mp hcall' with hold | ⟨-, rfl⟩
    · exact .inl hold
    · exact .inr (.inr ⟨_, _, request, hhost, rfl⟩)
  | moved hcall hmoved =>
    rcases (getElem?_set_eq_some (System.call?_eq_some.mp hcall).1).mp hcall' with
      ⟨rfl, rfl⟩ | ⟨-, hold⟩
    · exact .inr (.inl ⟨_, hcall, hmoved⟩)
    · exact .inl hold

theorem Move.staged (h : Move config s a s')
    (hstaged : ∀ (i : Nat) (call : Call F R), s.calls[i]? = some call → call.Staged) (i : Nat)
    (call' : Call F R) (hcall' : s'.calls[i]? = some call') : call'.Staged := by
  rcases h.call_of hcall' with hold | ⟨call, hmoving, hmoved⟩ | ⟨n, host, request, -, rfl⟩
  · exact hstaged i call' hold
  · exact hmoved.staged (hstaged i call (System.call?_eq_some.mp hmoving).1)
  · exact .of_early rfl rfl

theorem Move.call_to (h : Move config s a s') {j : Nat} (hcall : s.calls[j]? = some call) :
    s'.calls[j]? = some call ∨ ∃ call', s'.calls[j]? = some call' ∧ call.Moved config s a j call' := by
  have hcalls := h.calls
  generalize s'.calls = calls at hcalls
  cases hcalls with
  | same => exact .inl hcall
  | opened hhost request => exact .inl (getElem?_append_singleton.mpr (.inl hcall))
  | @moved i moving call' hmoving hmoved =>
    have hold := (System.call?_eq_some.mp hmoving).1
    by_cases hij : i = j
    · subst hij
      cases hcall.symm.trans hold
      exact .inr ⟨call', (getElem?_set_eq_some hold).mpr (.inl ⟨rfl, rfl⟩), hmoved⟩
    · exact .inl ((getElem?_set_eq_some hold).mpr (.inr ⟨hij, hcall⟩))

theorem Move.tables (h : Move config s a s') :
    s'.tables = match s.executes a with
      | some job => (s.ran config job).2.tables
      | none => s.tables := by
  cases h with
  | operated hcall hop => simp [System.executes, hcall, hop, System.setCall]
  | worked hjob => simp only [hjob]
  | releaseOperated hrelease hphase =>
    simp [System.executes, hrelease, hphase, System.discard, System.setRelease, System.onHost]
  | closeOperated hclosing hphase => simp [System.executes, hclosing, hphase, System.setClosing]
  | releaseMoved hquiet _ _ _ => simp only [hquiet]; rfl
  | enabledOver hquiet _ _ => simp only [hquiet]; rfl
  | changeFailed hquiet _ _ => simp only [hquiet]; rfl
  | closeMoved hquiet _ _ _ => simp only [hquiet]; rfl
  | closed hquiet _ _ _ => simp only [hquiet]; rfl
  | dispatched _ _ _ => exact dispatch_kept.2.1
  | enteredThen _ _ => exact dispatch_kept.2.1
  | gathered _ _ _ _ principals => exact releaseNext_kept.2.2.1
  | releasedNext _ _ _ => exact releaseNext_kept.2.2.1
  | _ => rfl

/-- Where a job comes from: it was there, a call was interrupted while it waited for the operation, a
renewer started it, or it is the end of a release. -/
theorem Move.jobs (h : Move config s a s') (hjob : job ∈ s'.jobs) :
    job ∈ s.jobs ∨
      (∃ i call, s.call? i = some call ∧ a = .interrupt i ∧ call.pending i = some job.op) ∨
      (∃ i call, s.call? i = some call ∧ call.phase.renewing = true ∧ job.op ∈ call.request.renewals) ∨
      ∃ principal, job.op = .releasePrincipal principal := by
  cases h with
  | interrupted hcall requests =>
    rcases mem_orphan.mp hjob with hold | ⟨op, hop, rfl⟩
    · exact .inl hold
    · exact .inr (.inl ⟨_, _, hcall, rfl, Option.mem_toList.mp hop⟩)
  | renewed hcall hphase =>
    rcases mem_orphan.mp hjob with hold | ⟨op, hop, rfl⟩
    · exact .inl hold
    · exact .inr (.inr (.inl ⟨_, _, hcall, hphase, hop⟩))
  | worked => exact .inl (List.mem_of_mem_eraseIdx hjob)
  | releaseFailed hrelease hops =>
    rcases mem_orphan.mp hjob with hold | ⟨op, hop, rfl⟩
    · exact .inl hold
    · exact .inr (.inr (.inr (hops op hop)))
  | closed _ hclosing hlocked hops =>
    rcases mem_orphan.mp hjob with hold | ⟨op, hop, rfl⟩
    · exact .inl hold
    · exact .inr (.inr (.inr (hops op hop)))
  | dispatched _ _ _ => exact .inl ((dispatch_kept (s := s)).2.2 ▸ hjob)
  | enteredThen _ _ => exact .inl ((dispatch_kept (s := s)).2.2 ▸ hjob)
  | gathered _ _ _ _ principals => exact .inl ((releaseNext_kept (s := s)).2.2.2 ▸ hjob)
  | releasedNext _ _ _ => exact .inl ((releaseNext_kept (s := s)).2.2.2 ▸ hjob)
  | _ => exact .inl hjob

end OpenAgent.Host
