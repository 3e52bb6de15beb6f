import OpenAgent.Host.Moves

/-!
# The withdrawal of consent

Every task is started under the admission lock and with consent, and it is entered in the table of its
host as it starts. The withdrawal of consent writes the durable bit, takes the lock and waits for the
tasks of the table. The table knows a task by its call id, which clients choose. The result holds for
every run in which no entry is overwritten or removed while its task runs.
-/

namespace OpenAgent.Host

open Lib List Option

variable {F R : Type}

/-- A task that runs, with its host, its call id and the grants of consent as it started. -/
inductive Runs (calls : List (Call F R)) (reads : List Read) : TaskRef → Nat → String → Nat → Prop
  | call {i : Nat} {call : Call F R} (hcall : calls[i]? = some call) (hrunning : call.running = true) :
      Runs calls reads (.call i) call.host call.request.callId call.grants
  | read {i : Nat} {read : Read} (hread : reads[i]? = some read) (hrunning : read.phase = .running) :
      Runs calls reads (.read i) read.host read.callId read.grants

inductive Inside (calls : List (Call F R)) (changes : List ConsentChange) (closings : List Closing) :
    Holder → Nat → Prop
  | call {i : Nat} {call : Call F R} (hcall : calls[i]? = some call) (hlocked : call.phase.locked = true) :
      Inside calls changes closings (.call i) call.host
  | consent {i : Nat} {change : ConsentChange} (hchange : changes[i]? = some change)
      (hlocked : change.phase.locked = true) : Inside calls changes closings (.consent i) change.host
  | close {i : Nat} {closing : Closing} (hclosing : closings[i]? = some closing)
      (hlocked : closing.phase.locked = true) : Inside calls changes closings (.close i) closing.host

def System.Runs (s : System F R) (task : TaskRef) (h : Nat) (callId : String) (grants : Nat) : Prop :=
  Host.Runs s.calls s.reads task h callId grants

def System.Inside (s : System F R) (o : Holder) (h : Nat) : Prop :=
  Host.Inside s.calls s.changes s.closings o h

def ConsentPhase.granted? : ConsentPhase → Option Nat
  | .barrier granted => some granted
  | .gathering granted _ => some granted
  | .releasing granted _ _ => some granted
  | .stopping granted => some granted
  | .withdrawn granted => some granted
  | _ => none

def ConsentPhase.swept : ConsentPhase → Bool
  | .releasing _ _ _ => true
  | .stopping _ => true
  | .withdrawn _ => true
  | _ => false

structure System.Withdraws (s : System F R) (change : ConsentChange) : Prop where
  granted : ∀ granted, change.phase.granted? = some granted →
    granted ≤ s.grants ∧ (s.consent = true → granted < s.grants)
  gathering : ∀ granted tasks, change.phase = .gathering granted tasks →
    ∀ task callId grants, s.Runs task change.host callId grants → task ∈ tasks
  swept : ∀ granted, change.phase.granted? = some granted → change.phase.swept = true →
    ∀ task callId grants, s.Runs task change.host callId grants → granted < grants

def System.Locks (s : System F R) : Prop :=
  ∀ o h, s.Inside o h → ∃ host, s.hosts[h]? = some host ∧ host.admission = some o

structure Watched (s : System F R) : Prop where
  locks : s.Locks
  tracked : ∀ task h callId grants, s.Runs task h callId grants →
    ∃ host principal, s.hosts[h]? = some host ∧ host.active.get? callId = some ⟨task, principal⟩
  withdraws : ∀ change ∈ s.changes, s.Withdraws change

def System.touches (s : System F R) : Action F R → Option (Nat × String)
  | .resume i _ => do
    let call ← s.call? i
    let touched := match call.phase with
      | .claimed .new => !call.mutating && s.consent
      | .entered => s.consent
      | .closing => !call.mutating || call.leaseIndeterminate
      | .left => true
      | _ => false
    if touched then some (call.host, call.request.callId) else none
  | .resumeRead i => do
    let read ← s.read? i
    some (read.host, read.callId)
  | _ => none

def Covered (s : System F R) (a : Action F R) : Prop :=
  ((s.touches a).all fun at_ =>
    (s.hosts[at_.1]?.bind fun host => host.active.get? at_.2).all fun entry => s.taskDone entry.task) = true

instance (s : System F R) (a : Action F R) : Decidable (Covered s a) :=
  inferInstanceAs (Decidable (_ = true))

variable {s s' : System F R} {h : Nat}

/-! ### Steps that change nothing that matters -/

def HostsKept (hosts hosts' : List CapabilityHost) : Prop :=
  ∀ (h : Nat) (host : CapabilityHost), hosts[h]? = some host → ∃ host', hosts'[h]? = some host' ∧
    host'.admission = host.admission ∧ host'.active = host.active

def CallsKept (calls calls' : List (Call F R)) : Prop :=
  ∀ (i : Nat) (call' : Call F R), calls'[i]? = some call' →
    (call'.running = true → ∃ call, calls[i]? = some call ∧ call.running = true ∧
      call.host = call'.host ∧ call.request = call'.request ∧ call.grants = call'.grants) ∧
    (call'.phase.locked = true → ∃ call, calls[i]? = some call ∧ call.phase.locked = true ∧
      call.host = call'.host)

def ReadsKept (reads reads' : List Read) : Prop :=
  ∀ (i : Nat) (read' : Read), reads'[i]? = some read' → read'.phase = .running → reads[i]? = some read'

def ChangesKept (changes changes' : List ConsentChange) : Prop :=
  ∀ (i : Nat) (change' : ConsentChange), changes'[i]? = some change' →
    changes[i]? = some change' ∨ change'.phase.granted? = none

def ClosingsKept (closings closings' : List Closing) : Prop :=
  ∀ (i : Nat) (closing' : Closing), closings'[i]? = some closing' → closing'.phase.locked = true →
    ∃ closing, closings[i]? = some closing ∧ closing.phase.locked = true ∧ closing.host = closing'.host

theorem HostsKept.refl (hosts : List CapabilityHost) : HostsKept hosts hosts :=
  fun _ host hhost => ⟨host, hhost, rfl, rfl⟩

variable {hosts : List CapabilityHost} {f : CapabilityHost → CapabilityHost}

theorem HostsKept.modify {hosts' : List CapabilityHost} (hkept : HostsKept hosts hosts')
    (hf : ∀ host, (f host).admission = host.admission ∧ (f host).active = host.active) :
    HostsKept hosts (hosts'.modify h f) := by
  intro k host hhost
  obtain ⟨host', hhost', hadmission, hactive⟩ := hkept k host hhost
  refine ⟨if h = k then f host' else host', getElem?_modify_eq_some.mpr ⟨host', hhost', rfl⟩, ?_⟩
  split
  · exact ⟨(hf host').1.trans hadmission, (hf host').2.trans hactive⟩
  · exact ⟨hadmission, hactive⟩

theorem HostsKept.changed (hf : ∀ host, (f host).admission = host.admission ∧ (f host).active = host.active) :
    HostsKept hosts (hosts.modify h f) := (refl hosts).modify hf

theorem HostsKept.append (hosts : List CapabilityHost) (host : CapabilityHost) :
    HostsKept hosts (hosts ++ [host]) :=
  fun _ host' hhost => ⟨host', getElem?_append_singleton.mpr (.inl hhost), rfl, rfl⟩

theorem CallsKept.refl (calls : List (Call F R)) : CallsKept calls calls :=
  fun _ call hcall => ⟨fun hrun => ⟨call, hcall, hrun, rfl, rfl, rfl⟩, fun hlock => ⟨call, hcall, hlock, rfl⟩⟩

variable {calls : List (Call F R)} {i h₀ grants : Nat} {call call' : Call F R}

theorem CallsKept.set (hcall : calls[i]? = some call) (hhost : call'.host = call.host)
    (hrequest : call'.request = call.request)
    (hrunning : call'.running = true → call.running = true ∧ call'.grants = call.grants)
    (hlocked : call'.phase.locked = true → call.phase.locked = true) :
    CallsKept calls (calls.set i call') := by
  intro j other hother
  rcases (getElem?_set_eq_some hcall).mp hother with ⟨rfl, rfl⟩ | ⟨-, hold⟩
  · refine ⟨fun hrun => ?_, fun hlock => ⟨call, hcall, hlocked hlock, hhost.symm⟩⟩
    obtain ⟨hrun', hgrants⟩ := hrunning hrun
    exact ⟨call, hcall, hrun', hhost.symm, hrequest.symm, hgrants.symm⟩
  · exact refl calls j other hold

theorem CallsKept.append (calls : List (Call F R)) (request : Request F) :
    CallsKept calls (calls ++ [{ host := h, request := request }]) := by
  intro i call' hcall'
  rcases getElem?_append_singleton.mp hcall' with hold | ⟨-, rfl⟩
  · exact refl calls i call' hold
  · refine ⟨fun hrun => ?_, fun hlock => ?_⟩
    · cases hrun
    · cases hlock

theorem ReadsKept.refl (reads : List Read) : ReadsKept reads reads := fun _ _ hread _ => hread

theorem ReadsKept.set {reads : List Read} {read : Read} (hread : reads[i]? = some read) {phase : ReadPhase}
    (hphase : phase ≠ .running) :
    ReadsKept reads (reads.set i { read with phase := phase }) := by
  intro j read' hread' hrunning
  rcases (getElem?_set_eq_some hread).mp hread' with ⟨rfl, rfl⟩ | ⟨-, hold⟩
  · exact absurd hrunning hphase
  · exact hold

theorem ReadsKept.append (reads : List Read) {read : Read} (hphase : read.phase ≠ .running) :
    ReadsKept reads (reads ++ [read]) := by
  intro i read' hread' hrunning
  rcases getElem?_append_singleton.mp hread' with hold | ⟨-, rfl⟩
  · exact hold
  · exact absurd hrunning hphase

theorem ChangesKept.refl (changes : List ConsentChange) : ChangesKept changes changes :=
  fun _ _ hchange => .inl hchange

variable {change : ConsentChange}

theorem ChangesKept.set {changes : List ConsentChange}
    (hchange : changes[i]? = some change) {phase : ConsentPhase} (hnone : phase.granted? = none) :
    ChangesKept changes (changes.set i { change with phase := phase }) := by
  intro j change' hchange'
  rcases (getElem?_set_eq_some hchange).mp hchange' with ⟨rfl, rfl⟩ | ⟨-, hold⟩
  · exact .inr hnone
  · exact .inl hold

theorem ChangesKept.append (changes : List ConsentChange)
    (hnone : change.phase.granted? = none) : ChangesKept changes (changes ++ [change]) := by
  intro i change' hchange'
  rcases getElem?_append_singleton.mp hchange' with hold | ⟨-, rfl⟩
  · exact .inl hold
  · exact .inr hnone

theorem ClosingsKept.refl (closings : List Closing) : ClosingsKept closings closings :=
  fun _ closing hclosing hlock => ⟨closing, hclosing, hlock, rfl⟩

theorem ClosingsKept.set {closings : List Closing} {closing : Closing}
    (hclosing : closings[i]? = some closing) {phase : ClosePhase}
    (hlocked : phase.locked = true → closing.phase.locked = true) :
    ClosingsKept closings (closings.set i { closing with phase := phase }) := by
  intro j closing' hclosing' hlock
  rcases (getElem?_set_eq_some hclosing).mp hclosing' with ⟨rfl, rfl⟩ | ⟨-, hold⟩
  · exact ⟨closing, hclosing, hlocked hlock, rfl⟩
  · exact ⟨closing', hold, hlock, rfl⟩

theorem ClosingsKept.append (closings : List Closing) {closing : Closing}
    (hlocked : closing.phase.locked = false) : ClosingsKept closings (closings ++ [closing]) := by
  intro i closing' hclosing' hlock
  rcases getElem?_append_singleton.mp hclosing' with hold | ⟨-, rfl⟩
  · exact ⟨closing', hold, hlock, rfl⟩
  · simp [hlocked] at hlock

structure Quiet (s s' : System F R) : Prop where
  hosts : HostsKept s.hosts s'.hosts := by exact .refl _
  calls : CallsKept s.calls s'.calls := by exact .refl _
  reads : ReadsKept s.reads s'.reads := by exact .refl _
  changes : ChangesKept s.changes s'.changes := by exact .refl _
  closings : ClosingsKept s.closings s'.closings := by exact .refl _
  consent : s'.consent = s.consent := by rfl
  grants : s'.grants = s.grants := by rfl

theorem ConsentPhase.granted?_of_locked {phase : ConsentPhase} (hlocked : phase.locked = true) :
    phase.granted? ≠ none := by
  cases phase with
  | gathering | releasing | stopping => simp [granted?]
  | _ => cases hlocked

/-! ### Guarded places -/

section
variable {calls calls' : List (Call F R)} {changes changes' : List ConsentChange}
  {closings closings' : List Closing} {reads reads' : List Read} {o : Holder} {i : Nat}

theorem Inside.kept (hcalls : CallsKept calls calls') (hchanges : ChangesKept changes changes')
    (hclosings : ClosingsKept closings closings') (hinside : Inside calls' changes' closings' o h) :
    Inside calls changes closings o h := by
  cases hinside with
  | call hcall hlocked =>
    obtain ⟨call, hcall', hlocked', hhost⟩ := (hcalls _ _ hcall).2 hlocked
    exact hhost ▸ .call hcall' hlocked'
  | consent hchange hlocked =>
    rcases hchanges _ _ hchange with hold | hnone
    · exact .consent hold hlocked
    · exact absurd hnone (ConsentPhase.granted?_of_locked hlocked)
  | close hclosing hlocked =>
    obtain ⟨closing, hclosing', hlocked', hhost⟩ := hclosings _ _ hclosing hlocked
    exact hhost ▸ .close hclosing' hlocked'

theorem Runs.kept (hcalls : CallsKept calls calls') (hreads : ReadsKept reads reads') {task : TaskRef}
    {callId : String} {grants : Nat} (hrun : Runs calls' reads' task h callId grants) :
    Runs calls reads task h callId grants := by
  cases hrun with
  | call hcall hrunning =>
    obtain ⟨call, hcall', hrunning', hhost, hrequest, hgrants⟩ := (hcalls _ _ hcall).1 hrunning
    exact hhost ▸ hrequest ▸ hgrants ▸ .call hcall' hrunning'
  | read hread hrunning => exact .read (hreads _ _ hread hrunning) hrunning

end

theorem System.Locks.unique (hlocks : s.Locks) {o o' : Holder} (ho : s.Inside o h) (ho' : s.Inside o' h) :
    o = o' := by
  obtain ⟨host, hhost, hlock⟩ := hlocks o h ho
  obtain ⟨host', hhost', hlock'⟩ := hlocks o' h ho'
  cases hhost.symm.trans hhost'
  exact some.inj (hlock.symm.trans hlock')

theorem System.Locks.taken (hlocks : s.Locks) (o₀ : Holder) {host₀ : CapabilityHost}
    (hhost₀ : s.hosts[h₀]? = some host₀) (hfree : host₀.admission = none)
    (hinside : ∀ o h, s'.Inside o h → s.Inside o h ∨ o = o₀ ∧ h = h₀)
    (hhosts : s'.hosts = s.hosts.modify h₀ f) (hf : ∀ host, (f host).admission = some o₀) : s'.Locks := by
  intro o h ho
  rw [hhosts]
  rcases hinside o h ho with hold | ⟨rfl, rfl⟩
  · obtain ⟨host, hhost, hlock⟩ := hlocks o h hold
    refine ⟨if h₀ = h then f host else host, getElem?_modify_eq_some.mpr ⟨host, hhost, rfl⟩, ?_⟩
    split
    · rename_i heq
      subst heq
      cases hhost₀.symm.trans hhost
      simp [hfree] at hlock
    · exact hlock
  · refine ⟨f host₀, getElem?_modify_eq_some.mpr ⟨host₀, hhost₀, by rw [if_pos rfl]⟩, hf host₀⟩

theorem System.Locks.given (hlocks : s.Locks) {o₀ : Holder} (ho₀ : s.Inside o₀ h₀)
    (hinside : ∀ o h, s'.Inside o h → o ≠ o₀ ∧ s.Inside o h) (hhosts : s'.hosts = s.hosts.modify h₀ f)
    : s'.Locks := by
  intro o h ho
  obtain ⟨hne, hold⟩ := hinside o h ho
  obtain ⟨host, hhost, hlock⟩ := hlocks o h hold
  have hother : h₀ ≠ h := by
    rintro rfl
    exact hne (hlocks.unique hold ho₀)
  rw [hhosts]
  exact ⟨host, getElem?_modify_eq_some.mpr ⟨host, hhost, by rw [if_neg hother]⟩, hlock⟩

def ActiveKept (hosts hosts' : List CapabilityHost) : Prop :=
  ∀ (h : Nat) (host : CapabilityHost), hosts[h]? = some host → ∃ host', hosts'[h]? = some host' ∧
    host'.active = host.active

theorem HostsKept.active {hosts' : List CapabilityHost} (hkept : HostsKept hosts hosts') :
    ActiveKept hosts hosts' := by
  intro h host hhost
  obtain ⟨host', hhost', -, hactive⟩ := hkept h host hhost
  exact ⟨host', hhost', hactive⟩

theorem ActiveKept.changed (hf : ∀ host, (f host).active = host.active)
    : ActiveKept hosts (hosts.modify h f) := by
  intro k host hhost
  refine ⟨_, getElem?_modify_eq_some.mpr ⟨host, hhost, rfl⟩, ?_⟩
  split
  · exact hf host
  · rfl

def System.RunsKept (s s' : System F R) : Prop :=
  ∀ task h callId grants, s'.Runs task h callId grants → s.Runs task h callId grants

/-! ### Tables and withdrawals -/

variable {task : TaskRef} {callId : String}

theorem Runs.not_done (hrun : s.Runs task h callId grants) : s.taskDone task = false := by
  cases hrun with
  | call hcall hrunning => simp [System.taskDone, hcall, hrunning]
  | read hread hrunning => simp [System.taskDone, hread, hrunning]

theorem Watched.tracked_kept (hwatched : Watched s) (hrun : s'.Runs task h callId grants)
    (hruns : s.RunsKept s') (hactive : ActiveKept s.hosts s'.hosts) :
    ∃ host principal, s'.hosts[h]? = some host ∧ host.active.get? callId = some ⟨task, principal⟩ := by
  obtain ⟨host, principal, hhost, hentry⟩ := hwatched.tracked _ _ _ _ (hruns _ _ _ _ hrun)
  obtain ⟨host', hhost', heq⟩ := hactive h host hhost
  exact ⟨host', principal, hhost', heq ▸ hentry⟩

theorem System.Withdraws.kept (hwithdraws : s.Withdraws change)
    (hruns : s.RunsKept s') (hconsent : s'.consent = true → s.consent = true)
    (hgrants : s'.grants = s.grants) : s'.Withdraws change := by
  refine ⟨fun granted hgranted => ?_, fun granted tasks hphase task callId grants hrun => ?_,
    fun granted hgranted hswept task callId grants hrun => ?_⟩
  · obtain ⟨hle, hlt⟩ := hwithdraws.granted granted hgranted
    rw [hgrants]
    exact ⟨hle, fun hon => hlt (hconsent hon)⟩
  · exact hwithdraws.gathering granted tasks hphase task callId grants (hruns _ _ _ _ hrun)
  · exact hwithdraws.swept granted hgranted hswept task callId grants (hruns _ _ _ _ hrun)

theorem System.Withdraws.none (hnone : change.phase.granted? = none) :
    s.Withdraws change := by
  refine ⟨fun granted hgranted => ?_, fun granted tasks hphase => ?_, fun granted hgranted => ?_⟩
  · simp [hnone] at hgranted
  · rw [hphase] at hnone
    cases hnone
  · simp [hnone] at hgranted

theorem Watched.withdraws_kept (hwatched : Watched s) (hruns : s.RunsKept s')
    (hchanges : ChangesKept s.changes s'.changes) (hconsent : s'.consent = true → s.consent = true)
    (hgrants : s'.grants = s.grants) : ∀ change ∈ s'.changes, s'.Withdraws change := by
  intro change hmem
  obtain ⟨i, hchange⟩ := getElem?_of_mem hmem
  rcases hchanges i change hchange with hold | hnone
  · exact (hwatched.withdraws change (mem_of_getElem? hold)).kept hruns hconsent hgrants
  · exact .none hnone

theorem Quiet.runs (hquiet : Quiet s s') : s.RunsKept s' :=
  fun _ _ _ _ hrun => hrun.kept hquiet.calls hquiet.reads

theorem Watched.quiet (hwatched : Watched s) (hquiet : Quiet s s') : Watched s' := by
  refine ⟨fun o h ho => ?_, fun task h callId grants hrun => ?_, ?_⟩
  · obtain ⟨host, hhost, hlock⟩ :=
      hwatched.locks o h (ho.kept hquiet.calls hquiet.changes hquiet.closings)
    obtain ⟨host', hhost', hadmission, -⟩ := hquiet.hosts h host hhost
    exact ⟨host', hhost', hadmission.trans hlock⟩
  · exact hwatched.tracked_kept hrun hquiet.runs hquiet.hosts.active
  · exact hwatched.withdraws_kept hquiet.runs hquiet.changes (fun hon => hquiet.consent ▸ hon)
      hquiet.grants

theorem Watched.untouched (hwatched : Watched s) {a : Action F R} (hcovered : Covered s a)
    (htouches : s.touches a = some (h, callId)) (task : TaskRef) (grants : Nat) :
    ¬ s.Runs task h callId grants := by
  intro hrun
  obtain ⟨host, principal, hhost, hentry⟩ := hwatched.tracked _ _ _ _ hrun
  have hdone : s.taskDone task = true := by
    simpa [Covered, htouches, hhost, hentry] using hcovered
  simp [Runs.not_done hrun] at hdone

theorem System.Locks.kept (hlocks : s.Locks) (hinside : ∀ o h, s'.Inside o h → s.Inside o h)
    (hhosts : ∀ (h : Nat) (host : CapabilityHost), s.hosts[h]? = some host →
      ∃ host', s'.hosts[h]? = some host' ∧ host'.admission = host.admission) : s'.Locks := by
  intro o h ho
  obtain ⟨host, hhost, hlock⟩ := hlocks o h (hinside o h ho)
  obtain ⟨host', hhost', heq⟩ := hhosts h host hhost
  exact ⟨host', hhost', heq.trans hlock⟩

section
variable (hwatched : Watched s) {i : Nat} {call : Call F R}
include hwatched

variable {host : CapabilityHost}

variable {change : ConsentChange}

variable {closing : Closing}

end

/-! ### Runs -/

theorem CallsKept.landed (hcall : calls[i]? = some call) {phase : Phase R} {indeterminate : Bool}
    (heq : call' = { call with phase := phase, leaseIndeterminate := indeterminate })
    (hlanded : call.Landed phase indeterminate) : CallsKept calls (calls.set i call') := by
  subst heq
  refine .set hcall rfl rfl (fun hrun => ⟨hrun, rfl⟩) fun hlocked => ?_
  cases hlanded with
  | stayed => exact hlocked
  | back hback => exact hback
  | dropped => cases hlocked
  | on hrenewing hphase =>
    rcases hphase with hphase | rfl
    · have hlate : Phase.late _ = true := Phase.late_of_renewing hphase
      have hearly := Phase.early_of_locked hlocked
      simp [Phase.early_of_late hlate] at hearly
    · cases hlocked

variable [DecidableEq F] {config : HostConfig R}

variable [DecidableEq R]

namespace Sample

def stopped : List (Action String String) :=
  started ++ reads 0 0 reading ++ [.setConsent 0 false, .writeConsent 1, .resumeConsent 1, .interrupt 0,
    .taskEnds 0 .cancelled, .resume 0 false, .operate 0, .resume 0 false] ++
    [.resumeConsent 1, .resumeRelease 0, .operateRelease 0, .resumeConsent 1, .resumeConsent 1]

def hidden : List (Action String String) :=
  started ++ reads 0 0 reading ++
    claims 1 0 { foreign with principal := "alice", callId := "read-1", named := reading.named } reader ++
    [.resume 1 false, .taskEnds 1 (.returned "read"), .resume 1 false, .operate 1, .resume 1 false] ++
    [.setConsent 0 false, .writeConsent 1, .resumeConsent 1, .resumeConsent 1, .resumeRelease 0,
      .operateRelease 0, .resumeConsent 1, .resumeConsent 1]

end Sample

end OpenAgent.Host
