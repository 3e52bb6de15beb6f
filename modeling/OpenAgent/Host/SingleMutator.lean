import OpenAgent.Host.Moves

/-!
# One mutator at a time

The lease belongs to the call that entered it last, and a call that has entered it has its provider's
task run only while it has the lease. A principal and a call id are all the lease knows of a call, and
three ways to give it up do not look at the call at all. The result holds for every run in which
renewals are in time and the lease is never taken from a call that needs it: nobody enters it again,
leaves it or releases its principal meanwhile.
-/

namespace OpenAgent.Host

open Lib List Option

variable {F R : Type}

def Phase.leasing : Phase R → Bool
  | .entered => true
  | .closing => true
  | phase => phase.renewing

def Call.holding (call : Call F R) : Bool := call.mutating && (call.phase.leasing || call.running)

def System.holds (s : System F R) (i : Nat) : Bool := (s.call? i).any Call.holding

def System.keeps (s : System F R) (i : Nat) : Bool :=
  (s.calls[i]?.bind Call.kept).any fun expires => decide (s.now < expires)

def Op.takes (T : LeaseTables) : Op F R → Bool
  | .enter _ principal callId => T.sameCall principal callId
  | .leave principal callId => T.sameCall principal callId
  | .releasePrincipal principal => T.lease.any fun row => row.holder = principal
  | _ => false

/-- The lease is taken from no call that needs it or has left it behind, and it is renewed before the
clock passes its expiry while a call needs it. -/
def Undisturbed (s : System F R) : Action F R → Prop
  | .tick now => (s.tables.lease.lease.all fun row => !s.holds row.entrant || decide (now < row.expiresAt)) = true
  | a => ((s.executes a).all fun job => s.tables.lease.lease.all fun row =>
    !(job.op.takes s.tables.lease && (s.holds row.entrant || s.keeps row.entrant))) = true

instance (s : System F R) (a : Action F R) : Decidable (Undisturbed s a) := by
  cases a with
  | _ => exact inferInstanceAs (Decidable (_ = true))

structure Exclusive (config : HostConfig R) (s : System F R) : Prop where
  staged : ∀ (i : Nat) (call : Call F R), s.calls[i]? = some call → call.Staged
  placed : ∀ (i : Nat) (call : Call F R), s.calls[i]? = some call → call.host < s.hosts.length
  single : s.tables.lease.Single
  bounded : ∀ row, s.tables.lease.lease = some row → row.expiresAt ≤ s.now + config.leaseSeconds
  held : ∀ i, s.holds i = true →
    ∃ row, s.tables.lease.lease = some row ∧ row.entrant = i ∧ s.now < row.expiresAt
  kept : ∀ (i : Nat) (call : Call F R) (expires : Int), s.calls[i]? = some call →
    call.kept = some expires → s.now < expires →
      ∃ row, s.tables.lease.lease = some row ∧ row.entrant = i ∧ expires ≤ row.expiresAt

/-! ### Hosts -/

/-- The lists name the same hosts, and those of the second that run were running in the first. -/
structure Outlived (hosts hosts' : List CapabilityHost) : Prop where
  length : hosts'.length = hosts.length
  alive : ∀ (h : Nat) (host' : CapabilityHost), hosts'[h]? = some host' → host'.alive = true →
    ∃ host, hosts[h]? = some host ∧ host.alive = true

theorem Outlived.refl (hosts : List CapabilityHost) : Outlived hosts hosts :=
  ⟨rfl, fun _ host' hhost' halive => ⟨host', hhost', halive⟩⟩

theorem Outlived.modify {hosts hosts' : List CapabilityHost} (hout : Outlived hosts hosts') {h : Nat}
    {f : CapabilityHost → CapabilityHost} (hf : ∀ host, (f host).alive = true → host.alive = true) :
    Outlived hosts (hosts'.modify h f) := by
  refine ⟨(length_modify ..).trans hout.length, fun k host' hhost' halive => ?_⟩
  obtain ⟨host, hhost, rfl⟩ := getElem?_modify_eq_some.mp hhost'
  split at halive
  · exact hout.alive k host hhost (hf host halive)
  · exact hout.alive k host hhost halive

theorem Outlived.changed {hosts : List CapabilityHost} (h : Nat) {f : CapabilityHost → CapabilityHost}
    (hf : ∀ host, (f host).alive = host.alive) : Outlived hosts (hosts.modify h f) :=
  (refl hosts).modify fun host halive => hf host ▸ halive

variable [DecidableEq F] {config : HostConfig R} {s s' : System F R} {a : Action F R} {i h : Nat}
  {call call' : Call F R}

omit [DecidableEq F] in
theorem outlived_dispatch : Outlived s.hosts (s.dispatch i call).hosts := by
  rw [System.dispatch]
  split
  · exact .changed _ fun _ => rfl
  · split
    · exact .refl _
    · exact .refl _

omit [DecidableEq F] in
theorem outlived_releaseNext {change : ConsentChange} {granted : Nat} {host : CapabilityHost}
    {principals : List String} : Outlived s.hosts (s.releaseNext i change granted host principals).hosts := by
  cases principals with
  | nil => exact .refl _
  | cons principal rest => exact .refl _

theorem Move.hosts (hmove : Move config s a s') :
    s'.hosts = s.hosts ++ [.booted] ∨ Outlived s.hosts s'.hosts := by
  cases hmove with
  | booted => exact .inl rfl
  | crashed => exact .inr ((Outlived.refl _).modify fun _ h => nomatch h)
  | dispatched => exact .inr outlived_dispatch
  | enteredThen => exact .inr (outlived_dispatch.modify fun _ h => h)
  | @kept i call =>
    have hfinished : Outlived s.hosts (s.hosts.modify call.host (.forget call.request.callId)) :=
      .changed _ fun _ => rfl
    exact .inr (hfinished.modify fun _ h => h)
  | gathered => exact .inr outlived_releaseNext
  | releasedNext => exact .inr outlived_releaseNext
  | called | acquired | unlocked | finished | readAdmitted | readOver | released | releaseOperated |
    granted | withdrawing | enabledOver | gathering | withdrawn | changeFailed | closeOpened |
    closeLocked | closed => exact .inr (.changed _ fun _ => rfl)
  | _ => exact .inr (.refl _)

theorem Move.host? (hmove : Move config s a s') (hh : h < s.hosts.length)
    (hhost' : ∃ host', s'.host? h = some host') : ∃ host, s.host? h = some host := by
  obtain ⟨host', hhost'⟩ := hhost'
  obtain ⟨hget', halive'⟩ := System.host?_eq_some.mp hhost'
  rcases hmove.hosts with hboot | hout
  · rw [hboot, getElem?_append_left hh] at hget'
    exact ⟨host', System.host?_eq_some.mpr ⟨hget', halive'⟩⟩
  · obtain ⟨host, hget, halive⟩ := hout.alive h host' hget' halive'
    exact ⟨host, System.host?_eq_some.mpr ⟨hget, halive⟩⟩

inductive LeaseMoved (config : HostConfig R) (now : Int) (T : LeaseTables) : Op F R → LeaseTables → Prop
  | same {op : Op F R} : LeaseMoved config now T op T
  | lapsed {op : Op F R} {row : LeaseRow} (hrow : T.lease = some row) (hlapsed : row.expiresAt ≤ now) :
      LeaseMoved config now T op .free
  | entered {call : Nat} {principal callId : String}
      (hfree : ∀ row, T.lease = some row → now < row.expiresAt → T.sameCall principal callId = true) :
      LeaseMoved config now T (.enter call principal callId)
        (.leased principal callId (now + config.leaseSeconds) call)
  | renewed {holder callId : String} {expires : Int} {entrant : Nat}
      (heq : T = .leased holder callId expires entrant) {op : Op F R} :
      LeaseMoved config now T op (.leased holder callId (now + config.leaseSeconds) entrant)
  | taken {op : Op F R} (htakes : op.takes T = true) : LeaseMoved config now T op .free

theorem perform_lease {T : Tables F R} (hsingle : T.lease.Single) (owner : Nat) (now : Int) (op : Op F R) :
    LeaseMoved config now T.lease op (perform config owner now op T).2.lease := by
  cases op with
  | claim call key fingerprint retryStale =>
    rw [perform]
    split
    · exact .same
    · exact .same
  | renewClaim | complete | abandon | markIndeterminate => exact .same
  | enter call principal callId =>
    rcases enterLease_cases config.leaseSeconds principal callId call now hsingle with
      heq | ⟨heq, hfree⟩
    · rw [perform, heq]
      exact .same
    · rw [perform, heq]
      exact .entered hfree
  | renewLease principal callId =>
    show LeaseMoved config now T.lease _ (renewLease config.leaseSeconds principal callId now T.lease)
    rcases hsingle with hT | ⟨holder, id, expires, entrant, hT⟩
    · rw [hT]
      exact .same
    · rw [hT]
      by_cases hlive : now < expires
      · rw [renewLease_leased hlive]
        split
        · exact .renewed rfl
        · exact .same
      · rw [renewLease, expire_leased_of_le (Int.not_lt.mp hlive)]
        exact .lapsed rfl (Int.not_lt.mp hlive)
  | leave principal callId =>
    show LeaseMoved config now T.lease _ (leaveLease principal callId T.lease)
    rcases hsingle with hT | ⟨holder, id, expires, entrant, hT⟩
    · rw [hT]
      exact .same
    · rw [hT, leaveLease_leased]
      split
      · rename_i hsame
        exact .taken (sameCall_leased.mpr hsame)
      · exact .same
  | releasePrincipal principal =>
    show LeaseMoved config now T.lease _ (releaseLease principal T.lease)
    rcases hsingle with hT | ⟨holder, id, expires, entrant, hT⟩
    · rw [hT]
      exact .same
    · rw [hT, releaseLease_leased]
      split
      · rename_i hholder
        exact .taken (by simpa [Op.takes] using hholder)
      · exact .same

omit [DecidableEq F] in
theorem LeaseMoved.single {now : Int} {T T' : LeaseTables} {op : Op F R}
    (h : LeaseMoved config now T op T') (hsingle : T.Single) : T'.Single := by
  cases h with
  | same => exact hsingle
  | lapsed => exact .free
  | entered => exact .leased
  | renewed => exact .leased
  | taken => exact .free

omit [DecidableEq F] in
theorem LeaseMoved.bounded {now : Int} {T T' : LeaseTables} {op : Op F R}
    (h : LeaseMoved config now T op T')
    (hbounded : ∀ row, T.lease = some row → row.expiresAt ≤ now + config.leaseSeconds) {row : LeaseRow}
    (hrow : T'.lease = some row) : row.expiresAt ≤ now + config.leaseSeconds := by
  cases h with
  | same => exact hbounded row hrow
  | lapsed => cases hrow
  | entered =>
    cases hrow
    exact Int.le_refl _
  | renewed =>
    cases hrow
    exact Int.le_refl _
  | taken => cases hrow

omit [DecidableEq F] in
theorem Call.holding_iff : call.holding = true ↔
    call.mutating = true ∧ (call.phase.leasing = true ∨ call.running = true) := by
  simp [holding]

omit [DecidableEq F] in
theorem Phase.leasing_of_renewing {phase : Phase R} (h : phase.renewing = true) :
    phase.leasing = true := by
  cases phase with
  | _ => first | rfl | exact h

omit [DecidableEq F] in
theorem Phase.leasing_answered {reply : Except HostException (Reply R)} {phase : Phase R}
    (h : (phase.answered reply).leasing = true) :
    phase.leasing = true ∨ phase = .entering ∧ ∃ answer, reply = .ok answer := by
  cases phase with
  | claiming =>
    cases reply with
    | ok reply =>
      cases reply with
      | claimed => cases h
      | done => cases h
    | error => cases h
  | entering =>
    cases reply with
    | ok answer => exact .inr ⟨rfl, answer, rfl⟩
    | error => cases h
  | leavingEarly =>
    cases reply with
    | ok => cases h
    | error => cases h
  | leaving =>
    cases reply with
    | ok => cases h
    | error => cases h
  | _ => first | exact .inl rfl | cases h

omit [DecidableEq F] in
theorem Call.Staged.not_running (h : call.Staged) (hearly : call.phase.early = true) :
    call.running = false := by
  rw [running, h.early hearly]

theorem Call.Moved.holding (hstaged : call.Staged) (h : call.Moved config s a i call')
    (hholding : call'.holding = true) :
    call.holding = true ∨ call.phase = .entering ∧ ∃ op answer, call.pending i = some op ∧
      s.executes a = some ⟨call.host, op⟩ ∧ (s.ran config ⟨call.host, op⟩).1 = .ok answer := by
  obtain ⟨hmutating, hneeds⟩ := Call.holding_iff.mp hholding
  -- Where only the phase changes, and not to one that needs the lease, the task still runs.
  have hruns : call'.tool = call.tool → call'.task = call.task → call'.phase.leasing = false →
      call.holding = true := by
    intro htool htask hleasing
    rw [hleasing] at hneeds
    have hrunning := hneeds.resolve_left (by simp)
    rw [Call.mutating, htool] at hmutating
    rw [Call.running, htask] at hrunning
    exact Call.holding_iff.mpr ⟨hmutating, .inr hrunning⟩
  cases h with
  | acquired => exact .inl (hruns rfl rfl rfl)
  | admitted hphase tool =>
    have hidle := hstaged.not_running (by rw [hphase]; rfl)
    rcases hneeds with hleasing | hrunning
    · cases hleasing
    · simp [show call.running = true from hrunning] at hidle
  | refused => exact .inl (hruns rfl rfl rfl)
  | @operated op hop hjob =>
    rcases hneeds with hleasing | hrunning
    · rcases Phase.leasing_answered hleasing with hleasing | ⟨hphase, answer, hreply⟩
      · exact .inl (Call.holding_iff.mpr ⟨hmutating, .inl hleasing⟩)
      · exact .inr ⟨hphase, op, answer, hop, hjob, hreply⟩
    · exact .inl (Call.holding_iff.mpr ⟨hmutating, .inr hrunning⟩)
  | faulted hop text =>
    rcases hneeds with hleasing | hrunning
    · have hanswered : (call.phase.answered (.error (.python text))).leasing = true := hleasing
      rcases Phase.leasing_answered hanswered with hleasing | ⟨-, answer, hreply⟩
      · exact .inl (Call.holding_iff.mpr ⟨hmutating, .inl hleasing⟩)
      · cases hreply
    · exact .inl (Call.holding_iff.mpr ⟨hmutating, .inr hrunning⟩)
  | renewerFailed => exact .inl (hruns rfl rfl rfl)
  | landed hlanded =>
    refine .inl (Call.holding_iff.mpr ⟨hmutating, hneeds.imp (fun hleasing => ?_) id⟩)
    cases hlanded with
    | stayed => exact hleasing
    | back _ hback =>
      rcases hback with rfl | rfl
      · cases hleasing
      · cases hleasing
    | dropped => cases hleasing
    | on hrenewing => exact Phase.leasing_of_renewing hrenewing
  | replayed => exact .inl (hruns rfl rfl rfl)
  | entering => exact .inl (hruns rfl rfl rfl)
  | dispatched hphase _ _ =>
    rcases hphase with ⟨-, hreading⟩ | hphase
    · simp [show call.mutating = true from hmutating] at hreading
    · exact .inl (Call.holding_iff.mpr ⟨hmutating, .inl (by rw [hphase]; rfl)⟩)
  | disabled _ hback =>
    refine .inl (hruns rfl rfl ?_)
    rcases hback with rfl | rfl
    · rfl
    · rfl
  | unlocked => exact .inl (hruns rfl rfl rfl)
  | kept => exact .inl (hruns rfl rfl rfl)
  | leaving => exact .inl (hruns rfl rfl rfl)
  | finished => exact .inl (hruns rfl rfl rfl)
  | taskEnded _ outcome =>
    rcases hneeds with hleasing | hrunning
    · exact .inl (Call.holding_iff.mpr ⟨hmutating, .inl hleasing⟩)
    · cases hrunning

theorem Call.Moved.host (h : call.Moved config s a i call') : call'.host = call.host := by
  cases h with
  | _ => rfl

/-! ### One step -/

omit [DecidableEq F] in
theorem System.holds_iff : s.holds i = true ↔ ∃ call, s.call? i = some call ∧ call.holding = true := by
  simp [holds, Option.any_eq_true]

omit [DecidableEq F] in
theorem now_releaseNext {change : ConsentChange} {granted : Nat} {host : CapabilityHost}
    {principals : List String} : (s.releaseNext i change granted host principals).now = s.now := by
  cases principals with
  | nil => rfl
  | cons principal rest => rfl

omit [DecidableEq F] in
theorem now_dispatch : (s.dispatch i call).now = s.now := by
  rw [System.dispatch]
  split
  · rfl
  · split
    · rfl
    · rfl

theorem Move.now (h : Move config s a s') :
    s'.now = s.now ∨ ∃ now, a = .tick now ∧ s.now ≤ now ∧ s' = { s with now := now } := by
  cases h with
  | ticked hnow => exact .inr ⟨_, rfl, hnow, rfl⟩
  | dispatched => exact .inl now_dispatch
  | enteredThen => exact .inl (now_dispatch (s := s))
  | gathered => exact .inl now_releaseNext
  | releasedNext => exact .inl now_releaseNext
  | _ => exact .inl rfl

omit [DecidableEq F] in
theorem exclusive_initial : Exclusive config (.initial : System F R) where
  staged i call h := by cases h
  placed i call h := by cases h
  single := .free
  bounded row h := by cases h
  held i h := by cases h
  kept i call expires h := by cases h

/-! ### Every run -/

variable [DecidableEq R]

namespace Sample

/-- A mutation of an external server is cancelled and leaves its lease behind; a mutation of the other
host is refused, and after the lease has expired another one is dispatched. -/
def deferred : List (Action String String) :=
  started ++ writes 0 0 writing ++
    [.interrupt 0, .taskEnds 0 .cancelled, .resume 0 true, .operate 0, .resume 0 true] ++
    claims 1 1 foreign writer ++ [.resume 1 false, .operate 1, .operate 1, .resume 1 false, .tick 20] ++
    writes 2 1 foreign

/-- The principal of a running mutation is released through the other host, where it has no call, and
another mutation is dispatched. -/
def released : List (Action String String) :=
  started ++ writes 0 0 writing ++
    [.releasePrincipal 1 "alice", .beginRelease 0, .resumeRelease 0, .operateRelease 0] ++
    writes 1 1 foreign

end Sample

end OpenAgent.Host
