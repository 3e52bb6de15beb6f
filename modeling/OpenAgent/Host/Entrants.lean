import OpenAgent.Host.SingleMutator

/-!
# The sets of a host and the lease's entrant

Two facts that every run of the hosts keeps. A call id is in a set of its host at most once, so that taking it out leaves none
of it there. And the lease belongs to a call that mutates and has not left it: only such a call enters it, in its coroutine or
in a thread that goes on when the call is interrupted before its dispatch, and the operation that leaves it is the call's own.
-/

namespace OpenAgent.Host

open Lib List

variable {F R : Type}

/-! ### The tables of a host -/

def CapabilityHost.Tidy (host : CapabilityHost) : Prop := host.activeMutating.Nodup ∧ host.uncancellableActive.Nodup

section Tidy

variable {s s' : System F R} {i : Nat} {call call' : Call F R}

theorem tidy_modify {hosts : List CapabilityHost} (h : ∀ host ∈ hosts, host.Tidy) {k : Nat}
    {f : CapabilityHost → CapabilityHost} (hf : ∀ host, host.Tidy → (f host).Tidy) : ∀ host ∈ hosts.modify k f, host.Tidy := by
  intro host hhost
  obtain ⟨j, hj⟩ := mem_iff_getElem?.mp hhost
  obtain ⟨old, hold, rfl⟩ := getElem?_modify_eq_some.mp hj
  have htidy := h old (mem_of_getElem? hold)
  split
  · exact hf old htidy
  · exact htidy

theorem tidy_register (host : CapabilityHost) (h : host.Tidy) : (host.register i call).Tidy := by
  refine ⟨?_, ?_⟩
  · rw [CapabilityHost.register]
    dsimp only
    split
    · exact h.1.insert
    · exact h.1
  · rw [CapabilityHost.register]
    dsimp only
    split
    · exact h.2.insert
    · exact h.2

theorem tidy_forget {callId : String} (host : CapabilityHost) (h : host.Tidy) : (host.forget callId).Tidy :=
  ⟨h.1.erase _, h.2.erase _⟩

theorem tidy_dispatch (h : ∀ host ∈ s.hosts, host.Tidy) : ∀ host ∈ (s.dispatch i call).hosts, host.Tidy := by
  rw [System.dispatch]
  split
  · exact tidy_modify h tidy_register
  · split
    · exact h
    · exact h

theorem tidy_releaseNext {change : ConsentChange} {granted : Nat} {host : CapabilityHost} {principals : List String}
    (h : ∀ host ∈ s.hosts, host.Tidy) : ∀ host' ∈ (s.releaseNext i change granted host principals).hosts, host'.Tidy := by
  cases principals with
  | nil => exact h
  | cons principal rest => exact h

variable [DecidableEq F] {config : HostConfig R} {a : Action F R}

theorem Move.tidy (hmove : Move config s a s') (h : ∀ host ∈ s.hosts, host.Tidy) : ∀ host ∈ s'.hosts, host.Tidy := by
  cases hmove with
  | booted =>
    intro host hhost
    rcases List.mem_append.mp hhost with hold | hnew
    · exact h host hold
    · cases List.mem_singleton.mp hnew
      exact ⟨.nil, .nil⟩
  | dispatched => exact tidy_dispatch h
  | enteredThen => exact tidy_modify (tidy_dispatch h) fun _ htidy => htidy
  | @kept i call =>
    have hforgotten := tidy_modify (k := call.host) h fun host => @tidy_forget call.request.callId host
    exact tidy_modify hforgotten fun _ htidy => htidy
  | finished => exact tidy_modify h tidy_forget
  | gathered => exact tidy_releaseNext h
  | releasedNext => exact tidy_releaseNext h
  | crashed | called | acquired | unlocked | readAdmitted | readOver | released | releaseOperated |
    granted | withdrawing | enabledOver | gathering | withdrawn | changeFailed | closeOpened |
    closeLocked | closed => exact tidy_modify h fun _ htidy => htidy
  | _ => exact h

end Tidy

/-! ### The lease and who entered it -/

def Phase.armed : Phase R → Bool
  | .waiting => false
  | .admitted => false
  | .left => false
  | _ => true

/-- The phases after an operation of `_admit_call` was given up. -/
def Phase.dropped : Phase R → Bool
  | .abandoningEarly => true
  | .unlocking => true
  | .finished => true
  | _ => false

structure Call.Owns (call : Call F R) (holder callId : String) : Prop where
  mutating : call.mutating = true
  principal : call.request.principal = holder
  callId : call.request.callId = callId
  armed : call.phase.armed = true

/-- Whoever has entered the lease, or may still enter it in a thread, is a call that mutates and has not left it. -/
structure System.Owned (s : System F R) : Prop where
  single : s.tables.lease.Single
  entrant : ∀ (holder callId : String) (expires : Int) (i : Nat), s.tables.lease = .leased holder callId expires i →
    ∃ call, s.calls[i]? = some call ∧ call.Owns holder callId
  orphans : ∀ job ∈ s.jobs, ∀ (i : Nat) (holder callId : String), job.op = .enter i holder callId →
    ∃ call, s.calls[i]? = some call ∧ call.Owns holder callId ∧ call.phase.dropped = true
  entering : ∀ (i : Nat) (call : Call F R), s.calls[i]? = some call → call.phase = .entering → call.mutating = true

section Owned

variable [DecidableEq F] {config : HostConfig R} {s s' : System F R} {a : Action F R} {i : Nat} {call call' : Call F R}
  {holder callId : String}

omit [DecidableEq F] in
theorem Phase.armed_answered {reply : Except HostException (Reply R)} {phase : Phase R} (h : phase.armed = true) :
    (phase.answered reply).armed = true ∨ phase = .leaving := by
  cases phase with
  | waiting | admitted | left => cases h
  | leaving => exact .inr rfl
  | claiming =>
    cases reply with
    | ok reply => cases reply with
      | _ => exact .inl rfl
    | error => exact .inl rfl
  | entering | leavingEarly =>
    cases reply with
    | _ => exact .inl rfl
  | _ => exact .inl rfl

omit [DecidableEq F] in
theorem Phase.armed_of_renewing {phase : Phase R} (h : phase.renewing = true) : phase.armed = true := by
  cases phase with
  | _ => first | rfl | cases h

theorem Call.Moved.owns (h : call.Moved config s a i call') (howns : call.Owns holder callId) :
    call'.Owns holder callId ∨ call.phase = .leaving ∧ s.executes a = some ⟨call.host, .leave holder callId⟩ := by
  obtain ⟨hmutating, hprincipal, hcallId, harmed⟩ := howns
  cases h with
  | acquired hphase | admitted hphase =>
    rw [hphase] at harmed
    cases harmed
  | @operated op hop hjob =>
    rcases Phase.armed_answered harmed with harmed' | hleaving
    · exact .inl ⟨hmutating, hprincipal, hcallId, harmed'⟩
    · rw [Call.pending, hleaving] at hop
      cases hop
      rw [hjob, hprincipal, hcallId]
      exact .inr ⟨hleaving, rfl⟩
  | faulted hop text =>
    rcases @Phase.armed_answered R (.error (.python text)) _ harmed with harmed' | hleaving
    · exact .inl ⟨hmutating, hprincipal, hcallId, harmed'⟩
    · exact .inl ⟨hmutating, hprincipal, hcallId, by simp only [hleaving]; rfl⟩
  | landed hlanded =>
    refine .inl ⟨hmutating, hprincipal, hcallId, ?_⟩
    cases hlanded with
    | stayed => exact harmed
    | back _ hback =>
      rcases hback with rfl | rfl
      · rfl
      · rfl
    | dropped => rfl
    | on _ hphase =>
      rcases hphase with hphase | rfl
      · exact Phase.armed_of_renewing hphase
      · rfl
  | disabled _ hback =>
    refine .inl ⟨hmutating, hprincipal, hcallId, ?_⟩
    rcases hback with rfl | rfl
    · rfl
    · rfl
  | taskEnded => exact .inl ⟨hmutating, hprincipal, hcallId, harmed⟩
  | _ => exact .inl ⟨hmutating, hprincipal, hcallId, rfl⟩

theorem Call.Moved.dropped (h : call.Moved config s a i call') (hdropped : call.phase.dropped = true) :
    call'.phase.dropped = true := by
  cases hphase : call.phase with
  | abandoningEarly | unlocking | finished =>
    cases h with
    | operated | faulted => simp only [hphase]; rfl
    | landed hlanded =>
      cases hlanded with
      | stayed => exact hdropped
      | back _ hback =>
        rcases hback with rfl | rfl
        · rfl
        · rfl
      | dropped => rfl
      | on hrenewing =>
        rw [hphase] at hrenewing
        cases hrenewing
    | taskEnded => exact hdropped
    | dispatched hbefore | disabled hbefore | finished hbefore =>
      simp [hphase] at hbefore
    | acquired hbefore | admitted hbefore | replayed hbefore | entering hbefore | leaving hbefore =>
      simp [hphase] at hbefore
    | _ => rfl
  | _ =>
    rw [hphase] at hdropped
    cases hdropped

omit [DecidableEq F] in
theorem leased_inj {holder' callId' : String} {expires expires' : Int} {j : Nat}
    (h : LeaseTables.leased holder callId expires i = .leased holder' callId' expires' j) :
    holder = holder' ∧ callId = callId' ∧ i = j := by
  have hrow := congrArg LeaseTables.lease h
  simp only [lease_leased, Option.some.injEq, LeaseRow.mk.injEq] at hrow
  have hsame : (LeaseTables.leased holder' callId' expires' j).sameCall holder callId = true :=
    h ▸ sameCall_leased.mpr ⟨rfl, rfl⟩
  exact ⟨hrow.1, (sameCall_leased.mp hsame).2.symm, hrow.2.2⟩

theorem perform_leased {T : Tables F R} (hsingle : T.lease.Single) {owner : Nat} {now expires : Int} {op : Op F R}
    (h : (perform config owner now op T).2.lease = .leased holder callId expires i) :
    op ≠ .leave holder callId ∧
      (op = .enter i holder callId ∨ ∃ expires, T.lease = .leased holder callId expires i) := by
  have hmoved : LeaseMoved config now T.lease op (perform config owner now op T).2.lease := perform_lease hsingle owner now op
  rw [h] at hmoved
  have hfree : ∀ {holder callId expires i}, LeaseTables.leased holder callId expires i ≠ .free := by
    intro holder callId expires i hfree
    cases congrArg LeaseTables.lease hfree
  refine ⟨?_, ?_⟩
  · rintro rfl
    have hleft : leaveLease holder callId T.lease = .leased holder callId expires i := h
    rcases hsingle with hT | ⟨holder', callId', expires', j, hT⟩
    · rw [hT, leaveLease_free] at hleft
      exact hfree hleft.symm
    · rw [hT, leaveLease_leased] at hleft
      split at hleft
      · exact hfree hleft.symm
      · rename_i hother
        obtain ⟨rfl, rfl, -⟩ := leased_inj hleft
        exact hother ⟨rfl, rfl⟩
  · generalize hT' : LeaseTables.leased holder callId expires i = T' at hmoved
    cases hmoved with
    | same => exact .inr ⟨expires, hT'.symm⟩
    | lapsed => exact absurd hT' hfree
    | entered =>
      obtain ⟨rfl, rfl, rfl⟩ := leased_inj hT'
      exact .inl rfl
    | renewed heq =>
      obtain ⟨rfl, rfl, rfl⟩ := leased_inj hT'
      exact .inr ⟨_, heq⟩
    | taken => exact absurd hT' hfree

theorem Move.orphaned (h : Move config s a s') {job : Job F R} (hjob : job ∈ s'.jobs) (hop : job.op = .enter i holder callId) :
    job ∈ s.jobs ∨ ∃ call, s.calls[i]? = some call ∧ call.phase = .entering ∧
      call.request.principal = holder ∧ call.request.callId = callId ∧ s'.calls[i]? = some { call with phase := .abandoningEarly } := by
  cases h with
  | @interrupted j call hcall requests =>
    rcases mem_orphan.mp hjob with hold | ⟨op, hmem, rfl⟩
    · exact .inl hold
    · obtain rfl : op = _ := hop
      have hpending := Option.mem_toList.mp hmem
      cases hphase : call.phase with
      | entering =>
        simp only [Call.pending, hphase, Option.some.injEq, Op.enter.injEq] at hpending
        obtain ⟨rfl, rfl, rfl⟩ := hpending
        have hcall := (System.call?_eq_some.mp hcall).1
        refine .inr ⟨call, hcall, hphase, rfl, rfl, ?_⟩
        refine (getElem?_set_eq_some hcall).mpr (.inl ⟨rfl, ?_⟩)
        simp only [Call.interrupted, hphase]
      | _ => simp [Call.pending, hphase] at hpending
  | @renewed j call hcall hphase =>
    rcases mem_orphan.mp hjob with hold | ⟨op, hmem, rfl⟩
    · exact .inl hold
    · obtain rfl : op = _ := hop
      simp [Request.renewals] at hmem
  | worked => exact .inl (mem_of_mem_eraseIdx hjob)
  | releaseFailed hrelease hops =>
    rcases mem_orphan.mp hjob with hold | ⟨op, hmem, rfl⟩
    · exact .inl hold
    · obtain ⟨principal, rfl⟩ := hops op hmem
      cases hop
  | closed _ hclosing hlocked hops =>
    rcases mem_orphan.mp hjob with hold | ⟨op, hmem, rfl⟩
    · exact .inl hold
    · obtain ⟨principal, rfl⟩ := hops op hmem
      cases hop
  | dispatched _ _ _ => exact .inl ((dispatch_kept (s := s)).2.2 ▸ hjob)
  | enteredThen _ _ => exact .inl ((dispatch_kept (s := s)).2.2 ▸ hjob)
  | gathered _ _ _ _ principals => exact .inl ((releaseNext_kept (s := s)).2.2.2 ▸ hjob)
  | releasedNext _ _ _ => exact .inl ((releaseNext_kept (s := s)).2.2.2 ▸ hjob)
  | _ => exact .inl hjob

omit [DecidableEq F] in
theorem System.Owned.enters (h : s.Owned) {job : Job F R} (hjob : s.executes a = some job)
    (hop : job.op = .enter i holder callId) : ∃ call, s.calls[i]? = some call ∧ call.Owns holder callId := by
  cases a with
  | operate j =>
    obtain ⟨call, op, hcall, hpending, rfl⟩ := executes_operate hjob
    obtain rfl : op = _ := hop
    have hcall := (System.call?_eq_some.mp hcall).1
    cases hphase : call.phase with
    | entering =>
      simp only [Call.pending, hphase, Option.some.injEq, Op.enter.injEq] at hpending
      obtain ⟨rfl, rfl, rfl⟩ := hpending
      exact ⟨call, hcall, h.entering _ call hcall hphase, rfl, rfl, by rw [hphase]; rfl⟩
    | _ => simp [Call.pending, hphase] at hpending
  | job n =>
    obtain ⟨hmem, -⟩ := Option.filter_eq_some_iff.mp hjob
    obtain ⟨call, hcall, howns, -⟩ := h.orphans job (mem_of_getElem? hmem) i holder callId hop
    exact ⟨call, hcall, howns⟩
  | operateRelease j =>
    obtain ⟨release, -, -, rfl⟩ := executes_operateRelease hjob
    cases hop
  | operateClose j =>
    obtain ⟨closing, principal, rest, -, -, rfl⟩ := executes_operateClose hjob
    cases hop
  | _ => cases hjob

theorem Call.Moved.entering_mutating (h : call.Moved config s a i call') (hphase : call'.phase = .entering)
    (hbefore : call.phase = .entering → call.mutating = true) : call'.mutating = true := by
  cases h with
  | entering _ hmutating => exact hmutating
  | @operated op hop hjob =>
    cases hold : call.phase with
    | claiming =>
      simp only [hold] at hphase
      generalize (s.ran config ⟨call.host, op⟩).1 = reply at hphase
      cases reply with
      | ok reply => cases reply with
        | _ => cases hphase
      | error => cases hphase
    | entering => exact hbefore hold
    | leavingEarly | leaving =>
      simp only [hold] at hphase
      generalize (s.ran config ⟨call.host, op⟩).1 = reply at hphase
      cases reply with
      | _ => cases hphase
    | _ =>
      simp only [hold] at hphase
      cases hphase
  | faulted hop text =>
    cases hold : call.phase with
    | entering => exact hbefore hold
    | _ =>
      simp only [hold] at hphase
      cases hphase
  | landed hlanded =>
    cases hlanded with
    | stayed => exact hbefore hphase
    | back _ hback =>
      simp only at hphase
      simp [hphase] at hback
    | dropped => cases hphase
    | on _ hon =>
      simp only at hphase
      simp [hphase, Phase.renewing] at hon
  | disabled _ hback =>
    simp only at hphase
    simp [hphase] at hback
  | taskEnded => exact hbefore hphase
  | _ => cases hphase

theorem Move.owned (hmove : Move config s a s') (h : s.Owned) : s'.Owned where
  single := by
    rw [hmove.tables]
    cases s.executes a with
    | none => exact h.single
    | some job => exact (perform_lease h.single job.host s.now job.op).single h.single
  entrant := by
    intro holder callId expires i hlease
    have howner : (∃ call, s.calls[i]? = some call ∧ call.Owns holder callId) ∧
        ∀ host, s.executes a ≠ some ⟨host, .leave holder callId⟩ := by
      rw [hmove.tables] at hlease
      cases hjob : s.executes a with
      | none =>
        rw [hjob] at hlease
        exact ⟨h.entrant holder callId expires i hlease, nofun⟩
      | some job =>
        rw [hjob] at hlease
        obtain ⟨hother, howner⟩ := perform_leased h.single hlease
        refine ⟨?_, fun host heq => hother (congrArg Job.op (Option.some.inj heq))⟩
        rcases howner with hop | ⟨expires', hbefore⟩
        · exact h.enters hjob hop
        · exact h.entrant holder callId expires' i hbefore
    obtain ⟨⟨call, hcall, howns⟩, hother⟩ := howner
    rcases hmove.call_to hcall with hsame | ⟨call', hcall', hmoved⟩
    · exact ⟨call, hsame, howns⟩
    · exact ⟨call', hcall', (hmoved.owns howns).resolve_right fun hleaves => hother _ hleaves.2⟩
  orphans := by
    intro job hjob i holder callId hop
    rcases hmove.orphaned hjob hop with hold | ⟨call, hcall, hphase, hprincipal, hcallId, hcall'⟩
    · obtain ⟨call, hcall, howns, hdropped⟩ := h.orphans job hold i holder callId hop
      rcases hmove.call_to hcall with hsame | ⟨call', hcall', hmoved⟩
      · exact ⟨call, hsame, howns, hdropped⟩
      · refine ⟨call', hcall', (hmoved.owns howns).resolve_right fun hleaves => ?_, hmoved.dropped hdropped⟩
        rw [hleaves.1] at hdropped
        cases hdropped
    · exact ⟨_, hcall', ⟨h.entering i call hcall hphase, hprincipal, hcallId, rfl⟩, rfl⟩
  entering := by
    intro i call' hcall' hphase
    rcases hmove.call_of hcall' with hold | ⟨call, hmoving, hmoved⟩ | ⟨n, host, request, -, rfl⟩
    · exact h.entering i call' hold hphase
    · exact hmoved.entering_mutating hphase (h.entering i call (System.call?_eq_some.mp hmoving).1)
    · cases hphase

end Owned

end OpenAgent.Host
