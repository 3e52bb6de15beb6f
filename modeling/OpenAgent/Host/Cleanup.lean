import OpenAgent.Host.Attended
import OpenAgent.Host.Entrants

/-!
# What a call leaves behind

A call that passed admission ends from its `finally` block, and the four ways out of it are told apart by the step that takes
them. Two go through to the end: the call is out of the tables of its host, its event is set and the lease is left or kept on
purpose. In the other two the renewer or the leaving of the lease raises, and what comes after is skipped.
-/

namespace OpenAgent.Host

open Lib Option

variable {F R : Type}

/-! ### The end of a call -/

section Unwinding

variable [DecidableEq F] {config : HostConfig R} {s s' : System F R} {a : Action F R} {i : Nat} {call call' : Call F R}

/-- The phases of the `finally` block. -/
def Phase.unwinding : Phase R → Bool
  | .closing => true
  | .leaving => true
  | .left => true
  | _ => false

/-- What a step does to a call that is in its `finally` block. -/
inductive Call.Unwound (s : System F R) (i : Nat) (call : Call F R) : Action F R → System F R → Call F R → Prop
  | stayed {a : Action F R} {s' : System F R} {call' : Call F R} (hphase : call'.phase = call.phase) : Unwound s i call a s' call'
  | kept {external : Bool} {call' : Call F R} (hphase : call.phase = .closing) (hmutating : call.mutating = true)
      (hindeterminate : call.leaseIndeterminate = true) (hcall' : call' =
        { call with kept := s.tables.lease.expiryOf i, phase := .finished, signalled := true }) :
      Unwound s i call (.resume i external) ((s.finish i { call with kept := s.tables.lease.expiryOf i }).onHost call.host
        (.retaining call.request.principal)) call'
  | leaves {external : Bool} {s' : System F R} {call' : Call F R} (hphase : call.phase = .closing)
      (hphase' : call'.phase = .leaving) : Unwound s i call (.resume i external) s' call'
  | finished {external : Bool} {call' : Call F R} (hphase : call.phase = .closing ∧ call.mutating = false ∨ call.phase = .left)
      (hcall' : call' = { call with phase := .finished, signalled := true }) :
      Unwound s i call (.resume i external) (s.finish i call) call'
  | left {s' : System F R} {call' : Call F R} (hphase : call.phase = .leaving) (hphase' : call'.phase = .left) :
      Unwound s i call (.operate i) s' call'
  | faulted {text : String} {s' : System F R} {call' : Call F R} (hphase : call.phase = .closing ∨ call.phase = .leaving)
      (hphase' : call'.phase = .finished) (hsignalled : call'.signalled = call.signalled) : Unwound s i call (.fault i text) s' call'
  | interrupted {s' : System F R} {call' : Call F R} (hphase : call.phase = .leaving ∨ call.phase = .left)
      (hphase' : call'.phase = .finished) (hsignalled : call'.signalled = call.signalled) : Unwound s i call (.interrupt i) s' call'

omit [DecidableEq F] in
theorem Call.leave_of_pending {op : Op F R} (hunwinding : call.phase.unwinding = true) (hop : call.pending i = some op) :
    call.phase = .leaving ∧ op = .leave call.request.principal call.request.callId := by
  cases hphase : call.phase with
  | leaving =>
    simp only [Call.pending, hphase, Option.some.injEq] at hop
    exact ⟨rfl, hop.symm⟩
  | closing | left => simp [Call.pending, hphase] at hop
  | _ =>
    rw [hphase] at hunwinding
    cases hunwinding

omit [DecidableEq F] in
theorem Call.interrupted_unwound (hunwinding : call.phase.unwinding = true) :
    call.Unwound s i (.interrupt i) s' call.interrupted := by
  cases hphase : call.phase with
  | closing => exact .stayed (by simp only [Call.interrupted, hphase])
  | leaving => exact .interrupted (.inl hphase) (by simp only [Call.interrupted, hphase]) (by simp only [Call.interrupted, hphase])
  | left => exact .interrupted (.inr hphase) (by simp only [Call.interrupted, hphase]) (by simp only [Call.interrupted, hphase])
  | _ =>
    rw [hphase] at hunwinding
    cases hunwinding

theorem Move.unwound (h : Move config s a s') (hcall : s.calls[i]? = some call) (hunwinding : call.phase.unwinding = true)
    (hcall' : s'.calls[i]? = some call') : call.Unwound s i a s' call' := by
  have hsame : s'.calls = s.calls → call.Unwound s i a s' call' := by
    intro heq
    rw [heq, hcall] at hcall'
    cases hcall'
    exact .stayed rfl
  -- a step that sets one call matters where it is this one
  have hset : ∀ {j : Nat} {moving new : Call F R}, s.call? j = some moving → s'.calls = s.calls.set j new →
      (j = i → moving = call → new = call' → call.Unwound s i a s' call') → call.Unwound s i a s' call' := by
    intro j moving new hmoving heq hthis
    have hold := (System.call?_eq_some.mp hmoving).1
    rw [heq] at hcall'
    rcases (getElem?_set_eq_some hold).mp hcall' with ⟨rfl, rfl⟩ | ⟨-, hkept⟩
    · exact hthis rfl (some.inj (hold.symm.trans hcall)) rfl
    · cases hcall.symm.trans hkept
      exact .stayed rfl
  have hearly : ∀ {moving : Call F R} {phase : Phase R}, moving = call → moving.phase = phase → phase.unwinding = false → False := by
    rintro moving phase rfl rfl hnot
    simp [hnot] at hunwinding
  have hdispatch : ∀ {j : Nat} {moving : Call F R}, s.call? j = some moving →
      moving.phase = .claimed .new ∨ moving.phase = .entered → (∃ new, s'.calls = s.calls.set j new) →
      call.Unwound s i a s' call' := by
    rintro j moving hmoving hphase ⟨new, heq⟩
    refine hset hmoving heq fun _ hthis _ => ?_
    rcases hphase with hphase | hphase
    · exact (hearly hthis hphase rfl).elim
    · exact (hearly hthis hphase rfl).elim
  have hdispatched : ∀ (j : Nat) (moving : Call F R), ∃ new, (s.dispatch j moving).calls = s.calls.set j new := by
    intro j moving
    rw [System.dispatch]
    split
    · exact ⟨_, rfl⟩
    · split
      · exact ⟨_, rfl⟩
      · exact ⟨_, rfl⟩
  cases h with
  | called hhost =>
    rcases getElem?_append_singleton.mp hcall' with hold | ⟨hlength, -⟩
    · exact .stayed (by rw [some.inj (hcall.symm.trans hold)])
    · have hlt := (List.getElem?_eq_some_iff.mp hcall).1
      omega
  | acquired hmoving _ hphase _ => exact hset hmoving rfl fun _ hthis _ => (hearly hthis hphase rfl).elim
  | admitted hmoving hphase _ => exact hset hmoving rfl fun _ hthis _ => (hearly hthis hphase rfl).elim
  | refused hmoving hphase => exact hset hmoving rfl fun _ hthis _ => (hearly hthis hphase rfl).elim
  | operated hmoving hop =>
    refine hset hmoving rfl ?_
    rintro rfl rfl rfl
    obtain ⟨hleaving, rfl⟩ := Call.leave_of_pending hunwinding hop
    exact .left hleaving (congrArg (Phase.answered (.ok .done)) hleaving)
  | @faulted j moving op text hmoving hop =>
    refine hset hmoving rfl ?_
    rintro rfl rfl rfl
    have hleaving := (Call.leave_of_pending hunwinding hop).1
    exact .faulted (.inr hleaving) (congrArg (Phase.answered (.error (.python text))) hleaving) rfl
  | renewerFailed hmoving hphase =>
    refine hset hmoving rfl ?_
    rintro rfl rfl rfl
    exact .faulted (.inl hphase) rfl rfl
  | interrupted hmoving requests =>
    refine hset hmoving rfl ?_
    rintro rfl rfl rfl
    exact Call.interrupted_unwound hunwinding
  | replayed hmoving hphase => exact hset hmoving rfl fun _ hthis _ => (hearly hthis hphase rfl).elim
  | entering hmoving hphase _ => exact hset hmoving rfl fun _ hthis _ => (hearly hthis hphase rfl).elim
  | dispatched hmoving hphase _ => exact hdispatch hmoving (.inl hphase) (hdispatched _ _)
  | enteredThen hmoving hphase => exact hdispatch hmoving (.inr hphase) (hdispatched _ _)
  | unlocked hmoving hphase => exact hset hmoving rfl fun _ hthis _ => (hearly hthis hphase rfl).elim
  | settled hmoving hphase _ => exact hset hmoving rfl fun _ hthis _ => (hearly hthis hphase rfl).elim
  | drained hmoving hphase _ => exact hset hmoving rfl fun _ hthis _ => (hearly hthis hphase rfl).elim
  | kept hmoving hphase hmutating hindeterminate =>
    refine hset hmoving rfl ?_
    rintro rfl rfl hnew
    exact .kept hphase hmutating hindeterminate hnew.symm
  | leaving hmoving hphase _ _ =>
    refine hset hmoving rfl ?_
    rintro rfl rfl rfl
    exact .leaves hphase rfl
  | finished hmoving hphase =>
    refine hset hmoving rfl ?_
    rintro rfl rfl hnew
    exact .finished hphase hnew.symm
  | taskEnded hmoving hrunning =>
    refine hset hmoving rfl ?_
    rintro rfl rfl rfl
    exact .stayed rfl
  | gathered _ _ _ _ principals => exact hsame releaseNext_kept.1
  | releasedNext _ _ _ => exact hsame releaseNext_kept.1
  | _ => exact hsame rfl

/-! No step takes a call back: it is admitted, runs, is in its `finally` block and is over. -/

def Phase.rank : Phase R → Nat
  | .awaiting => 1
  | .draining => 1
  | .completing _ => 1
  | .marking => 1
  | .abandoning => 1
  | .closing => 2
  | .leaving => 3
  | .left => 4
  | .finished => 5
  | _ => 0

/-- A call runs before it is in its `finally` block, and is over without either only where it is not admitted. -/
structure Phase.Onward (phase phase' : Phase R) : Prop where
  le : phase.rank ≤ phase'.rank
  next : phase.rank ≤ 1 → phase'.rank ≤ phase.rank + 1 ∨ phase.rank = 0 ∧ phase' = .finished

omit [DecidableEq F] in
theorem Phase.Onward.refl (phase : Phase R) : phase.Onward phase := ⟨Nat.le_refl _, fun _ => .inl (Nat.le_succ _)⟩

omit [DecidableEq F] in
theorem Phase.Onward.of_zero {phase phase' : Phase R} (hzero : phase.rank = 0) (hle : phase'.rank ≤ 1) : phase.Onward phase' :=
  ⟨by omega, fun _ => .inl (by omega)⟩

omit [DecidableEq F] in
theorem Phase.Onward.finished (phase : Phase R) (h : phase.rank = 0 ∨ 1 < phase.rank) : phase.Onward .finished := by
  refine ⟨?_, fun hle => .inr ⟨by omega, rfl⟩⟩
  cases phase with
  | _ => simp [rank]

omit [DecidableEq F] in
theorem Phase.onward_answered (reply : Except HostException (Reply R)) (phase : Phase R) : phase.Onward (phase.answered reply) := by
  cases phase with
  | claiming =>
    cases reply with
    | ok reply => cases reply with
      | _ => exact ⟨Nat.le_refl _, fun _ => .inl (Nat.le_succ _)⟩
    | error => exact ⟨Nat.le_refl _, fun _ => .inl (Nat.le_succ _)⟩
  | entering | leavingEarly =>
    cases reply with
    | _ => exact ⟨Nat.le_refl _, fun _ => .inl (Nat.le_succ _)⟩
  | leaving =>
    cases reply with
    | ok => exact ⟨by simp [answered, rank], by simp [rank]⟩
    | error => exact .finished _ (.inr (by simp [rank]))
  | completing | marking | abandoning => exact ⟨by simp [answered, rank], by simp [answered, rank]⟩
  | abandoningEarly => exact ⟨Nat.le_refl _, fun _ => .inl (Nat.le_succ _)⟩
  | _ => exact .refl _

omit [DecidableEq F] in
theorem Phase.rank_of_renewing {phase : Phase R} (h : phase.renewing = true) : phase.rank = 1 := by
  cases phase with
  | _ => first | rfl | cases h

omit [DecidableEq F] in
theorem Phase.rank_eq_zero {phase : Phase R} : phase.rank = 0 ↔ phase.early = true := by
  cases phase with
  | _ => simp [rank, early, locked]

omit [DecidableEq F] in
theorem Phase.unwinding_of_rank {phase : Phase R} (h : 1 < phase.rank) (hopen : phase ≠ .finished) : phase.unwinding = true := by
  cases phase with
  | closing | leaving | left => rfl
  | finished => exact absurd rfl hopen
  | _ => simp [rank] at h

omit [DecidableEq F] in
theorem Call.Landed.onward {phase : Phase R} {indeterminate : Bool} (h : call.Landed phase indeterminate) :
    call.phase.Onward phase := by
  cases h with
  | stayed => exact .refl _
  | back hlocked hback =>
    have hzero := Phase.rank_eq_zero.mpr (Phase.early_of_locked hlocked)
    rcases hback with rfl | rfl
    · exact .of_zero hzero (Nat.zero_le 1)
    · exact .of_zero hzero (Nat.zero_le 1)
  | dropped hphase =>
    refine .finished _ ?_
    rcases hphase with hphase | hphase | hphase
    · exact .inl (by rw [hphase]; rfl)
    · exact .inr (by simp [hphase, Phase.rank])
    · exact .inr (by simp [hphase, Phase.rank])
  | on hrenewing hphase =>
    have hone := Phase.rank_of_renewing hrenewing
    rcases hphase with hphase | rfl
    · have hone' := Phase.rank_of_renewing hphase
      exact ⟨by omega, by omega⟩
    · have htwo : (Phase.closing : Phase R).rank = 2 := rfl
      exact ⟨by omega, by omega⟩

theorem Call.Moved.onward (h : call.Moved config s a i call') : call.phase.Onward call'.phase := by
  cases h with
  | operated => exact Phase.onward_answered _ _
  | faulted _ text => exact Phase.onward_answered (.error (.python text)) call.phase
  | landed hlanded => exact hlanded.onward
  | acquired hphase | admitted hphase | refused hphase | replayed hphase | entering hphase | leaving hphase =>
    exact ⟨by simp [hphase, Phase.rank], by simp [hphase, Phase.rank]⟩
  | dispatched hphase =>
    rcases hphase with ⟨hphase, -⟩ | hphase
    · exact ⟨by simp [hphase, Phase.rank], by simp [hphase, Phase.rank]⟩
    · exact ⟨by simp [hphase, Phase.rank], by simp [hphase, Phase.rank]⟩
  | disabled hphase hback =>
    have hzero : call.phase.rank = 0 := by
      rcases hphase with ⟨hphase, -⟩ | hphase
      · rw [hphase]; rfl
      · rw [hphase]; rfl
    rcases hback with rfl | rfl
    · exact .of_zero hzero (Nat.zero_le 1)
    · exact .of_zero hzero (Nat.zero_le 1)
  | renewerFailed hphase | kept hphase => exact .finished _ (.inr (by simp [hphase, Phase.rank]))
  | unlocked hphase => exact .finished _ (.inl (by rw [hphase]; rfl))
  | finished hphase =>
    refine .finished _ (.inr ?_)
    rcases hphase with ⟨hphase, -⟩ | hphase
    · simp [hphase, Phase.rank]
    · simp [hphase, Phase.rank]
  | taskEnded => exact .refl _

/-- A dispatched call ends from its `finally` block. -/
theorem Call.Moved.over (h : call.Moved config s a i call') (hstaged : call.Staged) (htask : call.task.isSome = true)
    (hopen : call.phase ≠ .finished) (hover : call'.phase = .finished) : call.phase.unwinding = true := by
  refine Phase.unwinding_of_rank (Nat.lt_of_not_le fun hle => ?_) hopen
  have hlate : call.phase.rank ≠ 0 := by
    intro hzero
    simp [hstaged.early (Phase.rank_eq_zero.mp hzero)] at htask
  have hnext := h.onward.next hle
  rw [hover] at hnext
  have hrank : (Phase.finished : Phase R).rank = 5 := rfl
  omega

/-- A call that leaves the lease, or has left it, was in its `finally` block before as well. -/
theorem Call.Moved.unwinding_of (h : call.Moved config s a i call') (hleaving : call'.phase = .leaving ∨ call'.phase = .left) :
    call.phase.unwinding = true := by
  have hrank : 3 ≤ call'.phase.rank ∧ call'.phase.rank ≤ 4 ∧ call'.phase ≠ .finished := by
    rcases hleaving with hphase | hphase
    · simp [hphase, Phase.rank]
    · simp [hphase, Phase.rank]
  have honward := h.onward
  have hopen : call.phase ≠ .finished := by
    intro hphase
    have hle := honward.le
    rw [hphase] at hle
    have hfive : (Phase.finished : Phase R).rank = 5 := rfl
    omega
  refine Phase.unwinding_of_rank (Nat.lt_of_not_le fun hle => ?_) hopen
  rcases honward.next hle with hnext | ⟨-, hover⟩
  · omega
  · exact hrank.2.2 hover

theorem Call.Moved.unsignalled (h : call.Moved config s a i call')
    (hquiet : call.phase ≠ .finished → call.signalled = false) (hopen : call'.phase ≠ .finished) : call'.signalled = false := by
  have hbefore : call.phase ≠ .finished := by
    intro hphase
    have hle := h.onward.le
    rw [hphase] at hle
    refine hopen ?_
    cases hphase' : call'.phase with
    | finished => rfl
    | _ => simp [hphase', Phase.rank] at hle
  have hsignalled := hquiet hbefore
  cases h with
  | kept | finished => exact absurd rfl hopen
  | _ => exact hsignalled

end Unwinding

/-! ### Every run -/

section Runs

variable [DecidableEq F] [DecidableEq R] {config : HostConfig R} {d d' : Attended F R} {i : Nat} {call call' : Call F R}

structure System.Sorted (s : System F R) : Prop where
  staged : ∀ (i : Nat) (call : Call F R), s.calls[i]? = some call → call.Staged
  tidy : ∀ host ∈ s.hosts, host.Tidy
  owned : s.Owned
  unsignalled : ∀ (i : Nat) (call : Call F R), s.calls[i]? = some call → call.phase ≠ .finished → call.signalled = false

/-- What holds of the hosts in every run, and that a call leaves the lease only after its renewer. -/
structure Attended.Orderly (d : Attended F R) : Prop where
  sorted : d.system.Sorted
  waited : ∀ (i : Nat) (call : Call F R), d.system.calls[i]? = some call → call.phase = .leaving ∨ call.phase = .left →
    (d.asides i).renewer = .finished false

omit [DecidableEq R] in
theorem Move.sorted {s s' : System F R} {a : Action F R} (hmove : Move config s a s') (h : s.Sorted) : s'.Sorted where
  staged := hmove.staged h.staged
  tidy := hmove.tidy h.tidy
  owned := hmove.owned h.owned
  unsignalled := by
    intro i call' hcall' hopen
    rcases hmove.call_of hcall' with hold | ⟨call, hmoving, hmoved⟩ | ⟨n, host, request, -, rfl⟩
    · exact h.unsignalled i call' hold hopen
    · exact hmoved.unsignalled (h.unsignalled i call (System.call?_eq_some.mp hmoving).1) hopen
    · rfl

def Op.renewing : Op F R → Bool
  | .renewLease _ _ => true
  | .renewClaim _ => true
  | _ => false

variable {s : System F R}

omit [DecidableEq R] in
theorem System.Owned.ran (h : s.Owned) {job : Job F R} (hop : job.op.renewing = true) :
    (s.ran config job).2.Owned where
  single := (perform_lease h.single job.host s.now job.op).single h.single
  entrant := by
    intro holder callId expires i hlease
    obtain ⟨-, howner⟩ := perform_leased h.single hlease
    rcases howner with henter | ⟨expires', hbefore⟩
    · rw [henter] at hop
      cases hop
    · exact h.entrant holder callId expires' i hbefore
  orphans := h.orphans
  entering := h.entering

omit [DecidableEq F] [DecidableEq R] in
theorem System.Owned.orphan (h : s.Owned) {host : Nat} {ops : List (Op F R)}
    (hops : ∀ op ∈ ops, op.renewing = true) : (s.orphan host ops).Owned where
  single := h.single
  entrant := h.entrant
  orphans := by
    intro job hjob i holder callId hop
    rcases mem_orphan.mp hjob with hold | ⟨op, hmem, rfl⟩
    · exact h.orphans job hold i holder callId hop
    · have hrenewing := hops op hmem
      rw [show op = _ from hop] at hrenewing
      cases hrenewing
  entering := h.entering

omit [DecidableEq R] in
theorem renews_cases {fails : Bool} (h : d.renews config i fails = some d') :
    (∀ failed, (d.asides i).renewer ≠ .finished failed) ∧ ∃ s renewer, d' = ({ d with system := s } : Attended F R).setRenewer i renewer ∧
      (s = d.system ∨ (∃ host ops, (∀ op ∈ ops, op.renewing = true) ∧ s = d.system.orphan host ops) ∨
        ∃ job : Job F R, job.op.renewing = true ∧ s = (d.system.ran config job).2) := by
  obtain ⟨call, -, h⟩ := Option.bind_eq_some_iff.mp h
  have hops : ∀ (renewer : Renewer), ∀ op : Op F R, op ∈ (renewer.op call.request).toList → op.renewing = true := by
    intro renewer op hop
    cases renewer with
    | renewingLease | renewingClaim =>
      cases List.mem_singleton.mp hop
      rfl
    | _ => cases hop
  split at h
  swap
  · cases h
  split at h
  · cases hrenewer : (d.asides i).renewer with
    | finished => simp [hrenewer] at h
    | _ =>
      simp only [hrenewer, Option.some.injEq] at h
      exact ⟨nofun, _, _, h.symm, .inr (.inl ⟨_, _, hops _, rfl⟩)⟩
  · cases hrenewer : (d.asides i).renewer with
    | finished => simp [hrenewer] at h
    | created | sleeping =>
      simp only [hrenewer, Option.some.injEq] at h
      exact ⟨nofun, _, _, h.symm, .inl rfl⟩
    | renewingLease | renewingClaim =>
      simp only [hrenewer] at h
      split at h
      · cases h
        exact ⟨nofun, _, _, rfl, .inl rfl⟩
      · cases h
        exact ⟨nofun, _, _, rfl, .inr (.inr ⟨_, rfl, rfl⟩)⟩

omit [DecidableEq F] [DecidableEq R] in
theorem expire_cases {external : Bool} (h : d.expire config i external = some d') :
    ∃ s call, d.system.resume config i external = some s ∧ s.calls[i]? = some call ∧ call.phase = .awaiting ∧
      d' = { d with system := s.setCall i { call with phase := .closing } } := by
  obtain ⟨call, -, h⟩ := Option.bind_eq_some_iff.mp h
  obtain ⟨s, hresume, h⟩ := Option.bind_eq_some_iff.mp h
  obtain ⟨call', hcall', h⟩ := Option.bind_eq_some_iff.mp h
  split at h
  · rename_i hphase
    exact ⟨s, call', hresume, (System.call?_eq_some.mp hcall').1, hphase, (some.inj h).symm⟩
  · rename_i hphase
    exact ⟨s, call', hresume, (System.call?_eq_some.mp hcall').1, hphase, (some.inj h).symm⟩
  · cases h

omit [DecidableEq F] [DecidableEq R] in
theorem renewer_of_permits {external : Bool} (h : d.permits (.resume i external) = true) (hcall : d.system.calls[i]? = some call)
    (hclosing : call.phase = .closing) : (d.asides i).renewer = .finished false := by
  simp only [Attended.permits, hcall, all_some, hclosing, Phase.isClosing, Bool.not_true, Bool.false_or, Bool.and_eq_true,
    decide_eq_true_eq] at h
  exact h.2

omit [DecidableEq F] [DecidableEq R] in
theorem System.Sorted.expired (h : s.Sorted) (hcall : s.calls[i]? = some call) (hphase : call.phase = .awaiting) :
    (s.setCall i { call with phase := .closing }).Sorted := by
  have hset : ∀ {j : Nat} {call' : Call F R}, (s.setCall i { call with phase := .closing }).calls[j]? = some call' →
      i = j ∧ call' = { call with phase := .closing } ∨ s.calls[j]? = some call' := by
    intro j call' hcall'
    rcases (getElem?_set_eq_some hcall).mp hcall' with ⟨hij, rfl⟩ | ⟨-, hold⟩
    · exact .inl ⟨hij, rfl⟩
    · exact .inr hold
  have hto : ∀ {j : Nat} {old : Call F R}, s.calls[j]? = some old →
      ∃ new, (s.setCall i { call with phase := .closing }).calls[j]? = some new ∧
        (new = old ∨ old = call ∧ new = { call with phase := .closing }) := by
    intro j old hold
    by_cases hij : i = j
    · subst hij
      cases hcall.symm.trans hold
      exact ⟨_, (getElem?_set_eq_some hcall).mpr (.inl ⟨rfl, rfl⟩), .inr ⟨rfl, rfl⟩⟩
    · exact ⟨old, (getElem?_set_eq_some hcall).mpr (.inr ⟨hij, hold⟩), .inl rfl⟩
  refine ⟨fun j call' hcall' => ?_, h.tidy, ⟨h.owned.single, fun holder callId expires j hlease => ?_, ?_, ?_⟩, ?_⟩
  · rcases hset hcall' with ⟨-, rfl⟩ | hold
    · exact .of_late rfl ((h.staged i call hcall).late (by rw [hphase]; rfl))
    · exact h.staged j call' hold
  · obtain ⟨old, hold, howns⟩ := h.owned.entrant holder callId expires j hlease
    obtain ⟨new, hnew, rfl | ⟨rfl, rfl⟩⟩ := hto hold
    · exact ⟨_, hnew, howns⟩
    · exact ⟨_, hnew, howns.mutating, howns.principal, howns.callId, rfl⟩
  · intro job hjob j holder callId hop
    obtain ⟨old, hold, howns, hdropped⟩ := h.owned.orphans job hjob j holder callId hop
    obtain ⟨new, hnew, rfl | ⟨rfl, rfl⟩⟩ := hto hold
    · exact ⟨_, hnew, howns, hdropped⟩
    · rw [hphase] at hdropped
      cases hdropped
  · intro j call' hcall' hentering
    rcases hset hcall' with ⟨-, rfl⟩ | hold
    · cases hentering
    · exact h.owned.entering j call' hold hentering
  · intro j call' hcall' hopen
    rcases hset hcall' with ⟨-, rfl⟩ | hold
    · exact h.unsignalled i call hcall (by simp [hphase])
    · exact h.unsignalled j call' hold hopen

omit [DecidableEq F] [DecidableEq R] in
theorem orderly_initial : (.initial : Attended F R).Orderly where
  sorted :=
    { staged := fun i call h => by cases h
      tidy := fun host h => by cases h
      owned :=
        { single := .free
          entrant := fun holder callId expires i h => by cases congrArg LeaseTables.lease h
          orphans := fun job h => by cases h
          entering := fun i call h => by cases h }
      unsignalled := fun i call h => by cases h }
  waited i call h := by cases h

theorem orderly_system {a : Action F R} (h : d.Orderly) (hpermits : d.permits a = true)
    (hstep : step config d.system a = some s) {asides : Nat → Aside}
    (hasides : ∀ j, (asides j).renewer = (d.asides j).renewer) : (⟨s, asides⟩ : Attended F R).Orderly := by
  have hmove := step_cases hstep
  refine ⟨hmove.sorted h.sorted, fun i call' hcall' hleaving => ?_⟩
  rw [hasides]
  rcases hmove.call_of hcall' with hold | ⟨call, hmoving, hmoved⟩ | ⟨n, host, request, -, rfl⟩
  · exact h.waited i call' hold hleaving
  · have hcall := (System.call?_eq_some.mp hmoving).1
    cases hmove.unwound hcall (hmoved.unwinding_of hleaving) hcall' with
    | stayed hphase => exact h.waited i call hcall (hphase ▸ hleaving)
    | leaves hclosing => exact renewer_of_permits hpermits hcall hclosing
    | left hphase => exact h.waited i call hcall (.inl hphase)
    | kept _ _ _ heq | finished _ heq =>
      rw [heq] at hleaving
      simp at hleaving
    | faulted _ hphase | interrupted _ hphase => simp [hphase] at hleaving
  · simp at hleaving

omit [DecidableEq R] in
theorem orderly_expire {external : Bool} (h : d.Orderly) (hstep : d.expire config i external = some d') : d'.Orderly := by
  obtain ⟨s, call, hresume, hcall, hphase, rfl⟩ := expire_cases hstep
  have hmove := resume_cases hresume
  refine ⟨(hmove.sorted h.sorted).expired hcall hphase, fun j call' hcall' hleaving => ?_⟩
  rcases (getElem?_set_eq_some hcall).mp hcall' with ⟨-, rfl⟩ | ⟨hij, hold⟩
  · simp at hleaving
  rcases hmove.call_of hold with hold | ⟨before, hmoving, hmoved⟩ | ⟨n, host, request, -, rfl⟩
  · exact h.waited j call' hold hleaving
  · have hbefore := (System.call?_eq_some.mp hmoving).1
    cases hmove.unwound hbefore (hmoved.unwinding_of hleaving) hold with
    | stayed hsame => exact h.waited j before hbefore (hsame ▸ hleaving)
    | _ => exact absurd rfl hij
  · simp at hleaving

omit [DecidableEq R] in
theorem orderly_renews {fails : Bool} (h : d.Orderly) (hstep : d.renews config i fails = some d') : d'.Orderly := by
  obtain ⟨hrunning, s, renewer, rfl, hs⟩ := renews_cases hstep
  have hsame : s.calls = d.system.calls ∧ s.hosts = d.system.hosts ∧ s.Owned := by
    rcases hs with rfl | ⟨host, ops, hops, rfl⟩ | ⟨job, hop, rfl⟩
    · exact ⟨rfl, rfl, h.sorted.owned⟩
    · exact ⟨rfl, rfl, h.sorted.owned.orphan hops⟩
    · exact ⟨rfl, rfl, h.sorted.owned.ran hop⟩
  obtain ⟨hcalls, hhosts, howned⟩ := hsame
  refine ⟨⟨?_, ?_, howned, ?_⟩, fun j call hcall hleaving => ?_⟩
  · exact hcalls ▸ h.sorted.staged
  · exact hhosts ▸ h.sorted.tidy
  · exact hcalls ▸ h.sorted.unsignalled
  · have hold := h.waited j call (hcalls ▸ hcall) hleaving
    simp only [Attended.setRenewer, Attended.setAside]
    split
    · rename_i hji
      subst hji
      exact absurd hold (hrunning false)
    · exact hold

theorem orderly_step {a : AttendedAction F R} (h : d.Orderly) (hstep : d.step config a = some d') : d'.Orderly := by
  cases a with
  | system a =>
    simp only [Attended.step] at hstep
    split at hstep
    · rename_i hpermits
      obtain ⟨s, hs, rfl⟩ := Option.map_eq_some_iff.mp hstep
      exact orderly_system h hpermits hs fun _ => rfl
    · cases hstep
  | expired i external => exact orderly_expire h hstep
  | renewer i fails => exact orderly_renews h hstep
  | audited i =>
    simp only [Attended.step] at hstep
    split at hstep
    · cases hstep
      refine ⟨h.sorted, fun j call hcall hleaving => ?_⟩
      have hold := h.waited j call hcall hleaving
      simp only [Attended.setAside]
      split
      · rename_i hji
        subst hji
        exact hold
      · exact hold
    · cases hstep

omit [DecidableEq F] [DecidableEq R] in
theorem System.Owned.not_entrant (h : s.Owned) (hcall : s.calls[i]? = some call)
    (hleft : call.mutating = false ∨ call.phase = .left) {row : LeaseRow} (hrow : s.tables.lease.lease = some row) :
    row.entrant ≠ i := by
  rintro rfl
  rcases h.single with hfree | ⟨holder, callId, expires, entrant, hleased⟩
  · simp [hfree] at hrow
  · obtain ⟨owner, howner, howns⟩ := h.entrant holder callId expires entrant hleased
    rw [hleased] at hrow
    cases hrow
    cases hcall.symm.trans howner
    rcases hleft with hreading | hphase
    · simp [howns.mutating] at hreading
    · have harmed := howns.armed
      rw [hphase] at harmed
      cases harmed

omit [DecidableEq R] in
theorem Move.unwinding_of_over {s s' : System F R} {a : Action F R} (h : Move config s a s') (hcall : s.calls[i]? = some call)
    (hstaged : call.Staged) (htask : call.task.isSome = true) (hopen : call.phase ≠ .finished)
    (hcall' : s'.calls[i]? = some call') (hover : call'.phase = .finished) : call.phase.unwinding = true := by
  rcases h.call_to hcall with hkept | ⟨new, hnew, hmoved⟩
  · exact absurd (some.inj (hkept.symm.trans hcall') ▸ hover) hopen
  · cases hnew.symm.trans hcall'
    exact hmoved.over hstaged htask hopen hover

omit [DecidableEq F] [DecidableEq R] in
theorem System.Sorted.absent (h : s.Sorted) {host : CapabilityHost} {callId : String} {k : Nat}
    (hhost : (s.hosts.modify k (.forget callId))[k]? = some host) :
    host.active.get? callId = none ∧ callId ∉ host.activeMutating ∧ callId ∉ host.uncancellableActive := by
  obtain ⟨before, hbefore, rfl⟩ := getElem?_modify_eq_some.mp hhost
  rw [if_pos rfl]
  have htidy := h.tidy before (List.mem_of_getElem? hbefore)
  exact ⟨Dict.get?_pop_self _ _, htidy.1.not_mem_erase, htidy.2.not_mem_erase⟩

/-- In every run, when a call that passed admission is over, its id is in no table of its host, its event is set, its renewer
is finished, and the lease is not its own unless it ended indeterminate: if and only if its renewer had not failed before the
`finally` block, and leaving the lease there neither failed nor was cancelled. -/
theorem cleanup_is_total_unless_cut_short (config : HostConfig R) (as : List (AttendedAction F R)) (d : Attended F R)
    (hrun : run (Attended.step config) .initial as = some d) (a : AttendedAction F R) (d' : Attended F R)
    (hstep : d.step config a = some d') (i : Nat) (call call' : Call F R) (hends : d.Ends d' i call call') :
    d'.Cleaned i call' ↔ ¬ Attended.CutShort i call a := by
  have h : d.Orderly := run_invariant (fun _ _ _ h hstep => orderly_step h hstep) orderly_initial hrun
  obtain ⟨hcall, htask, hopen, hcall', hover⟩ := hends
  have hsame : d'.system.calls ≠ d.system.calls := by
    intro heq
    rw [heq, hcall] at hcall'
    exact hopen (Option.some.inj hcall' ▸ hover)
  cases a with
  | system a =>
    simp only [Attended.step] at hstep
    split at hstep
    swap
    · cases hstep
    rename_i hpermits
    obtain ⟨s, hs, rfl⟩ := Option.map_eq_some_iff.mp hstep
    have hmove := step_cases hs
    have hunwinding := hmove.unwinding_of_over hcall (h.sorted.staged i call hcall) htask hopen hcall' hover
    cases hmove.unwound hcall hunwinding hcall' with
    | stayed hphase => exact absurd (hphase ▸ hover) hopen
    | leaves _ hphase | left _ hphase =>
      simp [hover] at hphase
    | kept hclosing _ hindeterminate heq =>
      subst heq
      have hrenewer := renewer_of_permits hpermits hcall hclosing
      refine iff_of_true ⟨rfl, ⟨false, hrenewer⟩, fun host hhost => ?_, fun hcertain => ?_⟩ id
      · obtain ⟨forgotten, hforgotten, rfl⟩ := getElem?_modify_eq_some.mp hhost
        rw [if_pos rfl]
        have habsent := @System.Sorted.absent F R d.system h.sorted forgotten call.request.callId call.host hforgotten
        exact habsent
      · simp [show call.leaseIndeterminate = false from hcertain] at hindeterminate
    | finished hphase heq =>
      subst heq
      have hrenewer : (d.asides i).renewer = .finished false := by
        rcases hphase with ⟨hclosing, -⟩ | hleft
        · exact renewer_of_permits hpermits hcall hclosing
        · exact h.waited i call hcall (.inr hleft)
      have hleft := hphase.imp_left And.right
      exact iff_of_true ⟨rfl, ⟨false, hrenewer⟩, fun _ hhost => h.sorted.absent hhost,
        fun _ _ hrow => h.sorted.owned.not_entrant hcall hleft hrow⟩ id
    | faulted hphase _ hsignalled =>
      refine iff_of_false (fun hcleaned => ?_) (not_not.mpr ⟨rfl, hphase⟩)
      have hset := hcleaned.signalled
      simp [hsignalled, h.sorted.unsignalled i call hcall hopen] at hset
    | interrupted hphase _ hsignalled =>
      refine iff_of_false (fun hcleaned => ?_) (not_not.mpr ⟨rfl, hphase⟩)
      have hset := hcleaned.signalled
      simp [hsignalled, h.sorted.unsignalled i call hcall hopen] at hset
  | expired j external =>
    obtain ⟨s, expiring, hresume, hexpiring, hawaiting, rfl⟩ := expire_cases hstep
    have hmove := resume_cases hresume
    rcases (getElem?_set_eq_some hexpiring).mp hcall' with ⟨-, rfl⟩ | ⟨hji, hold⟩
    · cases hover
    have hunwinding := hmove.unwinding_of_over hcall (h.sorted.staged i call hcall) htask hopen hold hover
    cases hmove.unwound hcall hunwinding hold with
    | stayed hphase => exact absurd (hphase ▸ hover) hopen
    | _ => exact absurd rfl hji
  | renewer j fails =>
    obtain ⟨-, s, renewer, rfl, hs⟩ := renews_cases hstep
    refine absurd ?_ hsame
    rcases hs with rfl | ⟨host, ops, -, rfl⟩ | ⟨job, -, rfl⟩
    · rfl
    · rfl
    · rfl
  | audited j =>
    simp only [Attended.step] at hstep
    split at hstep
    · cases hstep
      exact absurd rfl hsame
    · cases hstep

end Runs

namespace Sample

def readsAndRecords : List (AttendedAction String String) :=
  (started ++ reads 0 0 reading).map .system ++
    [.renewer 0 false, .renewer 0 false, .system (.taskEnds 0 (.returned "read")), .system (.resume 0 false), .system (.operate 0)]

end Sample

/-- A call whose renewer is cancelled in time leaves nothing behind. -/
theorem finished_read_is_cleaned : ∃ d d' call call', d.Ends d' 0 call call' ∧ d'.Cleaned 0 call' ∧
    run (Attended.step Sample.configuration) .initial (Sample.readsAndRecords ++ [.audited 0, .renewer 0 false]) = some d := by
  have htrace : (run (Attended.step Sample.configuration) .initial (Sample.readsAndRecords ++ [.audited 0, .renewer 0 false])).map
      (fun d => (d.system.calls[0]?.map fun call => (call.task.isSome, decide (call.phase = .finished)),
        (d.step Sample.configuration (.system (.resume 0 false))).map fun d' =>
          d'.system.calls[0]?.map fun call' => decide (call'.phase = .finished))) =
      some (some (true, false), some (some true)) := by
    rfl
  obtain ⟨d, hrun, h⟩ := Option.map_eq_some_iff.mp htrace
  simp only [Prod.mk.injEq, Option.map_eq_some_iff, decide_eq_true_eq, decide_eq_false_iff_not] at h
  obtain ⟨⟨call, hcall, htask, hopen⟩, d', hstep, call', hcall', hover⟩ := h
  have hends : d.Ends d' 0 call call' := ⟨hcall, htask, hopen, hcall', hover⟩
  exact ⟨d, d', call, call', hends,
    (cleanup_is_total_unless_cut_short Sample.configuration _ d hrun _ d' hstep 0 call call' hends).mpr id, hrun⟩

/-- The renewal of the claim fails while the tool runs. The call is over with its id still in the table of its host and its
event not set, although its tool has returned and the ledger and the audit log are written. -/
theorem failed_renewal_skips_the_cleanup :
    ¬ ∀ (config : HostConfig String) (as : List (AttendedAction String String)) (d d' : Attended String String)
      (a : AttendedAction String String) (i : Nat) (call call' : Call String String),
      run (Attended.step config) .initial as = some d → d.step config a = some d' → d.Ends d' i call call' → d'.Cleaned i call' := by
  intro h
  have htrace : (run (Attended.step Sample.configuration) .initial
      ((Sample.started ++ Sample.reads 0 0 Sample.reading).map .system ++
        [.renewer 0 false, .renewer 0 false, .renewer 0 false, .renewer 0 true, .system (.taskEnds 0 (.returned "read")),
          .system (.resume 0 false), .system (.operate 0), .audited 0])).map
      (fun d => (d.system.calls[0]?.map fun call => (call.task.isSome, decide (call.phase = .finished)),
        (d.step Sample.configuration (.system (.fault 0 "database is locked"))).map fun d' =>
          d'.system.calls[0]?.map fun call' => (decide (call'.phase = .finished), call'.signalled))) =
      some (some (true, false), some (some (true, false))) := by
    rfl
  obtain ⟨d, hrun, htrace⟩ := Option.map_eq_some_iff.mp htrace
  simp only [Prod.mk.injEq, Option.map_eq_some_iff, decide_eq_true_eq, decide_eq_false_iff_not] at htrace
  obtain ⟨⟨call, hcall, htask, hopen⟩, d', hstep, call', hcall', hover, hsignalled⟩ := htrace
  have hcleaned := h _ _ d d' _ 0 call call' hrun hstep ⟨hcall, htask, hopen, hcall', hover⟩
  simp [hcleaned.signalled] at hsignalled

end OpenAgent.Host
