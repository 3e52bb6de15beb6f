import OpenAgent.Host.Ledger
import OpenAgent.Host.Moves

/-!
# At most one dispatch of a mutation

A call that is neither read-only nor idempotent inserts the row of its key before its provider is
called, and the row stays the call's own until a result recorded in it expires. The ledger knows a row
by its key and by the host that holds it, not by the call. The result holds for every run in which no
call abandons or completes a row that such a call inserted and it did not.
-/

namespace OpenAgent.Host

open Lib

variable {F R : Type}

def Call.strict (call : Call F R) : Bool := !call.safeRetry

def Phase.readying : Phase R → Bool
  | .claimed .new => true
  | .entering => true
  | .entered => true
  | _ => false

def Call.guarded (call : Call F R) : Bool := call.strict && (call.phase.readying || call.task.isSome)

def System.guards (s : System F R) (i : Nat) : Bool := s.calls[i]?.any Call.guarded

/-- Whether the operation leaves the rows of other calls alone that must stay. An abandoned row must not
be one of these at all. -/
def Op.spares (s : System F R) (owner : Nat) : Op F R → Bool
  | .abandon key => (s.tables.claims.get? key).all fun row => !(row.heldBy owner && s.guards row.claimant)
  | .complete call key _ => (s.tables.claims.get? key).all fun row =>
    row.claimant = call || !(row.heldBy owner && s.guards row.claimant)
  | _ => true

def Spares (s : System F R) (a : Action F R) : Prop :=
  (s.executes a).all (fun job => job.op.spares s job.host) = true

/-- The row that call `i` inserted is in its place. -/
def System.Rowed (s : System F R) (i : Nat) (call : Call F R) : Prop :=
  ∃ row, s.tables.claims.get? call.request.key = some row ∧ row.claimant = i ∧
    row.fingerprint = call.request.fingerprint

def System.epoch (s : System F R) (call : Call F R) : Nat := s.tables.expiries.count call.request.key

instance (s : System F R) (a : Action F R) : Decidable (Spares s a) :=
  inferInstanceAs (Decidable ((s.executes a).all (fun job => job.op.spares s job.host) = true))

structure Ledgered (s : System F R) : Prop where
  staged : ∀ (i : Nat) (call : Call F R), s.calls[i]? = some call → call.Staged
  completing : ∀ job ∈ s.jobs, ∀ (i : Nat) key result, job.op = .complete i key result →
    ∃ call : Call F R, s.calls[i]? = some call ∧ call.task.isSome = true
  readying : ∀ (i : Nat) (call : Call F R), s.calls[i]? = some call → call.strict = true → call.phase.readying = true →
    ∃ row, s.tables.claims.get? call.request.key = some row ∧ row.claimant = i ∧
      row.fingerprint = call.request.fingerprint ∧ row.state ≠ .done
  dispatched : ∀ (i : Nat) (call : Call F R), s.calls[i]? = some call → call.strict = true → call.task.isSome = true →
    call.epoch < s.epoch call ∨ call.epoch = s.epoch call ∧ s.Rowed i call
  once : ∀ (i j : Nat) (call other : Call F R), s.calls[i]? = some call → s.calls[j]? = some other → call.strict = true →
    other.strict = true → call.task.isSome = true → other.task.isSome = true →
    call.request.key = other.request.key → call.epoch = other.epoch → i = j
  recorded : ∀ key row, s.tables.claims.get? key = some row → row.state = .done → row.result.isSome = true

variable {config : HostConfig R} {s s' : System F R} {a : Action F R} {i : Nat} {call call' : Call F R}

/-! ### The calls -/

theorem Phase.readying_answered {reply : Except HostException (Reply R)} {phase : Phase R}
    (h : (phase.answered reply).readying = true) :
    phase.readying = true ∨ phase = .claiming ∧ reply = .ok (.claimed .new) := by
  cases phase with
  | claiming =>
    cases reply with
    | ok reply =>
      cases reply with
      | claimed answer =>
        cases answer with
        | new => exact .inr ⟨rfl, rfl⟩
        | replay => cases h
      | done => cases h
    | error => cases h
  | entering => exact .inl rfl
  | leavingEarly =>
    cases reply with
    | ok => cases h
    | error => cases h
  | leaving =>
    cases reply with
    | ok => cases h
    | error => cases h
  | claimed => exact .inl h
  | entered => exact .inl rfl
  | _ => cases h

theorem Phase.early_of_readying {phase : Phase R} (h : phase.readying = true) : phase.early = true := by
  cases phase with
  | _ => first | rfl | cases h

theorem Call.pending_claiming (h : call.phase = .claiming) {op : Op F R}
    (hop : call.pending i = some op) :
    op = .claim i call.request.key call.request.fingerprint call.safeRetry := by
  simp only [pending, h, Option.some.injEq] at hop
  exact hop.symm

theorem Call.Landed.readying {phase : Phase R} {indeterminate : Bool}
    (h : call.Landed phase indeterminate) (hreadying : phase.readying = true) :
    call.phase.readying = true := by
  cases h with
  | stayed => exact hreadying
  | back _ hback =>
    rcases hback with rfl | rfl
    · cases hreadying
    · cases hreadying
  | dropped => cases hreadying
  | on _ hphase =>
    have hlate : phase.late = true := by
      rcases hphase with hphase | rfl
      · exact Phase.late_of_renewing hphase
      · rfl
    have hearly := Phase.early_of_readying hreadying
    simp [Phase.early_of_late hlate] at hearly

theorem Ledgered.alone (h : Ledgered s) {j : Nat} {other : Call F R} (hcall : s.calls[i]? = some call)
    (hstrict : call.strict = true) (hreadying : call.phase.readying = true)
    (hother : s.calls[j]? = some other) (hstrict' : other.strict = true)
    (htask : other.task.isSome = true) (hkey : call.request.key = other.request.key)
    (hepoch : s.epoch call = other.epoch) : i = j := by
  obtain ⟨row, hrow, hclaimant, -, -⟩ := h.readying i call hcall hstrict hreadying
  have hsame : s.epoch call = s.epoch other := by rw [System.epoch, System.epoch, hkey]
  rcases h.dispatched j other hother hstrict' htask with hlt | ⟨-, row', hrow', hclaimant', -⟩
  · omega
  · rw [← hkey, hrow] at hrow'
    cases hrow'
    exact hclaimant.symm.trans hclaimant'

variable {key : String × String}

theorem Call.Staged.completes {j : Nat} {result : R} (h : call.Staged)
    (hop : call.pending j = some (.complete i key result)) : i = j ∧ call.task.isSome = true := by
  cases hphase : call.phase with
  | completing result' =>
    simp only [Call.pending, hphase, Option.some.injEq, Op.complete.injEq] at hop
    exact ⟨hop.1.symm, h.late (by rw [hphase]; rfl)⟩
  | _ => simp [Call.pending, hphase] at hop

theorem Ledgered.completes (h : Ledgered s) {job : Job F R} (hjob : s.executes a = some job)
    {result : R} (hop : job.op = .complete i key result) :
    ∃ call, s.calls[i]? = some call ∧ call.task.isSome = true := by
  cases a with
  | operate j =>
    obtain ⟨call, op, hcall, hpending, rfl⟩ := executes_operate hjob
    obtain rfl : op = .complete i key result := hop
    have hget := (System.call?_eq_some.mp hcall).1
    obtain ⟨rfl, htask⟩ := (h.staged j call hget).completes hpending
    exact ⟨call, hget, htask⟩
  | job n =>
    obtain ⟨hget, -⟩ := Option.filter_eq_some_iff.mp hjob
    exact h.completing job (List.mem_of_getElem? hget) i key result hop
  | operateRelease j =>
    obtain ⟨release, -, -, rfl⟩ := executes_operateRelease hjob
    cases hop
  | operateClose j =>
    obtain ⟨closing, principal, rest, -, -, rfl⟩ := executes_operateClose hjob
    cases hop
  | _ => cases hjob

variable [DecidableEq F]

inductive Call.Advanced (config : HostConfig R) (s : System F R) (a : Action F R) (i : Nat)
    (call : Call F R) : Call F R → Prop
  | quiet {call' : Call F R} (htool : call'.tool = call.tool) (hepoch : call'.epoch = call.epoch)
      (htask : call'.task.isSome = call.task.isSome)
      (hreadying : call'.phase.readying = true → call.phase.readying = true) :
      Advanced config s a i call call'
  | admitted (hphase : call.phase = .admitted) (tool : Option Tool) :
      Advanced config s a i call { call with phase := .claiming, tool := tool }
  | claimed (hphase : call.phase = .claiming)
      (hjob : s.executes a = some ⟨call.host, .claim i call.request.key call.request.fingerprint
        call.safeRetry⟩)
      (hreply : (s.ran config ⟨call.host, .claim i call.request.key call.request.fingerprint
        call.safeRetry⟩).1 = .ok (.claimed .new)) :
      Advanced config s a i call { call with phase := .claimed .new }
  | dispatched (hreadying : call.phase.readying = true) (hquiet : s.executes a = none) :
      Advanced config s a i call { call with
        phase := .awaiting
        task := some .running
        grants := s.grants
        epoch := s.epoch call }

theorem Call.Advanced.rephased {phase : Phase R}
    (h : phase.readying = true → call.phase.readying = true) :
    Advanced config s a i call { call with phase := phase } := .quiet rfl rfl rfl h

theorem Call.Moved.advanced (h : call.Moved config s a i call') : call.Advanced config s a i call' := by
  cases h with
  | acquired hphase => exact .rephased (nofun)
  | admitted hphase tool => exact .admitted hphase tool
  | refused hphase => exact .rephased (nofun)
  | @operated op hop hjob =>
    by_cases hnew : call.phase = .claiming ∧ (s.ran config ⟨call.host, op⟩).1 = .ok (.claimed .new)
    · obtain ⟨hphase, hreply⟩ := hnew
      obtain rfl := Call.pending_claiming hphase hop
      rw [hphase, hreply]
      exact .claimed hphase hjob hreply
    · refine .rephased fun hreadying => ?_
      exact (Phase.readying_answered hreadying).resolve_right hnew
  | faulted hop text =>
    refine .rephased fun hreadying => ?_
    exact (Phase.readying_answered hreadying).resolve_right (fun h => nomatch h.2)
  | renewerFailed hphase _ => exact .quiet rfl rfl rfl (nofun)
  | landed hlanded => exact .quiet rfl rfl rfl hlanded.readying
  | replayed hphase => exact .rephased (nofun)
  | entering hphase _ => exact .rephased fun _ => by rw [hphase]; rfl
  | dispatched hphase hquiet _ =>
    refine .dispatched ?_ hquiet
    rcases hphase with ⟨hphase, -⟩ | hphase
    · rw [hphase]; rfl
    · rw [hphase]; rfl
  | disabled hphase hback =>
    refine .rephased fun hreadying => ?_
    rcases hback with rfl | rfl
    · cases hreadying
    · cases hreadying
  | unlocked hphase => exact .rephased (nofun)
  | kept hphase _ _ _ => exact .quiet rfl rfl rfl (nofun)
  | leaving hphase _ _ => exact .rephased (nofun)
  | finished hphase => exact .quiet rfl rfl rfl (nofun)
  | taskEnded hrunning outcome =>
    refine .quiet rfl rfl ?_ id
    rw [Call.task_of_running hrunning]
    rfl

/-! ### The rows -/

theorem Call.Moved.request (h : call.Moved config s a i call') : call'.request = call.request := by
  cases h with
  | _ => rfl

theorem Call.Moved.task (h : call.Moved config s a i call') (htask : call.task.isSome = true) :
    call'.task.isSome = true := by
  cases h.advanced with
  | quiet _ _ htask' _ => exact htask' ▸ htask
  | admitted => exact htask
  | claimed => exact htask
  | dispatched => rfl

variable [DecidableEq R]

namespace Sample

/-- A read of the first host is taken over by a retry on the second, which lapses and abandons the row.
A mutation of the first host claims the key anew; when the first read lapses, it abandons the row of the
mutation, and the retry of the mutation is dispatched. -/
def repeated : List (Action String String) :=
  started ++ reads 0 0 reading ++ reads 1 1 rereading ++ lapses 1 ++ writes 2 0 writing ++ lapses 0 ++
    returns 2 ++ writes 3 0 rewriting

end Sample

end OpenAgent.Host
