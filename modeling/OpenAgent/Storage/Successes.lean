import OpenAgent.Storage.Runs

/-!
# Who records a success

A run is recorded as a success by a transition to that status and by nothing else. For each operation of the store,
the runs that are successes after it were so before, apart from the run that such a transition names.
-/

namespace OpenAgent

open Lib

variable {D P : Type}

def Ledger.succeeded (L : Ledger D P) (runId : String) : Bool :=
  (L.runs.get? runId).any fun row => decide (row.status = .success)

/-- The successes of `L'` are those of `L`, and runs that satisfy `p`. -/
def Ledger.Gains (p : String → Prop) (L L' : Ledger D P) : Prop :=
  ∀ runId, L'.succeeded runId = true → L.succeeded runId = true ∨ p runId

namespace Ledger.Gains

variable {p : String → Prop}

theorem refl (L : Ledger D P) : Gains p L L := fun _ h => .inl h

theorem trans {L M N : Ledger D P} (h : Gains p L M) (h' : Gains p M N) : Gains p L N := fun runId hN =>
  (h' runId hN).elim (h runId) .inr

theorem of_runs_eq {L L' : Ledger D P} (h : L'.runs = L.runs) : Gains p L L' := by
  intro runId hsucceeded
  rw [succeeded, h] at hsucceeded
  exact .inl hsucceeded

theorem of_write {L L' : Ledger D P} {id : String} {row : RunRow D} (h : L'.runs = L.runs.set id row)
    (hrow : row.status = .success → p id) : Gains p L L' := by
  intro runId hsucceeded
  rw [succeeded, h, Dict.get?_set] at hsucceeded
  split at hsucceeded
  · rename_i heq
    subst heq
    exact .inr (hrow (by simpa using hsucceeded))
  · exact .inl hsucceeded

theorem weaken {q : String → Prop} {L L' : Ledger D P} (hpq : ∀ runId, p runId → q runId) (h : Gains p L L') :
    Gains q L L' := fun runId hL' => (h runId hL').imp_right (hpq runId)

end Ledger.Gains

namespace Store

open Ledger (Gains)

variable {p : String → Prop} {L L' : Ledger D P} {host : Host D P}

theorem accept_gains [DecidableEq D] {request : RunRequest} {context : ExecutionContext} {now : Int}
    {result : RunRecord D × Bool} (h : accept host request context now L = .ok (result, L')) : Gains p L L' := by
  obtain ⟨-, ⟨row, -, -, hr⟩ | ⟨-, h⟩⟩ := accept_ok h
  · cases hr
    exact .refl _
  · obtain ⟨-, session, acl, q, -, -, hr⟩ := insertRun_ok h
    cases hr
    refine .of_write rfl fun hsuccess => ?_
    rw [insertedRow] at hsuccess
    split at hsuccess <;> cases hsuccess

variable {record : RunRecord D}

theorem transition_gains {runId : String} {status : RunStatus} {output : Option Json} {now : Int}
    (h : transition host runId status output now L = .ok (record, L')) :
    Gains (fun id => id = runId ∧ status = .success) L L' := by
  obtain ⟨row, -, -, ⟨-, hr⟩ | ⟨-, -, -, replies, sessions, q, -, -, hr⟩⟩ := transition_ok h
  · cases hr
    exact .refl _
  · cases hr
    exact .of_write rfl fun hsuccess => ⟨rfl, hsuccess⟩

theorem transition_gains_none {runId : String} {status : RunStatus} {output : Option Json} {now : Int}
    (hstatus : status ≠ .success)
    (h : transition host runId status output now L = .ok (record, L')) : Gains p L L' :=
  (transition_gains h).weaken fun _ hid => absurd hid.2 hstatus

theorem requestCancel_gains {runId : String}
    (h : requestCancel host runId L = .ok (record, L')) : Gains p L L' := by
  obtain ⟨row, -, -, ⟨-, hr⟩ | ⟨hlive, -, q, hr⟩⟩ := requestCancel_ok h
  · cases hr
    exact .refl _
  · cases hr
    refine .of_write rfl fun hsuccess => ?_
    have hstatus : row.status = .success := hsuccess
    rw [hstatus] at hlive
    cases hlive

theorem reserveCancel_gains {runId : String} {context : ExecutionContext}
    (h : reserveCancel runId context L = .ok (record, L')) : Gains p L L' := by
  rcases reserveCancel_ok h with ⟨row, -, hr, -⟩ | ⟨-, -, ⟨e, -, -, -, hr⟩ | ⟨-, hr⟩⟩
  · cases hr
    exact .refl _
  · obtain rfl : L' = L := hr
    exact .refl _
  · obtain rfl := hr
    exact .of_runs_eq rfl

theorem appendEvent_gains {runId kind : String} {payload : Json} {sequence : Nat}
    (h : appendEvent host runId kind payload L = .ok (sequence, L')) : Gains p L L' := by
  obtain ⟨row, q, -, hr⟩ := appendEvent_ok h
  cases hr
  exact .of_runs_eq rfl

theorem beginTool_gains {runId callId : String} {binding : ToolBinding} {arguments : Json}
    {intent : Option (Attestation (List ContentOrigin))} {now : Int} {u : Unit}
    (h : beginTool host runId callId binding arguments intent now L = .ok (u, L')) : Gains p L L' := by
  obtain ⟨run, session, anchor, q, -, -, -, -, -, hr⟩ := beginTool_ok h
  cases hr
  exact .of_runs_eq rfl

theorem finishTool_gains {runId callId : String} {outcome : ToolOutcome}
    {provenance : Option (Attestation ResultProvenance)} {now : Int} {u : Unit}
    (h : finishTool host runId callId outcome provenance now L = .ok (u, L')) : Gains p L L' := by
  obtain ⟨row, run, messages, q, -, -, -, -, -, hr⟩ := finishTool_ok h
  cases hr
  exact .of_runs_eq rfl

theorem transaction_gains {α : Type} {m : Moment} {body : StoreTx D P α}
    (hbody : ∀ a L', body L = .ok (a, L') → Gains p L L') : Gains p L (transaction m body L).2 :=
  transaction_related .refl hbody

theorem recover_gains (host : Host D P) (moments : List Moment) (L : Ledger D P) :
    Gains p L (recover host moments L).2 :=
  recover_related .refl .trans finishTool_gains (transition_gains_none (by decide)) moments L

def Operation.reports : Operation D → String → Prop
  | .transition runId status _, id => id = runId ∧ status = .success
  | _, _ => False

theorem perform_gains [DecidableEq D] (L : Ledger D P) (call : Call D P) :
    Gains call.operation.reports L (perform L call) := by
  unfold perform
  cases call.operation with
  | accept request context => exact transaction_gains fun _ _ => accept_gains
  | transition runId status output => exact transaction_gains fun _ _ => transition_gains
  | requestCancel runId => exact transaction_gains fun _ _ => requestCancel_gains
  | reserveCancel runId context => exact transaction_gains fun _ _ => reserveCancel_gains
  | beginTool runId callId binding arguments intent => exact transaction_gains fun _ _ => beginTool_gains
  | finishTool runId callId outcome provenance => exact transaction_gains fun _ _ => finishTool_gains
  | recover => exact recover_gains _ _ _

end Store

end OpenAgent
