import OpenAgent.Storage.Effects

/-!
# The life of a durable run

A run settles once. Any operation of the store takes the ledger to one that follows it: rows of
settled runs are the same rows, and the events it appended hold a terminal event only for a run that
was open before and is settled after. That relation is reflexive and transitive, so it holds between
the ends of every history of operations, whatever the order, the clock or the failures.
-/

namespace OpenAgent

open Lib List Bool

variable {D P : Type}

theorem RunStatus.text_injective : Function.Injective RunStatus.text := by
  intro s t
  cases s <;> cases t <;> simp [RunStatus.text]

def EventRow.reportsTerminal (e : EventRow D) : Bool :=
  [RunStatus.success, .failed, .cancelled, .rejected, .interrupted, .skipped, .timedOut].any fun s =>
    e.eventType = "run." ++ s.text

theorem EventRow.reportsTerminal_iff {e : EventRow D} :
    e.reportsTerminal = true ↔ ∃ s : RunStatus, s.terminal = true ∧ e.eventType = "run." ++ s.text := by
  simp only [reportsTerminal, any_eq_true, decide_eq_true_eq]
  constructor
  · rintro ⟨s, hs, he⟩
    exact ⟨s, by revert hs; cases s <;> decide, he⟩
  · rintro ⟨s, hs, he⟩
    exact ⟨s, by revert hs; cases s <;> decide, he⟩

def terminalEvents (runId : String) (events : List (EventRow D)) : Nat :=
  events.countP fun e => e.runId = runId ∧ e.reportsTerminal

theorem terminalEvents_append (runId : String) (xs ys : List (EventRow D)) :
    terminalEvents runId (xs ++ ys) = terminalEvents runId xs + terminalEvents runId ys :=
  countP_append

def Ledger.settled (L : Ledger D P) (runId : String) : Bool :=
  (L.runs.get? runId).any fun row => row.status.terminal

structure Ledger.Follows (L L' : Ledger D P) : Prop where
  kept : ∀ id row, L.runs.get? id = some row → row.status.terminal = true →
    L'.runs.get? id = some row
  reported : ∃ added, L'.events = L.events ++ added ∧
    ∀ id, terminalEvents id added + (L.settled id).toNat ≤ (L'.settled id).toNat

namespace Ledger.Follows

theorem refl (L : Ledger D P) : L.Follows L where
  kept _ _ h _ := h
  reported := ⟨[], by simp, by simp [terminalEvents]⟩

theorem trans {L M N : Ledger D P} (h : L.Follows M) (h' : M.Follows N) : L.Follows N where
  kept id row hrow hterm := h'.kept id row (h.kept id row hrow hterm) hterm
  reported := by
    obtain ⟨first, hfirst, hle⟩ := h.reported
    obtain ⟨second, hsecond, hle'⟩ := h'.reported
    refine ⟨first ++ second, by rw [hsecond, hfirst, append_assoc], ?_⟩
    intro id
    have hone := hle id
    have htwo := hle' id
    rw [terminalEvents_append]
    omega

theorem of_runs_eq {L L' : Ledger D P} {added : List (EventRow D)} (hruns : L'.runs = L.runs)
    (hevents : L'.events = L.events ++ added) (hquiet : ∀ e ∈ added, e.reportsTerminal = false) :
    L.Follows L' where
  kept id row h _ := by rw [hruns, h]
  reported := by
    refine ⟨added, hevents, ?_⟩
    intro id
    have hnone : terminalEvents id added = 0 := by
      apply List.countP_eq_zero.mpr
      intro e he
      simp [hquiet e he]
    rw [hnone, settled, settled, hruns, Nat.zero_add]

theorem of_write {L L' : Ledger D P} {id : String} {row : RunRow D} {e : EventRow D}
    (hopen : L.settled id = false) (hruns : L'.runs = L.runs.set id row)
    (hevents : L'.events = L.events ++ [e]) (hid : e.runId = id)
    (hreport : e.reportsTerminal = true → row.status.terminal = true) : L.Follows L' where
  kept id' row' h hterm := by
    have hne : id' ≠ id := by
      rintro rfl
      simp [settled, h, hterm] at hopen
    rw [hruns, Dict.get?_set_ne _ _ hne, h]
  reported := by
    refine ⟨[e], hevents, ?_⟩
    intro id'
    by_cases hne : id' = id
    · subst hne
      have hsettled : L'.settled id' = row.status.terminal := by
        simp [settled, hruns]
      rw [hopen, hsettled, terminalEvents, countP_singleton]
      cases hterm : row.status.terminal with
      | true => split <;> simp
      | false =>
        have hquiet : e.reportsTerminal = false := by
          by_contra hreports
          simp [hreport (by simpa using hreports)] at hterm
        simp [hquiet]
    · have hsettled : L'.settled id' = L.settled id' := by
        rw [settled, settled, hruns, Dict.get?_set_ne _ _ hne]
      have hother : terminalEvents id' [e] = 0 := by
        rw [terminalEvents, countP_singleton, if_neg]
        simp [hid, Ne.symm hne]
      rw [hsettled, hother, Nat.zero_add]

end Ledger.Follows

/-! ### One operation -/

namespace Store

def quietKinds : List String :=
  ["run.accepted", "run.cancel_requested", "run.cancel_reserved", "run.profile", "run.child",
    "tool.invoking", "tool.completed"]

theorem ne_status_of_quiet {kind : String} (hkind : kind ∈ quietKinds) (s : RunStatus) :
    kind ≠ "run." ++ s.text := by
  have hall : ∀ kind ∈ quietKinds, kind ≠ "run." ++ s.text := by
    cases s <;> decide
  exact hall kind hkind

private theorem not_reportsTerminal {e : EventRow D} (h : ∀ s : RunStatus, e.eventType ≠ "run." ++ s.text) :
    e.reportsTerminal = false := by
  by_contra hreports
  obtain ⟨s, -, hs⟩ := EventRow.reportsTerminal_iff.mp (by simpa using hreports)
  exact h s hs

private theorem quiet_event {e : EventRow D} (kind : String) (he : e.eventType = kind)
    (hkind : kind ∈ quietKinds) : e.reportsTerminal = false := by
  apply not_reportsTerminal
  rw [he]
  exact ne_status_of_quiet hkind

variable {L : Ledger D P}

private theorem settled_eq {id : String} {row : RunRow D} (h : L.runs.get? id = some row)
    : L.settled id = row.status.terminal := by
  simp [Ledger.settled, h]

variable {host : Host D P} {runId : String}

variable {r : RunRecord D × Ledger D P}

theorem transition_follows {status : RunStatus} {output : Option Json} {now : Int}
    (h : transition host runId status output now L = .ok r)
    : L.Follows r.2 := by
  obtain ⟨row, hrow, -, hcases⟩ := transition_ok h
  rcases hcases with ⟨-, rfl⟩ | ⟨hlive, -, -, replies, sessions, p, -, -, rfl⟩
  · exact .refl L
  · refine .of_write (by rw [settled_eq hrow, hlive]) rfl rfl rfl ?_
    intro hreport
    obtain ⟨s, hs, htext⟩ := EventRow.reportsTerminal_iff.mp hreport
    have hstatus : status = s := RunStatus.text_injective ((String.append_right_inj _).mp htext)
    rw [← hstatus] at hs
    exact hs

theorem transition_settles {status : RunStatus} {output : Option Json} {now : Int} {L' : Ledger D P}
    {record : RunRecord D} (hstatus : status.terminal = true)
    (h : transition host runId status output now L = .ok (record, L')) : L'.settled runId = true := by
  obtain ⟨row, hrow, -, ⟨hterm, hr⟩ | ⟨-, -, -, replies, sessions, p, -, -, hr⟩⟩ := transition_ok h
  · cases hr
    rw [Ledger.settled, hrow, Option.any_some, hterm]
  · cases hr
    rw [Ledger.settled, Dict.get?_set_self, Option.any_some, RunRow.moved, hstatus]

theorem requestCancel_follows (h : requestCancel host runId L = .ok r)
    : L.Follows r.2 := by
  obtain ⟨row, hrow, -, hcases⟩ := requestCancel_ok h
  rcases hcases with ⟨-, rfl⟩ | ⟨hlive, -, p, rfl⟩
  · exact .refl L
  · refine .of_write (by rw [settled_eq hrow, hlive]) rfl rfl rfl ?_
    intro hreport
    rw [quiet_event "run.cancel_requested" rfl (by decide)] at hreport
    cases hreport

variable {context : ExecutionContext}

theorem reserveCancel_follows
    (h : reserveCancel runId context L = .ok r) : L.Follows r.2 := by
  rcases reserveCancel_ok h with ⟨row, -, rfl, -⟩ | ⟨-, -, hcases⟩
  · exact .refl L
  · rcases hcases with ⟨e, -, -, -, hsame⟩ | ⟨-, hwritten⟩
    · rw [hsame]
      exact .refl L
    · rw [hwritten]
      refine .of_runs_eq rfl rfl ?_
      intro e he
      cases List.mem_singleton.mp he
      exact quiet_event "run.cancel_reserved" rfl (by decide)

theorem beginTool_follows {callId : String} {binding : ToolBinding} {arguments : Json}
    {intent : Option (Attestation (List ContentOrigin))} {now : Int} {r : Unit × Ledger D P}
    (h : beginTool host runId callId binding arguments intent now L = .ok r) : L.Follows r.2 := by
  obtain ⟨run, session, anchor, p, -, -, -, -, -, rfl⟩ := beginTool_ok h
  refine .of_runs_eq rfl rfl ?_
  intro e he
  cases List.mem_singleton.mp he
  exact quiet_event "tool.invoking" rfl (by decide)

theorem finishTool_follows {callId : String} {outcome : ToolOutcome}
    {provenance : Option (Attestation ResultProvenance)} {now : Int} {r : Unit × Ledger D P}
    (h : finishTool host runId callId outcome provenance now L = .ok r) :
    L.Follows r.2 := by
  obtain ⟨row, run, messages, p, -, -, -, -, -, rfl⟩ := finishTool_ok h
  refine .of_runs_eq rfl rfl ?_
  intro e he
  cases List.mem_singleton.mp he
  exact quiet_event "tool.completed" rfl (by decide)

theorem accept_follows [DecidableEq D] {request : RunRequest} {now : Int}
    {r : (RunRecord D × Bool) × Ledger D P} (h : accept host request context now L = .ok r)
    : L.Follows r.2 := by
  obtain ⟨-, ⟨row, -, -, rfl⟩ | ⟨hnone, h⟩⟩ := accept_ok h
  · exact .refl L
  · obtain ⟨-, session, acl, p, -, -, rfl⟩ := insertRun_ok h
    have habsent := Ledger.absent_of_colliding_eq_nil hnone
    refine .of_write (by simp [Ledger.settled, habsent]) rfl rfl rfl ?_
    intro hreport
    rw [quiet_event "run.accepted" rfl (by decide)] at hreport
    cases hreport

theorem transaction_follows {α : Type} {m : Moment} {body : StoreTx D P α}
    (hbody : ∀ r, body L = .ok r → L.Follows r.2) : L.Follows (transaction m body L).2 :=
  transaction_related .refl fun a L' => hbody (a, L')

theorem recover_follows (host : Host D P) (moments : List Moment) (L : Ledger D P) :
    L.Follows (recover host moments L).2 :=
  recover_related .refl .trans finishTool_follows transition_follows moments L

/-! ### Histories -/

inductive Operation (D : Type)
  | accept (request : RunRequest) (context : ExecutionContext)
  | transition (runId : String) (status : RunStatus) (output : Option Json)
  | requestCancel (runId : String)
  | reserveCancel (runId : String) (context : ExecutionContext)
  | beginTool (runId callId : String) (binding : ToolBinding) (arguments : Json)
      (intent : Option (Attestation (List ContentOrigin)))
  | finishTool (runId callId : String) (outcome : ToolOutcome)
      (provenance : Option (Attestation ResultProvenance))
  | recover

/-- A call: the operation, the publication the store is bound to, and the moments of its
transactions. -/
structure Call (D P : Type) where
  host : Host D P
  moment : Moment
  further : List Moment := []
  operation : Operation D

def perform [DecidableEq D] (L : Ledger D P) (call : Call D P) : Ledger D P :=
  let m := call.moment
  match call.operation with
  | .accept request context => (transaction m (accept call.host request context m.now) L).2
  | .transition runId status output =>
    (transaction m (transition call.host runId status output m.now) L).2
  | .requestCancel runId => (transaction m (requestCancel call.host runId) L).2
  | .reserveCancel runId context => (transaction m (reserveCancel runId context) L).2
  | .beginTool runId callId binding arguments intent =>
    (transaction m (beginTool call.host runId callId binding arguments intent m.now) L).2
  | .finishTool runId callId outcome provenance =>
    (transaction m (finishTool call.host runId callId outcome provenance m.now) L).2
  | .recover => (recover call.host (m :: call.further) L).2

def history [DecidableEq D] (L : Ledger D P) (calls : List (Call D P)) : Ledger D P :=
  calls.foldl perform L

theorem perform_follows [DecidableEq D] (L : Ledger D P) (call : Call D P) :
    L.Follows (perform L call) := by
  unfold perform
  cases call.operation with
  | accept request context => exact transaction_follows fun _ => accept_follows
  | transition runId status output => exact transaction_follows fun _ => transition_follows
  | requestCancel runId => exact transaction_follows fun _ => requestCancel_follows
  | reserveCancel runId context => exact transaction_follows fun _ => reserveCancel_follows
  | beginTool runId callId binding arguments intent =>
    exact transaction_follows fun _ => beginTool_follows
  | finishTool runId callId outcome provenance =>
    exact transaction_follows fun _ => finishTool_follows
  | recover => exact recover_follows _ _ _

theorem history_follows [DecidableEq D] (L : Ledger D P) (calls : List (Call D P)) :
    L.Follows (history L calls) := by
  induction calls generalizing L with
  | nil => exact .refl L
  | cons call rest ih => exact (perform_follows L call).trans (ih (perform L call))

/-- A committed acceptance of a reserved run, and everything after it: the run is cancelled from its
first event on, and no later operation changes it or reports a status for it. -/
private theorem reserved_settled [DecidableEq D] {request : RunRequest}
    {m : Moment} {L' : Ledger D P} {record : RunRecord D} {created : Bool}
    (hreserved : L.reservation request.runId ≠ none) (habsent : L.runs.get? request.runId = none)
    (haccept : transaction m (accept host request context m.now) L = (.ok (record, created), L')) :
    created = false ∧ ∃ row e, L'.runs.get? request.runId = some row ∧ row.status = .cancelled ∧
      record = row.record request.runId ∧ L'.events = L.events ++ [e] ∧ e.runId = request.runId ∧
      e.eventType = "run.accepted" ∧ e.payload =
        .accepted .cancelled (host.fingerprint request context) := by
  unfold transaction at haccept
  split at haccept
  · simp at haccept
  obtain ⟨-, ⟨row, hrow, -⟩ | ⟨-, h⟩⟩ := accept_ok (Lib.atomically_ok.mp haccept)
  · have hmem : (request.runId, row) ∈ L.colliding request := by simp [hrow]
    simp [(Ledger.mem_colliding.mp hmem).1] at habsent
  · obtain ⟨-, session, acl, p, -, -, hr⟩ := insertRun_ok h
    obtain ⟨hresult, rfl⟩ := Prod.mk.inj hr
    cases hresult
    have hsome : (L.reservation request.runId).isSome = true := Option.isSome_iff_ne_none.mpr hreserved
    have hcancelled : (insertedRow L request context (host.fingerprint request context) m.now).status =
        .cancelled := by
      simp [insertedRow, hsome, RunRow.cancelledBeforeAccept]
    refine ⟨by simpa using hsome, _, _, Dict.get?_set_self _ _ _, hcancelled,
      rfl, rfl, rfl, rfl, ?_⟩
    show EventPayload.accepted _ _ = _
    rw [hcancelled]

end Store

/-- However the operations of a ledger are ordered, a terminal run keeps its status and its output,
each run is reported terminal at most once and never after it was terminal, and a run accepted under
a reserved cancellation is terminal from its acceptance on and is never reported. -/
theorem terminal_runs_are_sticky [DecidableEq D] (L : Ledger D P) (calls : List (Store.Call D P)) :
    (∀ id row, L.runs.get? id = some row → row.status.terminal = true →
      ∃ row', (Store.history L calls).runs.get? id = some row' ∧ row'.status = row.status ∧
        row'.output = row.output) ∧
    (∃ added, (Store.history L calls).events = L.events ++ added ∧ ∀ id,
      terminalEvents id added ≤ 1 ∧ (L.settled id = true → terminalEvents id added = 0)) ∧
    (∀ host request context m record created L', L.reservation request.runId ≠ none →
      L.runs.get? request.runId = none →
      Store.transaction m (Store.accept host request context m.now) L =
        (.ok (record, created), L') →
      record.status = .cancelled ∧ ∃ accepted added,
        accepted.runId = request.runId ∧ accepted.eventType = "run.accepted" ∧
        accepted.payload = .accepted .cancelled (host.fingerprint request context) ∧
        L'.events = L.events ++ [accepted] ∧
        (Store.history L' calls).events = L.events ++ accepted :: added ∧
        terminalEvents request.runId added = 0 ∧
        ∃ row, (Store.history L' calls).runs.get? request.runId = some row ∧
          row.status = .cancelled) := by
  refine ⟨?_, ?_, ?_⟩
  · intro id row hrow hterm
    exact ⟨row, (Store.history_follows L calls).kept id row hrow hterm, rfl, rfl⟩
  · obtain ⟨added, hadded, hle⟩ := (Store.history_follows L calls).reported
    refine ⟨added, hadded, ?_⟩
    intro id
    have hid := hle id
    have hone := Bool.toNat_le ((Store.history L calls).settled id)
    refine ⟨by omega, ?_⟩
    intro hsettled
    rw [hsettled, Bool.toNat_true] at hid
    omega
  · intro host request context m record created L' hreserved habsent haccept
    obtain ⟨-, row, e, hrow, hcancelled, rfl, hevents, hid, htype, hpayload⟩ :=
      Store.reserved_settled hreserved habsent haccept
    have hterm : row.status.terminal = true := by rw [hcancelled]; rfl
    have hfollows := Store.history_follows L' calls
    obtain ⟨added, hadded, hle⟩ := hfollows.reported
    have hquiet := hle request.runId
    have hone := Bool.toNat_le ((Store.history L' calls).settled request.runId)
    rw [Store.settled_eq hrow, hterm, Bool.toNat_true] at hquiet
    refine ⟨hcancelled, e, added, hid, htype, hpayload, hevents, ?_, by omega, row,
      hfollows.kept _ _ hrow hterm, hcancelled⟩
    rw [hadded, hevents, List.append_assoc, List.singleton_append]

end OpenAgent
