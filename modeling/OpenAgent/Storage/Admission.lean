import Mathlib.Logic.Relation
import OpenAgent.Storage.Runs

/-!
# What a ledger keeps, and how it admits

Whatever is committed to a ledger afterwards, a run that it holds stays there with the facts of its
admission, a message of its author stays as it was written, and the event log only grows. A ledger
that was filled by these operations alone therefore knows for every run the request it was accepted
for, and an acceptance either finds that request again or conflicts with it.
-/

namespace OpenAgent

open Lib Option List

variable {D P : Type}

def RunRow.admission (row : RunRow D) : RunRow D :=
  { row with
    status := .queued
    statusRaw := ""
    output := none
    metadata := { row.metadata with cancelRequested := false }
    finishedAtMs := none }

theorem RunRow.admission_set {runs : Dict String (RunRow D)} {id : String} {row row' : RunRow D}
    (hrow : runs.get? id = some row) (hsame : row'.admission = row.admission) (x : String) :
    ((runs.set id row').get? x).map RunRow.admission = (runs.get? x).map RunRow.admission := by
  rw [Dict.get?_set]
  split
  · rename_i heq
    rw [heq, hrow, map_some, map_some, hsame]
  · rfl

structure RunRow.Becomes (row row' : RunRow D) : Prop where
  admitted : row'.admission = row.admission
  settled : row.status.terminal = true → row' = row

theorem RunRow.Becomes.refl (row : RunRow D) : row.Becomes row := ⟨rfl, fun _ => rfl⟩

theorem RunRow.Becomes.trans {row row' row'' : RunRow D} (h : row.Becomes row')
    (h' : row'.Becomes row'') : row.Becomes row'' where
  admitted := h'.admitted.trans h.admitted
  settled hterm := by
    obtain rfl := h.settled hterm
    exact h'.settled hterm

structure Ledger.Retains (L L' : Ledger D P) : Prop where
  runs : ∀ id row, L.runs.get? id = some row →
    ∃ row', L'.runs.get? id = some row' ∧ row.Becomes row'
  messages : ∀ m ∈ L.messages, m.role ≠ .tool → m ∈ L'.messages
  events : L.events <+: L'.events

namespace Ledger.Retains

theorem refl (L : Ledger D P) : L.Retains L where
  runs _ row h := ⟨row, h, .refl row⟩
  messages _ h _ := h
  events := prefix_rfl

variable {L L' : Ledger D P}

theorem trans {M N : Ledger D P} (h : L.Retains M) (h' : M.Retains N) : L.Retains N where
  runs id row hrow := by
    obtain ⟨row', hrow', hbecomes⟩ := h.runs id row hrow
    obtain ⟨row'', hrow'', hbecomes'⟩ := h'.runs id row' hrow'
    exact ⟨row'', hrow'', hbecomes.trans hbecomes'⟩
  messages m hm hrole := h'.messages m (h.messages m hm hrole) hrole
  events := h.events.trans h'.events

theorem present (h : L.Retains L') {id : String} (hid : L.runs.get? id ≠ none) : L'.runs.get? id ≠ none := by
  obtain ⟨row, hrow⟩ := ne_none_iff_exists'.mp hid
  obtain ⟨row', hrow', -⟩ := h.runs id row hrow
  rw [hrow']
  exact some_ne_none row'

theorem settled {L L' : Ledger D P} (h : L.Retains L') {id : String} (hid : L.settled id = true) :
    L'.settled id = true := by
  unfold Ledger.settled at hid ⊢
  cases hrow : L.runs.get? id with
  | none =>
    simp [hrow] at hid
  | some row =>
    rw [hrow] at hid
    obtain ⟨row', hrow', hbecomes⟩ := h.runs id row hrow
    obtain rfl := hbecomes.settled hid
    rw [hrow']
    exact hid

theorem reservation (h : L.Retains L') {id : String} {e : EventRow D} (he : L.reservation id = some e)
    : L'.reservation id = some e := by
  obtain ⟨added, hadded⟩ := h.events
  unfold Ledger.reservation at he ⊢
  rw [← hadded, find?_append, he, some_or]

theorem of_write {id : String} {row' : RunRow D}
    (hrow : ∀ row, L.runs.get? id = some row → row.Becomes row') (hruns : L'.runs = L.runs.set id row')
    (hmessages : ∀ m ∈ L.messages, m ∈ L'.messages) (hevents : L.events <+: L'.events) : L.Retains L' where
  runs x row hx := by
    rw [hruns, Dict.get?_set]
    split
    · rename_i heq
      subst heq
      exact ⟨row', rfl, hrow row hx⟩
    · exact ⟨row, hx, .refl row⟩
  messages m hm _ := hmessages m hm
  events := hevents

theorem of_runs_eq (hruns : L'.runs = L.runs)
    (hmessages : ∀ m ∈ L.messages, m.role ≠ .tool → m ∈ L'.messages) (hevents : L.events <+: L'.events)
    : L.Retains L' where
  runs x row hx := ⟨row, by rw [hruns, hx], .refl row⟩
  messages := hmessages
  events := hevents

end Ledger.Retains

/-! ### Everything that is ever committed -/

namespace Store

/-- One committed operation of a client that fingerprints requests with `fp`. -/
inductive Commit [DecidableEq D] (fp : RunRequest → ExecutionContext → D) (L L' : Ledger D P) : Prop
  | accept {host : Host D P} {request : RunRequest} {context : ExecutionContext} {now : Int}
      {result : RunRecord D × Bool} (hhost : host.fingerprint = fp)
      (h : accept host request context now L = .ok (result, L'))
  | transition {host : Host D P} {runId : String} {status : RunStatus} {output : Option Json}
      {now : Int} {record : RunRecord D}
      (h : transition host runId status output now L = .ok (record, L'))
  | requestCancel {host : Host D P} {runId : String} {record : RunRecord D}
      (h : requestCancel host runId L = .ok (record, L'))
  | reserveCancel {runId : String} {context : ExecutionContext} {record : RunRecord D}
      (h : reserveCancel runId context L = .ok (record, L'))
  | appendEvent {host : Host D P} {runId kind : String} {payload : Json} {sequence : Nat}
      (h : appendEvent host runId kind payload L = .ok (sequence, L'))
  | beginTool {host : Host D P} {runId callId : String} {binding : ToolBinding} {arguments : Json}
      {intent : Option (Attestation (List ContentOrigin))} {now : Int} {u : Unit}
      (h : beginTool host runId callId binding arguments intent now L = .ok (u, L'))
  | finishTool {host : Host D P} {runId callId : String} {outcome : ToolOutcome}
      {provenance : Option (Attestation ResultProvenance)} {now : Int} {u : Unit}
      (h : finishTool host runId callId outcome provenance now L = .ok (u, L'))

variable [DecidableEq D] {fp : RunRequest → ExecutionContext → D}

def Reaches (fp : RunRequest → ExecutionContext → D) : Ledger D P → Ledger D P → Prop :=
  Relation.ReflTransGen (Commit fp)

variable {L L' : Ledger D P}

theorem Reaches.related {R : Ledger D P → Ledger D P → Prop} (hrefl : ∀ L, R L L)
    (htrans : ∀ {L M N}, R L M → R M N → R L N) (hcommit : ∀ L L', Commit fp L L' → R L L')
    (h : Reaches fp L L') : R L L' := by
  induction h with
  | refl => exact hrefl L
  | tail _ hstep ih => exact htrans ih (hcommit _ _ hstep)

theorem transaction_reaches {α : Type} {m : Moment} {body : StoreTx D P α}
    (hbody : ∀ a L', body L = .ok (a, L') → Commit fp L L') :
    Reaches fp L (transaction m body L).2 :=
  transaction_related (fun _ => Relation.ReflTransGen.refl) fun a L' h =>
    Relation.ReflTransGen.single (hbody a L' h)

theorem recover_reaches (host : Host D P) (moments : List Moment) (L : Ledger D P) :
    Reaches fp L (recover host moments L).2 := by
  apply recover_related (fun _ => Relation.ReflTransGen.refl) Relation.ReflTransGen.trans
  · exact fun h => .single (.finishTool h)
  · exact fun h => .single (.transition h)

theorem perform_reaches (L : Ledger D P) (call : Call D P) :
    Reaches call.host.fingerprint L (perform L call) := by
  unfold perform
  cases call.operation with
  | accept request context => exact transaction_reaches fun _ _ => .accept rfl
  | transition runId status output => exact transaction_reaches fun _ _ => .transition
  | requestCancel runId => exact transaction_reaches fun _ _ => .requestCancel
  | reserveCancel runId context => exact transaction_reaches fun _ _ => .reserveCancel
  | beginTool runId callId binding arguments intent => exact transaction_reaches fun _ _ => .beginTool
  | finishTool runId callId outcome provenance => exact transaction_reaches fun _ _ => .finishTool
  | recover => exact recover_reaches _ _ _

/-! ### What stays -/

variable (fp) in
theorem commit_retains (h : Commit fp L L') : L.Retains L' := by
  have hadded : ∀ e : EventRow D, L.events <+: L.events ++ [e] := fun e => prefix_append _ _
  cases h with
  | accept _ h =>
    obtain ⟨-, ⟨row, -, -, hr⟩ | ⟨hnone, h⟩⟩ := accept_ok h
    · cases hr
      exact .refl _
    · obtain ⟨-, session, acl, p, -, -, hr⟩ := insertRun_ok h
      cases hr
      refine .of_write ?_ rfl (fun m hm => mem_append_left _ hm) (hadded _)
      intro row hrow
      simp [Ledger.absent_of_colliding_eq_nil hnone] at hrow
  | transition h =>
    obtain ⟨row, hrow, -, ⟨-, hr⟩ | ⟨hlive, -, -, replies, sessions, p, -, -, hr⟩⟩ := transition_ok h
    · cases hr
      exact .refl _
    · cases hr
      refine .of_write ?_ rfl (fun m hm => mem_append_left _ hm) (hadded _)
      intro row' hrow'
      cases hrow.symm.trans hrow'
      exact ⟨rfl, fun hterm => by rw [hlive] at hterm; cases hterm⟩
  | requestCancel h =>
    obtain ⟨row, hrow, -, ⟨-, hr⟩ | ⟨hlive, -, p, hr⟩⟩ := requestCancel_ok h
    · cases hr
      exact .refl _
    · cases hr
      refine .of_write ?_ rfl (fun m hm => hm) (hadded _)
      intro row' hrow'
      cases hrow.symm.trans hrow'
      exact ⟨rfl, fun hterm => by rw [hlive] at hterm; cases hterm⟩
  | reserveCancel h =>
    rcases reserveCancel_ok h with ⟨row, -, hr, -⟩ | ⟨-, -, ⟨e, -, -, -, hr⟩ | ⟨-, hr⟩⟩
    · cases hr
      exact .refl _
    · obtain rfl : L' = L := hr
      exact .refl _
    · obtain rfl := hr
      exact .of_runs_eq rfl (fun m hm _ => hm) (hadded _)
  | appendEvent h =>
    obtain ⟨row, p, -, hr⟩ := appendEvent_ok h
    cases hr
    exact .of_runs_eq rfl (fun m hm _ => hm) (hadded _)
  | beginTool h =>
    obtain ⟨run, session, anchor, p, -, -, -, -, -, hr⟩ := beginTool_ok h
    cases hr
    exact .of_runs_eq rfl (fun m hm _ => mem_append_left _ hm) (hadded _)
  | finishTool h =>
    obtain ⟨row, run, messages, p, -, -, -, hkept, -, hr⟩ := finishTool_ok h
    cases hr
    exact .of_runs_eq rfl hkept (hadded _)

theorem Reaches.retains (h : Reaches fp L L') : L.Retains L' :=
  h.related .refl .trans fun _ _ => commit_retains fp

/-! ### What a ledger knows of its runs -/

theorem commit_admissions (h : Commit fp L L') :
    (∀ id, (L'.runs.get? id).map RunRow.admission = (L.runs.get? id).map RunRow.admission) ∨
      ∃ request context now, L.colliding request = [] ∧
        L'.runs = L.runs.set request.runId (insertedRow L request context (fp request context) now) ∧
        ∃ (host : Host D P) (result : RunRecord D × Bool), host.fingerprint = fp ∧
          accept host request context now L = .ok (result, L') := by
  cases h with
  | @accept host request context now result hhost haccept =>
    obtain ⟨-, ⟨row, -, -, hr⟩ | ⟨hnone, h⟩⟩ := accept_ok haccept
    · cases hr
      exact .inl fun _ => rfl
    · obtain ⟨-, session, acl, p, -, -, hr⟩ := insertRun_ok h
      obtain ⟨-, rfl⟩ := Prod.mk.inj hr
      exact .inr ⟨request, context, now, hnone, by rw [← hhost], host, result, hhost, haccept⟩
  | transition h =>
    obtain ⟨row, hrow, -, ⟨-, hr⟩ | ⟨-, -, -, replies, sessions, p, -, -, hr⟩⟩ := transition_ok h
    · cases hr
      exact .inl fun _ => rfl
    · cases hr
      exact .inl (RunRow.admission_set hrow rfl)
  | requestCancel h =>
    obtain ⟨row, hrow, -, ⟨-, hr⟩ | ⟨-, -, p, hr⟩⟩ := requestCancel_ok h
    · cases hr
      exact .inl fun _ => rfl
    · cases hr
      exact .inl (RunRow.admission_set hrow rfl)
  | reserveCancel h =>
    rcases reserveCancel_ok h with ⟨row, -, hr, -⟩ | ⟨-, -, ⟨e, -, -, -, hr⟩ | ⟨-, hr⟩⟩
    · cases hr
      exact .inl fun _ => rfl
    · obtain rfl : L' = L := hr
      exact .inl fun _ => rfl
    · obtain rfl := hr
      exact .inl fun _ => rfl
  | appendEvent h =>
    obtain ⟨row, p, -, hr⟩ := appendEvent_ok h
    cases hr
    exact .inl fun _ => rfl
  | beginTool h =>
    obtain ⟨run, session, anchor, p, -, -, -, -, -, hr⟩ := beginTool_ok h
    cases hr
    exact .inl fun _ => rfl
  | finishTool h =>
    obtain ⟨row, run, messages, p, -, -, -, -, -, hr⟩ := finishTool_ok h
    cases hr
    exact .inl fun _ => rfl

def Visible (S : Dict String SessionRow) : Prop :=
  ∀ id session, S.get? id = some session → session.visibility ≠ .quarantined

theorem visible_set {S : Dict String SessionRow} {id : String} {session : SessionRow}
    (h : Visible S) (hnew : session.visibility ≠ .quarantined) : Visible (S.set id session) := by
  intro x found hx
  rw [Dict.get?_set] at hx
  split at hx
  · cases hx
    exact hnew
  · exact h x found hx

theorem visible_touched {S S' : Dict String SessionRow} (h : Visible S) (htouched : Touched S S') :
    Visible S' := by
  rcases htouched with rfl | ⟨id, session, now, hsession, rfl⟩
  · exact h
  · exact visible_set h (h id session hsession)

theorem commit_visible (h : Commit fp L L') (hvisible : Visible L.sessions) :
    Visible L'.sessions := by
  cases h with
  | @accept host request context now result _ h =>
    obtain ⟨-, ⟨row, -, -, hr⟩ | ⟨-, h⟩⟩ := accept_ok h
    · cases hr
      exact hvisible
    · obtain ⟨-, session, acl, p, hnew, hold, hr⟩ := insertRun_ok h
      cases hr
      refine visible_set hvisible ?_
      cases hsession : L.sessions.get? request.sessionId with
      | none => exact hnew hsession
      | some existing =>
        rw [hold existing hsession]
        exact hvisible _ existing hsession
  | transition h =>
    obtain ⟨row, -, -, ⟨-, hr⟩ | ⟨-, -, -, replies, sessions, p, -, htouched, hr⟩⟩ := transition_ok h
    · cases hr
      exact hvisible
    · cases hr
      exact visible_touched hvisible htouched
  | requestCancel h =>
    obtain ⟨row, -, -, ⟨-, hr⟩ | ⟨-, -, p, hr⟩⟩ := requestCancel_ok h
    · cases hr
      exact hvisible
    · cases hr
      exact hvisible
  | reserveCancel h =>
    rcases reserveCancel_ok h with ⟨row, -, hr, -⟩ | ⟨-, -, ⟨e, -, -, -, hr⟩ | ⟨-, hr⟩⟩
    · cases hr
      exact hvisible
    · obtain rfl : L' = L := hr
      exact hvisible
    · obtain rfl := hr
      exact hvisible
  | appendEvent h =>
    obtain ⟨row, p, -, hr⟩ := appendEvent_ok h
    cases hr
    exact hvisible
  | beginTool h =>
    obtain ⟨run, session, anchor, p, -, -, -, hsession, -, hr⟩ := beginTool_ok h
    cases hr
    exact visible_set hvisible (hvisible _ session hsession)
  | finishTool h =>
    obtain ⟨row, run, messages, p, -, -, -, -, -, hr⟩ := finishTool_ok h
    cases hr
    exact hvisible

end Store

structure RunRow.AcceptedFor (fp : RunRequest → ExecutionContext → D) (request : RunRequest)
    (context : ExecutionContext) (row : RunRow D) : Prop where
  sessionId : row.sessionId = request.sessionId
  tenantId : row.tenantId = context.tenantId
  idempotencyKey : row.idempotencyKey = some request.idempotencyKey
  input : row.input = some request.input
  requestDigest : row.metadata.requestDigest = some (fp request context)
  executionContext : row.metadata.executionContext = some context

variable {request : RunRequest}

variable {context : ExecutionContext}

theorem RunRow.AcceptedFor.of_admission {fp : RunRequest → ExecutionContext → D}
    {row row' : RunRow D} (h : row.AcceptedFor fp request context)
    (hsame : row'.admission = row.admission) : row'.AcceptedFor fp request context where
  sessionId := (congrArg RunRow.sessionId hsame).trans h.sessionId
  tenantId := (congrArg RunRow.tenantId hsame).trans h.tenantId
  idempotencyKey := (congrArg RunRow.idempotencyKey hsame).trans h.idempotencyKey
  input := (congrArg RunRow.input hsame).trans h.input
  requestDigest := (congrArg (fun r => r.metadata.requestDigest) hsame).trans h.requestDigest
  executionContext := (congrArg (fun r => r.metadata.executionContext) hsame).trans h.executionContext

theorem Store.insertedRow_acceptedFor (fp : RunRequest → ExecutionContext → D) (L : Ledger D P)
    (request : RunRequest) (context : ExecutionContext) (now : Int) :
    (insertedRow L request context (fp request context) now).AcceptedFor fp request context := by
  unfold insertedRow
  split <;> exact ⟨rfl, rfl, rfl, rfl, rfl, rfl⟩

structure Ledger.Sound (fp : RunRequest → ExecutionContext → D) (L : Ledger D P) : Prop where
  visible : Store.Visible L.sessions
  accepted : ∀ id row, L.runs.get? id = some row →
    ∃ request context, request.runId = id ∧ row.AcceptedFor fp request context
  keyed : ∀ id id' row row', L.runs.get? id = some row → L.runs.get? id' = some row' →
    row.sessionId = row'.sessionId → row.idempotencyKey = row'.idempotencyKey → id = id'

theorem Ledger.sound_empty (fp : RunRequest → ExecutionContext → D) (privacy : P) :
    (Ledger.empty privacy : Ledger D P).Sound fp where
  visible _ _ h := by cases h
  accepted _ _ h := by cases h
  keyed _ _ _ _ h := by cases h

namespace Store

variable [DecidableEq D] {fp : RunRequest → ExecutionContext → D}

variable {L L' : Ledger D P}

theorem commit_sound (h : Commit fp L L') (hL : L.Sound fp) : L'.Sound fp := by
  refine ⟨commit_visible h hL.visible, ?_, ?_⟩
  · intro id row' hrow'
    rcases commit_admissions h with hsame | ⟨request, context, now, -, hruns, -⟩
    · obtain ⟨row, hrow, hadmission⟩ := Option.map_eq_some_iff.mp
        ((hsame id).symm.trans (by rw [hrow', map_some]))
      obtain ⟨request, context, hid, haccepted⟩ := hL.accepted id row hrow
      exact ⟨request, context, hid, haccepted.of_admission hadmission.symm⟩
    · rw [hruns, Dict.get?_set] at hrow'
      split at hrow'
      · rename_i hid
        cases hrow'
        exact ⟨request, context, hid.symm, insertedRow_acceptedFor fp L request context now⟩
      · exact hL.accepted id row' hrow'
  · intro id id' row row' hrow hrow' hsession hkey
    rcases commit_admissions h with hsame | ⟨request, context, now, hnone, hruns, -⟩
    · obtain ⟨old, hold, hadmission⟩ := Option.map_eq_some_iff.mp
        ((hsame id).symm.trans (by rw [hrow, map_some]))
      obtain ⟨old', hold', hadmission'⟩ := Option.map_eq_some_iff.mp
        ((hsame id').symm.trans (by rw [hrow', map_some]))
      refine hL.keyed id id' old old' hold hold' ?_ ?_
      · exact (congrArg RunRow.sessionId hadmission).trans
          (hsession.trans (congrArg RunRow.sessionId hadmission').symm)
      · exact (congrArg RunRow.idempotencyKey hadmission).trans
          (hkey.trans (congrArg RunRow.idempotencyKey hadmission').symm)
    · have hinserted := insertedRow_acceptedFor fp L request context now
      have hfree : ∀ x old, L.runs.get? x = some old → old.sessionId = request.sessionId →
          old.idempotencyKey ≠ some request.idempotencyKey := by
        intro x old hold hs hk
        have hmem := Ledger.mem_colliding.mpr ⟨hold, .inr ⟨hs, hk⟩⟩
        simp [hnone] at hmem
      rw [hruns, Dict.get?_set] at hrow hrow'
      split at hrow <;> split at hrow'
      · rename_i hid hid'
        exact hid.trans hid'.symm
      · cases hrow
        exact absurd (hkey.symm.trans hinserted.idempotencyKey)
          (hfree id' row' hrow' (hsession.symm.trans hinserted.sessionId))
      · cases hrow'
        exact absurd (hkey.trans hinserted.idempotencyKey)
          (hfree id row hrow (hsession.trans hinserted.sessionId))
      · exact hL.keyed id id' row row' hrow hrow' hsession hkey

theorem Reaches.sound (h : Reaches fp L L') (hL : L.Sound fp) : L'.Sound fp :=
  h.related (R := fun L L' => L.Sound fp → L'.Sound fp) (fun _ => id) (fun h h' hL => h' (h hL))
    (fun _ _ => commit_sound) hL

/-! ### Admission -/

variable {request : RunRequest} {context : ExecutionContext}

variable {host : Host D P}

theorem accept_created {now : Int} {record : RunRecord D}
    (h : accept host request context now L = .ok ((record, true), L')) :
    record.runId = request.runId ∧ L.runs.get? request.runId = none ∧
      L.reservation request.runId = none ∧
      ∃ row, L'.runs.get? request.runId = some row ∧ row.status = .queued := by
  obtain ⟨-, ⟨row, -, -, hr⟩ | ⟨hnone, h⟩⟩ := accept_ok h
  · cases congrArg (fun r => r.1.2) hr
  · obtain ⟨-, session, acl, p, -, -, hr⟩ := insertRun_ok h
    obtain ⟨hresult, rfl⟩ := Prod.mk.inj hr
    obtain ⟨rfl, hfresh⟩ := Prod.mk.inj hresult
    have hreserved : L.reservation request.runId = none := by simpa using hfresh.symm
    refine ⟨rfl, Ledger.absent_of_colliding_eq_nil hnone, hreserved, _, Dict.get?_set_self _ _ _, ?_⟩
    simp [insertedRow, hreserved, acceptedRow]

theorem accept_present {now : Int} {record : RunRecord D} {created : Bool}
    (h : accept host request context now L = .ok ((record, created), L')) :
    L'.runs.get? record.runId ≠ none := by
  obtain ⟨-, ⟨row, hrow, -, hr⟩ | ⟨-, h⟩⟩ := accept_ok h
  · obtain ⟨hresult, rfl⟩ := Prod.mk.inj hr
    cases hresult
    have hmem : (request.runId, row) ∈ L'.colliding request := by simp [hrow]
    show L'.runs.get? request.runId ≠ none
    rw [(Ledger.mem_colliding.mp hmem).1]
    exact some_ne_none row
  · obtain ⟨-, session, acl, p, -, -, hr⟩ := insertRun_ok h
    obtain ⟨hresult, rfl⟩ := Prod.mk.inj hr
    cases hresult
    exact (Dict.get?_set_self _ _ _).trans_ne (some_ne_none _)

theorem accept_added {now : Int} {record : RunRecord D}
    (h : accept host request context now L = .ok ((record, false), L')) {id : String}
    (hbefore : L.runs.get? id = none) (hafter : L'.runs.get? id ≠ none) : L'.settled id = true := by
  obtain ⟨-, ⟨row, -, -, hr⟩ | ⟨-, h⟩⟩ := accept_ok h
  · cases hr
    exact absurd hbefore hafter
  · obtain ⟨-, session, acl, p, -, -, hr⟩ := insertRun_ok h
    obtain ⟨hresult, rfl⟩ := Prod.mk.inj hr
    obtain ⟨-, hcreated⟩ := Prod.mk.inj hresult
    have hreserved : (L.reservation request.runId).isSome = true := by simpa using hcreated.symm
    by_cases hid : id = request.runId
    · subst hid
      rw [Ledger.settled, Dict.get?_set_self]
      simp only [insertedRow, hreserved, if_true, RunRow.cancelledBeforeAccept]
      rfl
    · exact absurd ((Dict.get?_set_ne _ _ hid).trans hbefore) hafter

end Store

namespace Store

variable [DecidableEq D] {fp : RunRequest → ExecutionContext → D}

end Store

end OpenAgent
