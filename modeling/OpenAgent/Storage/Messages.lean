import OpenAgent.Storage.Runs

/-!
# The shape of the messages

Every writer of a message numbers it by the largest number there plus one, once within its session
and once within its run, while the runs of a session write in turns. What is shown of the whole
table is kept by each operation from the places of its messages alone: the numbers of a session and
of a run are the first natural numbers in order, a run opens with what its user said, and its answer
is there exactly once it has ended in success with an output.
-/

namespace OpenAgent

open Lib List Option

def RunRow.answered {D : Type} (row : RunRow D) : Bool := row.status = .success ∧ row.output.isSome

namespace Store

variable {D P : Type}

/-! ### Numbers -/

theorem nextOrdinal_range (n : Nat) : nextOrdinal (List.range n) = n := by
  cases n with
  | zero => rfl
  | succ n =>
    have hmax : (List.range (n + 1)).max? = some n := by
      rw [max?_eq_some_iff]
      refine ⟨List.mem_range.mpr (Nat.lt_succ_self n), ?_⟩
      intro m hm
      exact Nat.le_of_lt_succ (List.mem_range.mp hm)
    rw [nextOrdinal, hmax]

/-- The messages that satisfy `p` carry the numbers from zero on, in order. -/
def Numbered (number : Outline → Nat) (p : Outline → Bool) (outlines : List Outline) : Prop :=
  (outlines.filter p).map number = List.range (outlines.filter p).length

theorem Numbered.append {number : Outline → Nat} {p : Outline → Bool} {outlines : List Outline}
    {o : Outline} (h : Numbered number p outlines)
    (ho : p o = true → number o = nextOrdinal ((outlines.filter p).map number)) :
    Numbered number p (outlines ++ [o]) := by
  unfold Numbered at h ⊢
  by_cases hp : p o = true
  · have hnumber : number o = (outlines.filter p).length := by
      rw [ho hp, h, nextOrdinal_range]
    rw [filter_append, filter_cons_of_pos hp, filter_nil, map_append, h,
      length_append, length_singleton, range_succ, map_singleton, hnumber]
  · rw [filter_append, filter_cons_of_neg hp, filter_nil, append_nil, h]

structure Shaped (runs : Dict String (RunRow D)) (outlines : List Outline) : Prop where
  sequences : ∀ sessionId, Numbered Outline.sequence (fun o => o.sessionId = sessionId) outlines
  ordinals : ∀ runId, Numbered Outline.ordinal (fun o => o.runId = runId) outlines
  owned : ∀ o ∈ outlines, runs.get? o.runId ≠ none
  opened : ∀ runId run, runs.get? runId = some run → ∃ o rest,
    (outlines.filter fun o => o.runId = runId) = o :: rest ∧ o.role = .user
  replies : ∀ runId run, runs.get? runId = some run →
    outlines.countP (fun o => o.runId = runId ∧ o.role = .assistant) = if run.answered then 1 else 0

namespace Shaped

variable {runs : Dict String (RunRow D)} {outlines : List Outline}

theorem empty : Shaped (.empty : Dict String (RunRow D)) [] where
  sequences _ := rfl
  ordinals _ := rfl
  owned o ho := by cases ho
  opened runId run hrun := by cases hrun
  replies runId run hrun := by cases hrun

theorem of_get?_eq {runs' : Dict String (RunRow D)} (h : Shaped runs outlines)
    (heq : ∀ id, runs'.get? id = runs.get? id) : Shaped runs' outlines where
  sequences := h.sequences
  ordinals := h.ordinals
  owned o ho := by
    rw [heq]
    exact h.owned o ho
  opened id run hrun := h.opened id run ((heq id).symm.trans hrun)
  replies id run hrun := h.replies id run ((heq id).symm.trans hrun)

theorem set (h : Shaped runs outlines) {runId : String} {old row : RunRow D}
    (hold : runs.get? runId = some old) (hanswered : row.answered = old.answered) :
    Shaped (runs.set runId row) outlines where
  sequences := h.sequences
  ordinals := h.ordinals
  owned o ho := by
    rw [Dict.get?_set]
    split
    · exact some_ne_none _
    · exact h.owned o ho
  opened id run hrun := by
    rw [Dict.get?_set] at hrun
    split at hrun
    · rename_i heq
      rw [heq]
      exact h.opened runId old hold
    · exact h.opened id run hrun
  replies id run hrun := by
    rw [Dict.get?_set] at hrun
    split at hrun
    · rename_i heq
      cases hrun
      rw [heq, hanswered]
      exact h.replies runId old hold
    · exact h.replies id run hrun

/-- One more message of a run, with the row that goes with it: the first of a new run is its
user's, and one more reply makes it answered. -/
theorem write (h : Shaped runs outlines) {sessionId runId : String} {role : MessageRole}
    {row : RunRow D}
    (hfirst : runs.get? runId = none → role = .user)
    (hreplies : row.answered.toNat =
      ((runs.get? runId).any RunRow.answered).toNat + if role = .assistant then 1 else 0) :
    Shaped (runs.set runId row) (outlines ++ [.next outlines sessionId runId role]) where
  sequences id := by
    refine (h.sequences id).append ?_
    intro hid
    obtain rfl : sessionId = id := of_decide_eq_true hid
    rfl
  ordinals id := by
    refine (h.ordinals id).append ?_
    intro hid
    obtain rfl : runId = id := of_decide_eq_true hid
    rfl
  owned o ho := by
    rw [Dict.get?_set]
    split
    · exact some_ne_none _
    · rename_i hne
      rcases List.mem_append.mp ho with hmem | hnew
      · exact h.owned o hmem
      · cases List.mem_singleton.mp hnew
        exact absurd rfl hne
  opened id run hrun := by
    rw [Dict.get?_set] at hrun
    rw [filter_append]
    by_cases hid : id = runId
    · subst hid
      cases hold : runs.get? id with
      | some old =>
        obtain ⟨o, rest, hfilter, hrole⟩ := h.opened id old hold
        exact ⟨o, _, by rw [hfilter, cons_append], hrole⟩
      | none =>
        have hnone : (outlines.filter fun o => o.runId = id) = [] := by
          rw [filter_eq_nil_iff]
          intro o ho hsame
          refine h.owned o ho ?_
          rw [of_decide_eq_true hsame, hold]
        refine ⟨.next outlines sessionId id role, [], ?_, hfirst hold⟩
        rw [hnone, nil_append, filter_cons_of_pos (by simp [Outline.next]), filter_nil]
    · rw [if_neg hid] at hrun
      obtain ⟨o, rest, hfilter, hrole⟩ := h.opened id run hrun
      exact ⟨o, _, by rw [hfilter, cons_append], hrole⟩
  replies id run hrun := by
    rw [Dict.get?_set] at hrun
    rw [countP_append, countP_singleton]
    by_cases hid : id = runId
    · subst hid
      rw [if_pos rfl] at hrun
      cases hrun
      have hcount : outlines.countP (fun o => o.runId = id ∧ o.role = .assistant) =
          ((runs.get? id).any RunRow.answered).toNat := by
        cases hold : runs.get? id with
        | some old =>
          rw [h.replies id old hold, any_some]
          cases old.answered <;> rfl
        | none =>
          rw [any_none, Bool.toNat_false, countP_eq_zero]
          intro o ho hsame
          refine h.owned o ho ?_
          rw [(of_decide_eq_true hsame).1, hold]
      have hone : (if row.answered = true then 1 else 0) = row.answered.toNat := by
        cases row.answered <;> rfl
      rw [hcount, hone, hreplies]
      by_cases hrole : role = .assistant <;> simp [hrole, Outline.next]
    · rw [if_neg hid] at hrun
      have hother : ¬ (runId = id ∧ role = .assistant) := fun hboth => hid hboth.1.symm
      rw [h.replies id run hrun]
      simp [Outline.next, hother]

end Shaped

/-! ### Every operation -/

def Keeps (L L' : Ledger D P) : Prop :=
  Shaped L.runs (L.messages.map outline) → Shaped L'.runs (L'.messages.map outline)

theorem Keeps.refl (L : Ledger D P) : Keeps L L := id

variable {L : Ledger D P}

theorem Keeps.trans {M N : Ledger D P} (h : Keeps L M) (h' : Keeps M N) : Keeps L N := h' ∘ h

variable {host : Host D P}

variable {r : RunRecord D × Ledger D P}

theorem transition_keeps {runId : String} {status : RunStatus} {output : Option Json}
    {now : Int} (h : transition host runId status output now L = .ok r)
    : Keeps L r.2 := by
  obtain ⟨row, hrow, -, ⟨-, rfl⟩ | ⟨hlive, -, -, replies, sessions, p, hreplies, -, rfl⟩⟩ := transition_ok h
  · exact .refl L
  intro hshaped
  have hopen : row.answered = false := by
    cases hstatus : row.status with
    | success => simp [hstatus, RunStatus.terminal] at hlive
    | _ => simp [RunRow.answered, hstatus]
  have hmoved : (row.moved status output now).answered = decide (status = .success ∧ output.isSome) := rfl
  simp only [map_append, hreplies]
  split
  · rename_i hanswered
    refine hshaped.write (by simp [hrow]) ?_
    rw [hmoved, decide_eq_true hanswered, hrow, any_some, hopen]
    rfl
  · rename_i hanswered
    rw [append_nil]
    refine hshaped.set hrow ?_
    rw [hmoved, hopen, decide_eq_false hanswered]

theorem accept_keeps [DecidableEq D] {request : RunRequest} {context : ExecutionContext}
    {now : Int} {r : (RunRecord D × Bool) × Ledger D P} (h : accept host request context now L = .ok r)
    : Keeps L r.2 := by
  obtain ⟨-, ⟨row, -, -, rfl⟩ | ⟨hnone, h⟩⟩ := accept_ok h
  · exact .refl L
  obtain ⟨-, session, acl, p, -, -, rfl⟩ := insertRun_ok h
  have habsent := Ledger.absent_of_colliding_eq_nil hnone
  intro hshaped
  have hopen : (insertedRow L request context (host.fingerprint request context) now).answered = false := by
    unfold insertedRow
    split <;> simp [RunRow.answered, RunRow.cancelledBeforeAccept, acceptedRow]
  simp only [map_append, map_singleton, acceptedMessage, outline_messageRow]
  refine hshaped.write (fun _ => rfl) ?_
  rw [hopen, habsent]
  rfl

theorem requestCancel_keeps {runId : String}
    (h : requestCancel host runId L = .ok r) : Keeps L r.2 := by
  obtain ⟨row, hrow, -, ⟨-, rfl⟩ | ⟨-, -, p, rfl⟩⟩ := requestCancel_ok h
  · exact .refl L
  · exact fun hshaped => hshaped.set hrow rfl

theorem reserveCancel_keeps {runId : String} {context : ExecutionContext}
    (h : reserveCancel runId context L = .ok r) : Keeps L r.2 := by
  rcases reserveCancel_ok h with ⟨row, -, rfl, -⟩ | ⟨-, -, ⟨e, -, -, -, hsame⟩ | ⟨-, hwritten⟩⟩
  · exact .refl L
  · rw [hsame]
    exact .refl L
  · rw [hwritten]
    exact id

theorem beginTool_keeps {runId callId : String} {binding : ToolBinding} {arguments : Json}
    {intent : Option (Attestation (List ContentOrigin))} {now : Int} {r : Unit × Ledger D P}
    (h : beginTool host runId callId binding arguments intent now L = .ok r) : Keeps L r.2 := by
  obtain ⟨run, session, anchor, p, hrun, -, -, -, hanchor, rfl⟩ := beginTool_ok h
  intro hshaped
  have hwritten : Shaped (L.runs.set runId run)
      (L.messages.map outline ++ [.next (L.messages.map outline) run.sessionId runId .tool]) := by
    refine hshaped.write (by simp [hrun]) ?_
    rw [hrun, any_some]
    rfl
  simp only [map_append, map_singleton, hanchor]
  refine hwritten.of_get?_eq ?_
  intro id
  rw [Dict.get?_set]
  split
  · rename_i hid
    rw [hid, hrun]
  · rfl

theorem finishTool_keeps {runId callId : String} {outcome : ToolOutcome}
    {provenance : Option (Attestation ResultProvenance)} {now : Int} {r : Unit × Ledger D P}
    (h : finishTool host runId callId outcome provenance now L = .ok r) :
    Keeps L r.2 := by
  obtain ⟨row, run, messages, p, -, -, -, -, houtline, rfl⟩ := finishTool_ok h
  intro hshaped
  simp only [houtline]
  exact hshaped

theorem transaction_keeps {α : Type} {m : Moment} {body : StoreTx D P α}
    (hbody : ∀ r, body L = .ok r → Keeps L r.2) : Keeps L (transaction m body L).2 :=
  transaction_related .refl fun a L' => hbody (a, L')

theorem recover_keeps (host : Host D P) (moments : List Moment) (L : Ledger D P) :
    Keeps L (recover host moments L).2 :=
  recover_related .refl .trans finishTool_keeps transition_keeps moments L

theorem perform_keeps [DecidableEq D] (L : Ledger D P) (call : Call D P) : Keeps L (perform L call) := by
  unfold perform
  cases call.operation with
  | accept request context => exact transaction_keeps fun _ => accept_keeps
  | transition runId status output => exact transaction_keeps fun _ => transition_keeps
  | requestCancel runId => exact transaction_keeps fun _ => requestCancel_keeps
  | reserveCancel runId context => exact transaction_keeps fun _ => reserveCancel_keeps
  | beginTool runId callId binding arguments intent => exact transaction_keeps fun _ => beginTool_keeps
  | finishTool runId callId outcome provenance => exact transaction_keeps fun _ => finishTool_keeps
  | recover => exact recover_keeps _ _ _

theorem history_keeps [DecidableEq D] (L : Ledger D P) (calls : List (Call D P)) :
    Keeps L (history L calls) := by
  induction calls generalizing L with
  | nil => exact .refl L
  | cons call rest ih => exact (perform_keeps L call).trans (ih (perform L call))

end Store

/-- In every ledger that its operations reach, the sequence numbers of a session and the ordinals of
a run are the first natural numbers in order, the first message of a run is its user's, and a run
has exactly one reply if it has ended in success with an output and none otherwise. -/
theorem messages_are_numbered {D P : Type} [DecidableEq D] (privacy : P) (calls : List (Store.Call D P)) :
    let L := Store.history (.empty privacy) calls
    (∀ sessionId,
      let written := L.messages.filter fun m => m.sessionId = sessionId
      written.map MessageRow.sequence = List.range written.length) ∧
    (∀ runId,
      let written := L.messages.filter fun m => m.runId = runId
      written.map MessageRow.ordinal = List.range written.length) ∧
    (∀ m ∈ L.messages, L.runs.get? m.runId ≠ none) ∧
    ∀ runId run, L.runs.get? runId = some run →
      (∃ m rest, (L.messages.filter fun m => m.runId = runId) = m :: rest ∧ m.role = .user) ∧
      L.messages.countP (fun m => m.runId = runId ∧ m.role = .assistant) =
        if run.status = .success ∧ run.output.isSome then 1 else 0 := by
  intro L
  have hshaped : Store.Shaped L.runs (L.messages.map Store.outline) :=
    Store.history_keeps (.empty privacy) calls .empty
  refine ⟨?_, ?_, ?_, ?_⟩
  · intro sessionId
    have hsequences := hshaped.sequences sessionId
    rw [Store.Numbered, List.filter_map, List.map_map, List.length_map] at hsequences
    exact hsequences
  · intro runId
    have hordinals := hshaped.ordinals runId
    rw [Store.Numbered, List.filter_map, List.map_map, List.length_map] at hordinals
    exact hordinals
  · intro m hm
    exact hshaped.owned (Store.outline m) (List.mem_map_of_mem hm)
  · intro runId run hrun
    refine ⟨?_, ?_⟩
    · obtain ⟨o, rest, hfilter, hrole⟩ := hshaped.opened runId run hrun
      rw [List.filter_map, List.map_eq_cons_iff] at hfilter
      obtain ⟨m, others, hwritten, rfl, -⟩ := hfilter
      exact ⟨m, others, hwritten, hrole⟩
    · have hreplies := hshaped.replies runId run hrun
      rw [List.countP_map] at hreplies
      simp only [RunRow.answered, decide_eq_true_eq] at hreplies
      exact hreplies

end OpenAgent
