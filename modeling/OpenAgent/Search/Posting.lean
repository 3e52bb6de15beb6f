import OpenAgent.Search.Sync

/-!
# What a statement changes

Each statement of a writer either adds rows to the outbox, and then no document changes, or changes
rows, and then the documents it can change are few. Well-formed rows are those whose foreign keys
lead somewhere, whose tool invocations have a message of their own, and whose outbox has not seen a
version of a message that is still to come.
-/

namespace OpenAgent.Search

open Lib Lib.Tx List

structure Canonical.WellFormed (C : Canonical) : Prop where
  message_session : ∀ id m, C.messages.get? id = some m → ∃ s, C.sessions.get? m.sessionId = some s
  tool_session : ∀ key t, C.tools.get? key = some t → ∃ s, C.sessions.get? t.sessionId = some s
  fresh : ∀ id m, C.messages.get? id = some m → id < C.nextMessage
  posted : ∀ r ∈ C.outbox.rows, ∀ id, r.key = .message id → id < C.nextMessage ∧
    (r.deletes = false → ∀ m, C.messages.get? id = some m → r.mark.sourceVersion ≤ m.sourceVersion)

def Canonical.Anchored (C : Canonical) : Prop :=
  ∀ runId callId t, C.tools.get? (runId, callId) = some t →
    ∃ p ∈ C.places, p.sessionId = t.sessionId ∧ p.runId = runId ∧ p.toolCallId = some callId

def ToolRow.unversioned (t : ToolRow) : ToolRow := { t with sourceVersion := 0 }

theorem ToolRow.sessionId_of_unversioned {t u : ToolRow} (h : t.unversioned = u.unversioned) :
    t.sessionId = u.sessionId := by
  show t.unversioned.sessionId = u.unversioned.sessionId
  rw [h]

theorem toolDocument_unversioned (ex : Extractors) (t : ToolRow) (heading : Heading) (messageId : Nat) :
    toolDocument ex t.unversioned heading messageId = toolDocument ex t heading messageId := rfl

/-- Nothing happened but that `notices` were posted and calls were given later versions. -/
structure Posted (C C' : Canonical) (notices : List (Notice SourceKey Mark)) : Prop where
  outbox : C'.outbox = C.outbox.enqueueAll notices
  upserts : ∀ n ∈ notices, n.deletes = false
  dated : ∀ n ∈ notices, ∀ id, n.key = .message id →
    ∃ m, C.messages.get? id = some m ∧ n.mark.sourceVersion = m.sourceVersion
  sessions : C'.sessions = C.sessions
  runs : C'.runs = C.runs
  messages : C'.messages = C.messages
  nextMessage : C'.nextMessage = C.nextMessage
  tools : ∀ key, (C'.tools.get? key).map ToolRow.unversioned = (C.tools.get? key).map ToolRow.unversioned

theorem Posted.refl (C : Canonical) : Posted C C [] :=
  ⟨rfl, by simp, by simp, rfl, rfl, rfl, rfl, fun _ => rfl⟩

variable {ns : List (Notice SourceKey Mark)}

theorem Posted.trans {C₁ C₂ C₃ : Canonical} {ms : List (Notice SourceKey Mark)} (h : Posted C₁ C₂ ns)
    (h' : Posted C₂ C₃ ms) : Posted C₁ C₃ (ns ++ ms) where
  outbox := by
    rw [h'.outbox, h.outbox, Outbox.enqueueAll, Outbox.enqueueAll, Outbox.enqueueAll, foldl_append]
  upserts := by
    intro n hn
    rcases List.mem_append.mp hn with hn | hn
    · exact h.upserts n hn
    · exact h'.upserts n hn
  dated := by
    intro n hn id hkey
    rcases List.mem_append.mp hn with hn | hn
    · exact h.dated n hn id hkey
    · obtain ⟨m, hm, hversion⟩ := h'.dated n hn id hkey
      exact ⟨m, h.messages ▸ hm, hversion⟩
  sessions := h'.sessions.trans h.sessions
  runs := h'.runs.trans h.runs
  messages := h'.messages.trans h.messages
  nextMessage := h'.nextMessage.trans h.nextMessage
  tools := fun key => (h'.tools key).trans (h.tools key)

variable {C C' : Canonical}

theorem Posted.tool (h : Posted C C' ns) {key : String × String} {t : ToolRow}
    (ht : C'.tools.get? key = some t) :
    ∃ u, C.tools.get? key = some u ∧ u.unversioned = t.unversioned := by
  have hmap := h.tools key
  rw [ht, Option.map_some, eq_comm, Option.map_eq_some_iff] at hmap
  exact hmap

theorem Posted.sourceRow (h : Posted C C' ns) (ex : Extractors) : sourceRow ex C' = sourceRow ex C := by
  have hheading : C'.heading = C.heading := by
    funext sessionId
    rw [Canonical.heading, Canonical.heading, h.sessions]
  have hplaces : C'.places = C.places := by
    rw [Canonical.places, Canonical.places, h.messages]
  funext key
  cases key with
  | session id => simp only [Search.sourceRow, hheading]
  | message id => simp only [Search.sourceRow, hheading, h.messages]
  | toolInvocation runId callId =>
    simp only [Search.sourceRow, hheading, hplaces]
    have hmap := h.tools (runId, callId)
    cases ht : C.tools.get? (runId, callId) with
    | none =>
      rw [ht, Option.map_none, Option.map_eq_none_iff] at hmap
      rw [hmap]
    | some u =>
      rw [ht, Option.map_some, Option.map_eq_some_iff] at hmap
      obtain ⟨t, ht', hsame⟩ := hmap
      rw [ht']
      have hsession := ToolRow.sessionId_of_unversioned hsame
      simp only [Option.bind_eq_bind, Option.bind_some, hsession]
      congr 1
      funext heading
      congr 1
      funext messageId
      rw [← toolDocument_unversioned, hsame, toolDocument_unversioned]

theorem Posted.wellFormed (h : Posted C C' ns) (hwf : C.WellFormed) : C'.WellFormed where
  message_session := by
    rw [h.messages, h.sessions]
    exact hwf.message_session
  tool_session := by
    intro key t ht
    obtain ⟨u, hu, hsame⟩ := h.tool ht
    rw [h.sessions, ← ToolRow.sessionId_of_unversioned hsame]
    exact hwf.tool_session key u hu
  fresh := by
    rw [h.messages, h.nextMessage]
    exact hwf.fresh
  posted := by
    intro r hr id hkey
    rw [h.messages, h.nextMessage]
    rw [h.outbox] at hr
    rcases Outbox.mem_enqueueAll hr with hold | hnew
    · exact hwf.posted r hold id hkey
    · obtain ⟨m, hm, hversion⟩ := h.dated _ hnew id hkey
      refine ⟨hwf.fresh id m hm, ?_⟩
      intro _ m' hm'
      cases hm.symm.trans hm'
      exact hversion.le

theorem Posted.anchored (h : Posted C C' ns) (hanchored : C.Anchored) : C'.Anchored := by
  intro runId callId t ht
  obtain ⟨u, hu, hsame⟩ := h.tool ht
  rw [Canonical.places, h.messages, ← ToolRow.sessionId_of_unversioned hsame]
  exact hanchored runId callId u hu

/-! ### The statements that post -/

theorem upsert_some {key : SourceKey} {n : Notice SourceKey Mark} (h : C.upsert key = some n)
    : n.key = key ∧ n.deletes = false ∧
      ∀ id, key = .message id → ∃ m, C.messages.get? id = some m ∧ n.mark.sourceVersion = m.sourceVersion := by
  cases key with
  | session id =>
    simp only [Canonical.upsert, Option.bind_eq_bind, Option.bind_eq_some_iff, Option.pure_def,
      Option.some.injEq] at h
    obtain ⟨s, _, rfl⟩ := h
    exact ⟨rfl, rfl, nofun⟩
  | message id =>
    simp only [Canonical.upsert, Option.bind_eq_bind, Option.bind_eq_some_iff, Option.pure_def,
      Option.some.injEq] at h
    obtain ⟨m, hm, s, _, rfl⟩ := h
    refine ⟨rfl, rfl, ?_⟩
    intro id' hkey
    obtain rfl := SourceKey.message.inj hkey
    exact ⟨m, hm, rfl⟩
  | toolInvocation runId callId =>
    simp only [Canonical.upsert, Option.bind_eq_bind, Option.bind_eq_some_iff, Option.pure_def,
      Option.some.injEq] at h
    obtain ⟨t, _, rfl⟩ := h
    exact ⟨rfl, rfl, nofun⟩

theorem enqueueSource_ok {key : SourceKey} {u : Unit} (h : enqueueSource key C = .ok (u, C')) :
    ∃ n, C.upsert key = some n ∧ C' = { C with outbox := C.outbox.enqueue n } ∧ Posted C C' [n] := by
  rw [enqueueSource, get_bind] at h
  obtain ⟨n, hn, hset⟩ := orRaise_bind_ok.mp h
  cases set_ok.mp hset
  obtain ⟨hkey, hupsert, hdated⟩ := upsert_some hn
  refine ⟨n, hn, rfl, rfl, ?_, ?_, rfl, rfl, rfl, rfl, fun _ => rfl⟩
  · intro m hm
    rw [List.mem_singleton.mp hm]
    exact hupsert
  · intro m hm id hid
    rw [List.mem_singleton.mp hm] at hid ⊢
    exact hdated id (hkey.symm.trans hid)

theorem enqueueSources_ok {keys : List SourceKey} {u : Unit} (h : enqueueSources keys C = .ok (u, C'))
    : ∃ ns, Posted C C' ns := by
  induction keys generalizing C with
  | nil =>
    cases pure_ok.mp h
    exact ⟨[], Posted.refl _⟩
  | cons key rest ih =>
    obtain ⟨_, C₁, hfirst, hrest⟩ := bind_ok.mp h
    obtain ⟨n, _, _, hposted⟩ := enqueueSource_ok hfirst
    obtain ⟨ns, hns⟩ := ih hrest
    exact ⟨[n] ++ ns, hposted.trans hns⟩

theorem refreshTools_ok {runId : String} {calls : List String} {u : Unit}
    (h : refreshTools runId calls C = .ok (u, C')) : ∃ ns, Posted C C' ns := by
  induction calls generalizing C with
  | nil =>
    cases pure_ok.mp h
    exact ⟨[], Posted.refl _⟩
  | cons callId rest ih =>
    rw [refreshTools, modify_bind] at h
    have htouched : Posted C { C with tools := C.tools.update (runId, callId) ToolRow.touched } [] := by
      refine ⟨rfl, by simp, by simp, rfl, rfl, rfl, rfl, ?_⟩
      intro key
      show ((C.tools.update _ _).get? key).map _ = _
      rw [Dict.get?_update]
      split
      · rw [Option.map_map]
        rfl
      · rfl
    obtain ⟨_, C₁, hfirst, hrest⟩ := bind_ok.mp h
    obtain ⟨n, _, _, hposted⟩ := enqueueSource_ok hfirst
    obtain ⟨ns, hns⟩ := ih hrest
    exact ⟨_, (htouched.trans hposted).trans hns⟩

/-! ### A new message -/

/-- The writes of `_message` before it announces anything. -/
def Canonical.insertMessage (C : Canonical) (row : MessageRow) : Canonical :=
  { C with
    messages := C.messages.set C.nextMessage row
    nextMessage := C.nextMessage + 1
    sessions := C.sessions.update row.sessionId SessionRow.touched }

theorem heading_insertMessage (C : Canonical) (row : MessageRow) :
    (C.insertMessage row).heading = C.heading := by
  funext sessionId
  show ((C.sessions.update _ _).get? sessionId).bind _ = (C.sessions.get? sessionId).bind _
  rw [Dict.get?_update]
  split
  · cases C.sessions.get? sessionId <;> rfl
  · rfl

theorem places_insertMessage (hfresh : C.messages.get? C.nextMessage = none) (row : MessageRow)
    : (C.insertMessage row).places = C.places ++ [row.place C.nextMessage] := by
  show (Dict.assign C.nextMessage row C.messages.entries).map _ = _
  rw [Dict.assign_of_absent hfresh, map_append]
  rfl

theorem anchor_append {places : List Place} {sessionId runId callId : String} {p : Place}
    (hown : ∃ q ∈ places, q.sessionId = sessionId ∧ q.runId = runId ∧ q.toolCallId = some callId)
    (hother : ¬ (p.sessionId = sessionId ∧ p.runId = runId ∧ p.toolCallId = some callId)) :
    anchor (places ++ [p]) sessionId runId callId = anchor places sessionId runId callId := by
  have hsplit : ((places ++ [p]).filter fun q => q.sessionId = sessionId ∧ q.runId = runId).filter
        (fun q => q.toolCallId = some callId) =
      (places.filter fun q => q.sessionId = sessionId ∧ q.runId = runId).filter
        fun q => q.toolCallId = some callId := by
    rw [filter_append, filter_append]
    have hnone : ([p].filter fun q => q.sessionId = sessionId ∧ q.runId = runId).filter
        (fun q => q.toolCallId = some callId) = [] := by
      rw [filter_filter, filter_eq_nil_iff]
      intro q hq hyes
      cases List.mem_singleton.mp hq
      simp only [Bool.and_eq_true, decide_eq_true_eq] at hyes
      exact hother ⟨hyes.2.1, hyes.2.2, hyes.1⟩
    rw [hnone, append_nil]
  obtain ⟨q, hq, hsession, hrun, hcall⟩ := hown
  have hmem : q ∈ (places.filter fun q => q.sessionId = sessionId ∧ q.runId = runId).filter
      fun q => q.toolCallId = some callId := by
    simp only [List.mem_filter, decide_eq_true_eq]
    exact ⟨⟨hq, hsession, hrun⟩, hcall⟩
  unfold anchor
  simp only [hsplit]
  cases hmin : ((places.filter fun q => q.sessionId = sessionId ∧ q.runId = runId).filter
      fun q => q.toolCallId = some callId).argmin Place.sequence with
  | none =>
    rw [argmin_eq_none] at hmin
    rw [hmin] at hmem
    cases hmem
  | some first => rfl

theorem sourceRow_insertMessage {ex : Extractors} {row : MessageRow} {key : SourceKey}
    (hfresh : C.messages.get? C.nextMessage = none) (hmessage : key ≠ .message C.nextMessage)
    (hcall : ∀ callId, row.toolCallId = some callId → key ≠ .toolInvocation row.runId callId)
    (hanchored : ∀ runId callId t, key = .toolInvocation runId callId →
      C.tools.get? (runId, callId) = some t →
      ∃ p ∈ C.places, p.sessionId = t.sessionId ∧ p.runId = runId ∧ p.toolCallId = some callId) :
    sourceRow ex (C.insertMessage row) key = sourceRow ex C key := by
  cases key with
  | session id => simp only [sourceRow, heading_insertMessage]
  | message id =>
    have hid : id ≠ C.nextMessage := fun heq => hmessage (heq ▸ rfl)
    have hget : (C.insertMessage row).messages.get? id = C.messages.get? id := Dict.get?_set_ne _ _ hid
    simp only [sourceRow, heading_insertMessage, hget]
  | toolInvocation runId callId =>
    have hget : (C.insertMessage row).tools = C.tools := rfl
    simp only [sourceRow, heading_insertMessage, hget, places_insertMessage hfresh]
    cases ht : C.tools.get? (runId, callId) with
    | none => rfl
    | some t =>
      have hsame : anchor (C.places ++ [row.place C.nextMessage]) t.sessionId runId callId =
          anchor C.places t.sessionId runId callId := by
        refine anchor_append (hanchored runId callId t rfl ht) ?_
        rintro ⟨-, rfl, hown⟩
        exact hcall callId hown rfl
      simp only [Option.bind_eq_bind, Option.bind_some, hsame]

/-- What `_message` does: it inserts its row, and posts the message and its session. -/
theorem message_ok {ex : Extractors} {runId : String} {role : MessageRole} {text : Json}
    {toolCallId : Option String} {u : Unit} (h : message ex runId role text toolCallId C = .ok (u, C')) :
    ∃ run s ns, C.runs.get? runId = some run ∧ C.sessions.get? run.sessionId = some s ∧
      Posted (C.insertMessage (messageRow ex C runId run role text toolCallId)) C' ns ∧
      (∃ n ∈ ns, n.key = .message C.nextMessage) ∧
      ⟨.session run.sessionId, false, ⟨s.tenantId, s.sourceVersion + 1, s.aclVersion⟩⟩ ∈ ns := by
  rw [message, get_bind] at h
  obtain ⟨run, hrun, h⟩ := orRaise_bind_ok.mp h
  rw [set_bind] at h
  obtain ⟨_, C₁, hmessage, h⟩ := bind_ok.mp h
  obtain ⟨n, hn, _, hfirst⟩ := enqueueSource_ok hmessage
  obtain ⟨_, C₂, hsession, h⟩ := bind_ok.mp h
  obtain ⟨n', hn', _, hsecond⟩ := enqueueSource_ok hsession
  obtain ⟨ns, hrest⟩ := refreshTools_ok h
  have hupdated : (C₁.sessions.get? run.sessionId) =
      (C.sessions.get? run.sessionId).map SessionRow.touched := by
    rw [hfirst.sessions]
    show (C.sessions.update _ _).get? _ = _
    rw [Dict.get?_update, if_pos rfl]
  simp only [Canonical.upsert, hupdated, Option.bind_eq_bind, Option.bind_eq_some_iff,
    Option.map_eq_some_iff, Option.pure_def, Option.some.injEq] at hn'
  obtain ⟨s', ⟨s, hs, rfl⟩, rfl⟩ := hn'
  refine ⟨run, s, _, hrun, hs, (hfirst.trans hsecond).trans hrest, ⟨n, by simp, ?_⟩, by simp [SessionRow.touched]⟩
  exact (upsert_some hn).1

end OpenAgent.Search
