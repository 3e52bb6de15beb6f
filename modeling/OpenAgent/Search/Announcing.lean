import OpenAgent.Search.Posting

/-!
# Which operations announce what they change

Every operation adds its rows to the outbox in the transaction that changes its sources, and most of
them announce each document they change. Two kinds may not. A session that is renamed, archived or
restored changes the documents of its messages and of its tool invocations, but only the session is
announced. And a session or a call that was purged and is written again starts its versions over, so
that the outbox may already hold its notices. `Told` says when an operation announces everything, in
terms of the rows it finds.
-/

namespace OpenAgent.Search

open Lib Lib.Tx List

def upsertNotice (key : SourceKey) (tenantId : String) (sourceVersion aclVersion : Nat) :
    Notice SourceKey Mark := ⟨key, false, ⟨tenantId, sourceVersion, aclVersion⟩⟩

/-- Changing a session to `change row` is announced: each document it changes is that of the session,
at a version that is new to the outbox, or of a source whose last row is still to be read. -/
def ToldOfSession (ex : Extractors) (C : Canonical) (position : Nat) (reference : SessionRef)
    (context : ExecutionContext) (change : SessionRow → SessionRow) : Prop :=
  ∀ row ∈ C.localSession reference context, ∀ key ∈ C.sources,
    sourceRow ex { C with sessions := C.sessions.set reference.sessionId (change row).touched } key ≠
      sourceRow ex C key →
    C.outbox.Announced
      [upsertNotice (.session reference.sessionId) row.tenantId (row.sourceVersion + 1) row.aclVersion]
      position key

/-- The operation, taken by a store whose consumer has read the outbox up to `position`, announces
every document it changes. -/
def Told (ex : Extractors) (C : Canonical) (position : Nat) : Operation → Prop
  | .accept request context =>
    C.collides request = false → C.sessions.get? request.sessionId = none →
    (∀ p ∈ parentSession C context, p ≠ none ∧ p ≠ some request.sessionId) →
    C.outbox.Announced [upsertNotice (.session request.sessionId) context.tenantId 2 1] position
      (.session request.sessionId)
  | .beginTool runId callId _ _ =>
    ∀ run ∈ C.runs.get? runId, run.status = .running → C.tools.get? (runId, callId) = none →
    (C.heading run.sessionId).isSome = true →
    C.outbox.Announced [upsertNotice (.toolInvocation runId callId) run.tenantId 1 1] position
      (.toolInvocation runId callId)
  | .finishTool runId callId _ _ =>
    ∀ t ∈ C.tools.get? (runId, callId), t.finishedAtMs = none → (C.heading t.sessionId).isSome = true →
    C.outbox.Announced
      [upsertNotice (.toolInvocation runId callId) t.tenantId (t.sourceVersion + 1) t.aclVersion] position
      (.toolInvocation runId callId)
  | .createSession reference context _ parent =>
    reference.isLocal context = true → C.sessions.get? reference.sessionId = none →
    (∀ p ∈ parent, (C.localSession p context).isSome = true) →
    C.outbox.Announced [upsertNotice (.session reference.sessionId) context.tenantId 1 1] position
      (.session reference.sessionId)
  | .renameSession reference context title =>
    strip title ≠ "" → (strip title).length ≤ 240 →
    ToldOfSession ex C position reference context (SessionRow.renamed (strip title))
  | .archiveSession reference context now =>
    ToldOfSession ex C position reference context (SessionRow.archived now)
  | .restoreSession reference context =>
    ToldOfSession ex C position reference context SessionRow.restored
  | .transition _ _ _ | .purgeSession _ _ | .restoreIntents => True

instance (ex : Extractors) (C : Canonical) (position : Nat) (reference : SessionRef)
    (context : ExecutionContext) (change : SessionRow → SessionRow) :
    Decidable (ToldOfSession ex C position reference context change) :=
  inferInstanceAs (Decidable (∀ row ∈ C.localSession reference context, _))

instance (ex : Extractors) (C : Canonical) (position : Nat) :
    (operation : Operation) → Decidable (Told ex C position operation)
  | .accept _ _ => inferInstanceAs (Decidable (_ → _ → _ → _))
  | .beginTool runId _ _ _ => inferInstanceAs (Decidable (∀ run ∈ C.runs.get? runId, _))
  | .finishTool runId callId _ _ => inferInstanceAs (Decidable (∀ t ∈ C.tools.get? (runId, callId), _))
  | .createSession _ _ _ _ => inferInstanceAs (Decidable (_ → _ → _ → _))
  | .renameSession _ _ _ => inferInstanceAs (Decidable (_ → _ → _))
  | .archiveSession reference context now =>
    inferInstanceAs (Decidable (ToldOfSession ex C position reference context (SessionRow.archived now)))
  | .restoreSession reference context =>
    inferInstanceAs (Decidable (ToldOfSession ex C position reference context SessionRow.restored))
  | .transition _ _ _ => .isTrue trivial
  | .purgeSession _ _ => .isTrue trivial
  | .restoreIntents => .isTrue trivial

/-- What an operation did: the rows are still well formed, and the outbox announces every document
that changed. -/
structure Wrote (ex : Extractors) (position : Nat) (C C' : Canonical) : Prop where
  wellFormed : C'.WellFormed
  anchored : C'.Anchored
  announced : ∃ ns, C'.outbox = C.outbox.enqueueAll ns ∧
    (∀ n ∈ ns, n.deletes = true → sourceRow ex C' n.key = none) ∧
    ∀ key, sourceRow ex C' key ≠ sourceRow ex C key → C.outbox.Announced ns position key

theorem Wrote.refl {ex : Extractors} {position : Nat} {C : Canonical} (hwf : C.WellFormed)
    (hanchored : C.Anchored) : Wrote ex position C C :=
  ⟨hwf, hanchored, [], rfl, by simp, fun _ hne => absurd rfl hne⟩

variable {key : SourceKey}

theorem announced_mono {box : SearchOutbox} {ns ms : List (Notice SourceKey Mark)} {position : Nat}
    (hsub : ∀ n ∈ ns, n ∈ ms) (h : box.Announced ns position key) :
    box.Announced ms position key := by
  rcases h with ⟨n, hn, hkey, hnew⟩ | hawaits
  · exact .inl ⟨n, hsub n hn, hkey, hnew⟩
  · exact .inr hawaits

theorem Posted.wrote {ex : Extractors} {position : Nat} {C C₁ C' : Canonical}
    {ns : List (Notice SourceKey Mark)} (h : Posted C₁ C' ns) (hbox : C₁.outbox = C.outbox)
    (hwf : C₁.WellFormed) (hanchored : C₁.Anchored)
    (hchanged : ∀ key, Search.sourceRow ex C₁ key ≠ Search.sourceRow ex C key → C.outbox.Announced ns position key) :
    Wrote ex position C C' where
  wellFormed := h.wellFormed hwf
  anchored := h.anchored hanchored
  announced := by
    refine ⟨ns, by rw [h.outbox, hbox], ?_, ?_⟩
    · intro n hn hdel
      simp [h.upserts n hn] at hdel
    · intro key hne
      rw [h.sourceRow] at hne
      exact hchanged key hne

/-! ### Messages -/

variable {ex : Extractors} {position : Nat} {C C' : Canonical} {u : Unit}

theorem Canonical.WellFormed.next (hwf : C.WellFormed) : C.messages.get? C.nextMessage = none := by
  cases hm : C.messages.get? C.nextMessage with
  | none => rfl
  | some m => exact absurd (hwf.fresh _ m hm) (Nat.lt_irrefl _)

theorem Canonical.WellFormed.unposted (hwf : C.WellFormed) {n : Notice SourceKey Mark}
    (hkey : n.key = .message C.nextMessage) : ¬ C.outbox.Holds n := by
  rintro ⟨r, hr, rfl⟩
  exact absurd (hwf.posted r hr _ hkey).1 (Nat.lt_irrefl _)

theorem wellFormed_insertMessage {row : MessageRow} (hwf : C.WellFormed) {s : SessionRow}
    (hs : C.sessions.get? row.sessionId = some s) : (C.insertMessage row).WellFormed where
  message_session := by
    intro id m hm
    have hsome : ∀ sid, (∃ x, C.sessions.get? sid = some x) →
        ∃ x, (C.insertMessage row).sessions.get? sid = some x := by
      rintro sid ⟨x, hx⟩
      refine Option.isSome_iff_exists.mp ?_
      show ((C.sessions.update _ _).get? sid).isSome = true
      rw [Dict.isSome_get?_update, hx]
      rfl
    replace hm : (C.messages.set C.nextMessage row).get? id = some m := hm
    rw [Dict.get?_set] at hm
    split at hm
    · cases hm
      exact hsome _ ⟨s, hs⟩
    · exact hsome _ (hwf.message_session id m hm)
  tool_session := by
    intro key t ht
    refine Option.isSome_iff_exists.mp ?_
    show ((C.sessions.update _ _).get? t.sessionId).isSome = true
    obtain ⟨x, hx⟩ := hwf.tool_session key t ht
    rw [Dict.isSome_get?_update, hx]
    rfl
  fresh := by
    intro id m hm
    replace hm : (C.messages.set C.nextMessage row).get? id = some m := hm
    show id < C.nextMessage + 1
    rw [Dict.get?_set] at hm
    split at hm
    · omega
    · exact Nat.lt_succ_of_lt (hwf.fresh id m hm)
  posted := by
    intro r hr id hkey
    obtain ⟨hlt, hversion⟩ := hwf.posted r hr id hkey
    refine ⟨Nat.lt_succ_of_lt hlt, ?_⟩
    intro hdel m hm
    replace hm : (C.messages.set C.nextMessage row).get? id = some m := hm
    rw [Dict.get?_set_ne _ _ (by omega)] at hm
    exact hversion hdel m hm

theorem anchored_insertMessage {row : MessageRow} (hwf : C.WellFormed)
    (hanchored : ∀ runId callId t, C.tools.get? (runId, callId) = some t →
      (row.sessionId = t.sessionId ∧ row.runId = runId ∧ row.toolCallId = some callId) ∨
      ∃ p ∈ C.places, p.sessionId = t.sessionId ∧ p.runId = runId ∧ p.toolCallId = some callId) :
    (C.insertMessage row).Anchored := by
  intro runId callId t ht
  rw [places_insertMessage hwf.next]
  rcases hanchored runId callId t ht with hown | ⟨p, hp, hrest⟩
  · exact ⟨row.place C.nextMessage, by simp, hown⟩
  · exact ⟨p, mem_append_left _ hp, hrest⟩

variable {id runId callId : String}

theorem wrote_message {role : MessageRole} {text : Json} (hwf : C.WellFormed) (hanchored : C.Anchored)
    (h : message ex runId role text none C = .ok (u, C')) :
    Wrote ex position C C' := by
  obtain ⟨run, s, ns, _, hs, hposted, ⟨n, hn, hkey⟩, _⟩ := message_ok h
  refine hposted.wrote rfl (wellFormed_insertMessage hwf hs)
    (anchored_insertMessage hwf fun _ _ t ht => .inr (hanchored _ _ t ht)) ?_
  intro key hne
  by_cases hown : key = .message C.nextMessage
  · subst hown
    exact .inl ⟨n, hn, hkey, hwf.unposted hkey⟩
  · refine absurd (sourceRow_insertMessage hwf.next hown ?_ ?_) hne
    · exact nofun
    · rintro r c t - ht
      exact hanchored r c t ht

theorem wellFormed_runs {runs : Dict String RunRow} (hwf : C.WellFormed) :
    ({ C with runs := runs } : Canonical).WellFormed :=
  ⟨hwf.message_session, hwf.tool_session, hwf.fresh, hwf.posted⟩

theorem Wrote.of_runs {runs : Dict String RunRow} (h : Wrote ex position { C with runs := runs } C') :
    Wrote ex position C C' := ⟨h.wellFormed, h.anchored, h.announced⟩

theorem wrote_reply {status : RunStatus} {output : Option Json} (hwf : C.WellFormed)
    (hanchored : C.Anchored) (h : reply ex runId status output C = .ok (u, C')) :
    Wrote ex position C C' := by
  unfold reply at h
  split at h
  · exact wrote_message hwf hanchored h
  · cases pure_ok.mp h
    exact .refl hwf hanchored

theorem wrote_transition {status : RunStatus} {output : Option Json} (hwf : C.WellFormed)
    (hanchored : C.Anchored) (h : transition ex runId status output C = .ok (u, C'))
    : Wrote ex position C C' := by
  rw [transition, get_bind] at h
  obtain ⟨row, _, h⟩ := orRaise_bind_ok.mp h
  split at h
  · cases pure_ok.mp h
    exact .refl hwf hanchored
  · obtain ⟨_, h⟩ := raiseIf_bind_ok.mp h
    obtain ⟨_, h⟩ := raiseIf_bind_ok.mp h
    rw [set_bind] at h
    have hwrote : Wrote ex position { C with runs := C.runs.set runId { row with status := status } } C' :=
      wrote_reply (wellFormed_runs hwf) hanchored h
    exact hwrote.of_runs

/-! ### Tool invocations -/

theorem sourceRow_setTool {key : String × String} {t : ToolRow} {k : SourceKey}
    (hk : k ≠ .toolInvocation key.1 key.2) :
    sourceRow ex { C with tools := C.tools.set key t } k = sourceRow ex C k := by
  cases k with
  | session id => rfl
  | message id => rfl
  | toolInvocation runId callId =>
    have hne : (runId, callId) ≠ key := by
      rintro rfl
      exact hk rfl
    have hget : (C.tools.set key t).get? (runId, callId) = C.tools.get? (runId, callId) :=
      Dict.get?_set_ne _ _ hne
    show ((C.tools.set key t).get? (runId, callId)).bind _ = _
    rw [hget]
    rfl

theorem sourceRow_tool_hidden
    (hhidden : ∀ t, C.tools.get? (runId, callId) = some t → C.heading t.sessionId = none) :
    sourceRow ex C (.toolInvocation runId callId) = none := by
  simp only [sourceRow, Option.bind_eq_bind]
  cases ht : C.tools.get? (runId, callId) with
  | none => rfl
  | some t => simp only [Option.bind_some, hhidden t ht, Option.bind_none]

theorem wellFormed_setTool {key : String × String} {t : ToolRow} (hwf : C.WellFormed)
    (hsession : ∃ s, C.sessions.get? t.sessionId = some s) :
    ({ C with tools := C.tools.set key t } : Canonical).WellFormed where
  message_session := hwf.message_session
  tool_session := by
    intro key' t' ht'
    replace ht' : (C.tools.set key t).get? key' = some t' := ht'
    rw [Dict.get?_set] at ht'
    split at ht'
    · cases ht'
      exact hsession
    · exact hwf.tool_session key' t' ht'
  fresh := hwf.fresh
  posted := hwf.posted

theorem wrote_beginTool {binding : ToolBinding} {arguments : Json} (hwf : C.WellFormed)
    (hanchored : C.Anchored) (htold : Told ex C position (.beginTool runId callId binding arguments))
    (h : beginTool ex runId callId binding arguments C = .ok (u, C')) : Wrote ex position C C' := by
  rw [beginTool, get_bind] at h
  obtain ⟨run, hrun, h⟩ := orRaise_bind_ok.mp h
  obtain ⟨hrun, hrunning⟩ : C.runs.get? runId = some run ∧ run.status = .running := by
    simpa [Option.filter_eq_some_iff] using hrun
  obtain ⟨habsent, h⟩ := raiseIf_bind_ok.mp h
  replace habsent : C.tools.get? (runId, callId) = none := by simpa [Dict.contains] using habsent
  rw [set_bind] at h
  obtain ⟨_, C₂, henqueue, h⟩ := bind_ok.mp h
  obtain ⟨n, hn, hC₂, hfirst⟩ := enqueueSource_ok henqueue
  have hnotice : n = upsertNotice (.toolInvocation runId callId) run.tenantId 1 1 := by
    simpa [Canonical.upsert, toolRow, upsertNotice, eq_comm] using hn
  obtain ⟨run', s, ns, hrun', hs, hposted, ⟨m, hm, hmkey⟩, _⟩ := message_ok h
  obtain rfl : run = run' := by
    rw [hC₂] at hrun'
    exact Option.some.inj (hrun.symm.trans hrun')
  have hsession : ∃ x, C.sessions.get? run.sessionId = some x := ⟨s, hfirst.sessions ▸ hs⟩
  have hwf₁ : ({ C with tools := C.tools.set (runId, callId) (toolRow ex run binding arguments) } :
    Canonical).WellFormed := wellFormed_setTool hwf hsession
  have hwf₂ : C₂.WellFormed := hfirst.wellFormed hwf₁
  have hown : ∀ r c t, C₂.tools.get? (r, c) = some t → ¬ (r = runId ∧ c = callId) →
      ∃ p ∈ C₂.places, p.sessionId = t.sessionId ∧ p.runId = r ∧ p.toolCallId = some c := by
    intro r c t ht hother
    rw [hC₂] at ht ⊢
    have hne : (r, c) ≠ (runId, callId) := fun heq => hother (Prod.mk.inj heq)
    replace ht : (C.tools.set (runId, callId) (toolRow ex run binding arguments)).get? (r, c) = some t := ht
    rw [Dict.get?_set_ne _ _ hne] at ht
    exact hanchored r c t ht
  refine ⟨hposted.wellFormed (wellFormed_insertMessage hwf₂ hs), hposted.anchored ?_, [n] ++ ns, ?_, ?_, ?_⟩
  · refine anchored_insertMessage hwf₂ fun r c t ht => ?_
    by_cases hthis : r = runId ∧ c = callId
    · obtain ⟨rfl, rfl⟩ := hthis
      refine .inl ⟨?_, rfl, rfl⟩
      rw [hC₂] at ht
      replace ht : (C.tools.set (r, c) (toolRow ex run binding arguments)).get? (r, c) = some t := ht
      rw [Dict.get?_set_self] at ht
      cases ht
      rfl
    · exact .inr (hown r c t ht hthis)
  · rw [hposted.outbox]
    show C₂.outbox.enqueueAll ns = _
    rw [hfirst.outbox, Outbox.enqueueAll, Outbox.enqueueAll, Outbox.enqueueAll, foldl_append]
  · intro k hk hdel
    rcases List.mem_append.mp hk with hk | hk
    · simp [hfirst.upserts k hk] at hdel
    · simp [hposted.upserts k hk] at hdel
  · intro key hne
    rw [hposted.sourceRow] at hne
    by_cases hcall : key = .toolInvocation runId callId
    · subst hcall
      by_cases hvisible : (C.heading run.sessionId).isSome = true
      · have hannounced := htold run hrun hrunning habsent hvisible
        rw [← hnotice] at hannounced
        exact announced_mono (fun x hx => mem_append_left _ hx) hannounced
      · have hhidden : C.heading run.sessionId = none := by simpa using hvisible
        refine absurd ?_ hne
        rw [sourceRow_tool_hidden, sourceRow_tool_hidden]
        · intro t ht
          simp [habsent] at ht
        · intro t ht
          rw [heading_insertMessage]
          replace ht : C₂.tools.get? (runId, callId) = some t := ht
          rw [hC₂] at ht
          replace ht : (C.tools.set (runId, callId) (toolRow ex run binding arguments)).get?
            (runId, callId) = some t := ht
          rw [Dict.get?_set_self] at ht
          cases ht
          rw [hC₂]
          exact hhidden
    · by_cases hmessage : key = .message C₂.nextMessage
      · subst hmessage
        refine .inl ⟨m, mem_append_right _ hm, hmkey, hwf.unposted ?_⟩
        rw [hmkey, hfirst.nextMessage]
      · refine absurd ?_ hne
        rw [sourceRow_insertMessage hwf₂.next hmessage, hfirst.sourceRow, sourceRow_setTool hcall]
        · intro c hc
          cases hc
          exact hcall
        · rintro r c t rfl ht
          refine hown r c t ht ?_
          rintro ⟨rfl, rfl⟩
          exact hcall rfl

def Canonical.rewriteMessage (C : Canonical) (id : Nat) (f : MessageRow → MessageRow) : Canonical :=
  { C with messages := C.messages.update id f }

variable {f : MessageRow → MessageRow}

theorem places_rewriteMessage {id : Nat} (hplace : ∀ m, (f m).place id = m.place id)
    : (C.rewriteMessage id f).places = C.places := by
  show (C.messages.update id f).entries.map _ = _
  exact Dict.map_entries_update hplace

theorem sourceRow_rewriteMessage {id : Nat} (hplace : ∀ m, (f m).place id = m.place id)
    (hkey : key ≠ .message id) :
    sourceRow ex (C.rewriteMessage id f) key = sourceRow ex C key := by
  cases key with
  | session _ => rfl
  | message id' =>
    have hid : id' ≠ id := fun heq => hkey (heq ▸ rfl)
    have hget : (C.rewriteMessage id f).messages.get? id' = C.messages.get? id' := by
      show (C.messages.update id f).get? id' = _
      rw [Dict.get?_update, if_neg hid]
    simp only [sourceRow, hget]
    rfl
  | toolInvocation runId callId =>
    simp only [sourceRow, places_rewriteMessage hplace]
    rfl

theorem wellFormed_rewriteMessage {id : Nat} (hwf : C.WellFormed)
    (hsession : ∀ m, (f m).sessionId = m.sessionId) (hversion : ∀ m, m.sourceVersion ≤ (f m).sourceVersion) :
    (C.rewriteMessage id f).WellFormed := by
  have hold : ∀ id' m, (C.rewriteMessage id f).messages.get? id' = some m →
      ∃ m₀, C.messages.get? id' = some m₀ ∧ m.sessionId = m₀.sessionId ∧
        m₀.sourceVersion ≤ m.sourceVersion := by
    intro id' m hm
    obtain ⟨m₀, hm₀, rfl⟩ := Dict.get?_update_eq_some.mp hm
    refine ⟨m₀, hm₀, ?_⟩
    split
    · exact ⟨hsession m₀, hversion m₀⟩
    · exact ⟨rfl, Nat.le_refl _⟩
  refine ⟨?_, hwf.tool_session, ?_, ?_⟩
  · intro id' m hm
    obtain ⟨m₀, hm₀, hsame, _⟩ := hold id' m hm
    rw [hsame]
    exact hwf.message_session id' m₀ hm₀
  · intro id' m hm
    obtain ⟨m₀, hm₀, _⟩ := hold id' m hm
    exact hwf.fresh id' m₀ hm₀
  · intro r hr id' hkey
    obtain ⟨hlt, hle⟩ := hwf.posted r hr id' hkey
    refine ⟨hlt, fun hdel m hm => ?_⟩
    obtain ⟨m₀, hm₀, _, hgrown⟩ := hold id' m hm
    exact (hle hdel m₀ hm₀).trans hgrown

theorem anchored_rewriteMessage {id : Nat} (hanchored : C.Anchored)
    (hplace : ∀ m, (f m).place id = m.place id) : (C.rewriteMessage id f).Anchored := by
  intro runId callId t ht
  rw [places_rewriteMessage hplace]
  exact hanchored runId callId t ht

theorem completeAnchor_ok {outcome : ToolOutcome} {id : Option Nat}
    (h : completeAnchor ex outcome id C = .ok (u, C')) :
    (id = none ∧ C' = C) ∨ ∃ i m s n, id = some i ∧ C.messages.get? i = some m ∧
      C.sessions.get? m.sessionId = some s ∧
      n = upsertNotice (.message i) m.tenantId (m.sourceVersion + 1) s.aclVersion ∧
      Posted (C.rewriteMessage i (MessageRow.anchored ex outcome)) C' [n] := by
  cases id with
  | none =>
    cases pure_ok.mp h
    exact .inl ⟨rfl, rfl⟩
  | some i =>
    rw [completeAnchor, modify_bind] at h
    obtain ⟨n, hn, _, hposted⟩ := enqueueSource_ok h
    simp only [Canonical.upsert, Dict.get?_update, if_true, Option.bind_eq_bind,
      Option.bind_eq_some_iff, Option.map_eq_some_iff, Option.pure_def, Option.some.injEq] at hn
    obtain ⟨_, ⟨m, hm, rfl⟩, s, hs, rfl⟩ := hn
    exact .inr ⟨i, m, s, _, rfl, hm, hs, rfl, hposted⟩

theorem place_anchored (outcome : ToolOutcome) (id : Nat) (m : MessageRow) :
    (m.anchored ex outcome).place id = m.place id := rfl

theorem wrote_finishTool {outcome : ToolOutcome} {now : Int} (hwf : C.WellFormed) (hanchored : C.Anchored)
    (htold : Told ex C position (.finishTool runId callId outcome now))
    (h : finishTool ex runId callId outcome now C = .ok (u, C')) : Wrote ex position C C' := by
  rw [finishTool, get_bind] at h
  obtain ⟨t, ht, h⟩ := orRaise_bind_ok.mp h
  obtain ⟨hopen, h⟩ := raiseIf_bind_ok.mp h
  replace hopen : t.finishedAtMs = none := by simpa using hopen
  rw [set_bind] at h
  obtain ⟨_, C₂, henqueue, h⟩ := bind_ok.mp h
  obtain ⟨n, hn, hC₂, hfirst⟩ := enqueueSource_ok henqueue
  have hnotice : n = upsertNotice (.toolInvocation runId callId) t.tenantId (t.sourceVersion + 1)
      t.aclVersion := by
    simp only [Canonical.upsert, Dict.get?_set_self, Option.bind_eq_bind, Option.bind_some,
      Option.pure_def, Option.some.injEq] at hn
    exact hn.symm
  have hwf₁ : ({ C with tools := C.tools.set (runId, callId) (t.finished ex outcome now) } :
    Canonical).WellFormed := wellFormed_setTool hwf (hwf.tool_session _ t ht)
  have hanchored₁ : ({ C with tools := C.tools.set (runId, callId) (t.finished ex outcome now) } :
      Canonical).Anchored := by
    intro r c t' ht'
    replace ht' : (C.tools.set (runId, callId) (t.finished ex outcome now)).get? (r, c) = some t' := ht'
    rw [Dict.get?_set] at ht'
    split at ht'
    · rename_i heq
      obtain ⟨rfl, rfl⟩ := Prod.mk.inj heq
      cases ht'
      exact hanchored r c t ht
    · exact hanchored r c t' ht'
  -- the call itself is announced by the notice of its finished row, wherever its document shows
  have hcall : ∀ C₃ : Canonical, C₃.heading = C.heading → C₃.tools = C₂.tools →
      sourceRow ex C₃ (.toolInvocation runId callId) ≠ sourceRow ex C (.toolInvocation runId callId) →
      C.outbox.Announced [n] position (.toolInvocation runId callId) := by
    intro C₃ hheading htools hne
    by_cases hvisible : (C.heading t.sessionId).isSome = true
    · rw [hnotice]
      exact htold t ht hopen hvisible
    · have hhidden : C.heading t.sessionId = none := by simpa using hvisible
      refine absurd ?_ hne
      rw [sourceRow_tool_hidden, sourceRow_tool_hidden]
      · intro t' ht'
        cases ht.symm.trans ht'
        exact hhidden
      · intro t' ht'
        rw [htools, hC₂] at ht'
        replace ht' : (C.tools.set (runId, callId) (t.finished ex outcome now)).get? (runId, callId) =
          some t' := ht'
        rw [Dict.get?_set_self] at ht'
        cases ht'
        rw [hheading]
        exact hhidden
  have hheading₂ : C₂.heading = C.heading := by rw [hC₂]; rfl
  rcases completeAnchor_ok h with ⟨_, rfl⟩ | ⟨i, m, s, n', _, hm, hs, hn', hposted⟩
  · refine hfirst.wrote rfl hwf₁ hanchored₁ ?_
    intro key hne
    by_cases hkey : key = .toolInvocation runId callId
    · subst hkey
      rw [← hfirst.sourceRow] at hne
      exact hcall _ hheading₂ rfl hne
    · exact absurd (sourceRow_setTool hkey) hne
  · have hm₀ : C.messages.get? i = some m := by
      rw [hfirst.messages] at hm
      exact hm
    refine ⟨hposted.wellFormed (wellFormed_rewriteMessage (hfirst.wellFormed hwf₁) (fun _ => rfl)
        fun _ => Nat.le_succ _),
      hposted.anchored (anchored_rewriteMessage (hfirst.anchored hanchored₁) (place_anchored outcome i)),
      [n] ++ [n'], ?_, ?_, ?_⟩
    · rw [hposted.outbox]
      show C₂.outbox.enqueueAll [n'] = _
      rw [hfirst.outbox, Outbox.enqueueAll, Outbox.enqueueAll, Outbox.enqueueAll, foldl_append]
    · intro k hk hdel
      rcases List.mem_append.mp hk with hk | hk
      · simp [hfirst.upserts k hk] at hdel
      · simp [hposted.upserts k hk] at hdel
    · intro key hne
      rw [hposted.sourceRow] at hne
      by_cases hkey : key = .toolInvocation runId callId
      · subst hkey
        exact announced_mono (fun x hx => mem_append_left _ hx)
          (hcall (C₂.rewriteMessage i (MessageRow.anchored ex outcome)) hheading₂ rfl hne)
      · by_cases hmessage : key = .message i
        · subst hmessage
          refine .inl ⟨n', by simp, by rw [hn']; rfl, ?_⟩
          rintro ⟨r, hr, hrn⟩
          have hrkey : r.key = .message i := by rw [hrn, hn']; rfl
          have hrlive : r.deletes = false := by rw [hrn, hn']; rfl
          have hversion : r.mark.sourceVersion = m.sourceVersion + 1 := by rw [hrn, hn']; rfl
          have hle := (hwf.posted r hr i hrkey).2 hrlive m hm₀
          omega
        · refine absurd ?_ hne
          rw [sourceRow_rewriteMessage (place_anchored outcome i) hmessage, hfirst.sourceRow,
            sourceRow_setTool hkey]

/-! ### Sessions -/

variable {row : SessionRow}

theorem sourceRow_newSession (hwf : C.WellFormed) (habsent : C.sessions.get? id = none)
    (hkey : key ≠ .session id) :
    sourceRow ex { C with sessions := C.sessions.set id row } key = sourceRow ex C key := by
  have hheading : ∀ sid, sid ≠ id →
      ({ C with sessions := C.sessions.set id row } : Canonical).heading sid = C.heading sid := by
    intro sid hne
    show ((C.sessions.set id row).get? sid).bind _ = (C.sessions.get? sid).bind _
    rw [Dict.get?_set_ne _ _ hne]
  cases key with
  | session sid =>
    have hne : sid ≠ id := fun heq => hkey (heq ▸ rfl)
    simp only [sourceRow, hheading sid hne]
  | message mid =>
    simp only [sourceRow]
    cases hm : C.messages.get? mid with
    | none => rfl
    | some m =>
      obtain ⟨s, hs⟩ := hwf.message_session mid m hm
      have hne : m.sessionId ≠ id := by
        rintro heq
        simp [heq, habsent] at hs
      simp only [Option.bind_eq_bind, Option.bind_some, hheading _ hne]
  | toolInvocation runId callId =>
    simp only [sourceRow]
    cases ht : C.tools.get? (runId, callId) with
    | none => rfl
    | some t =>
      obtain ⟨s, hs⟩ := hwf.tool_session _ t ht
      have hne : t.sessionId ≠ id := by
        rintro heq
        simp [heq, habsent] at hs
      simp only [Option.bind_eq_bind, Option.bind_some, hheading _ hne]
      rfl

theorem wellFormed_setSession (hwf : C.WellFormed) :
    ({ C with sessions := C.sessions.set id row } : Canonical).WellFormed := by
  have hsome : ∀ sid, (∃ s, C.sessions.get? sid = some s) →
      ∃ s, (C.sessions.set id row).get? sid = some s := by
    rintro sid ⟨s, hs⟩
    rw [Dict.get?_set]
    split
    · exact ⟨_, rfl⟩
    · exact ⟨s, hs⟩
  exact ⟨fun mid m hm => hsome _ (hwf.message_session mid m hm),
    fun key t ht => hsome _ (hwf.tool_session key t ht), hwf.fresh, hwf.posted⟩

variable {reference : SessionRef} {context : ExecutionContext}

theorem requireLocalSession_ok (h : requireLocalSession reference context C = .ok (row, C')) :
    C.localSession reference context = some row ∧ C' = C := by
  obtain ⟨_, h⟩ := raiseIf_bind_ok.mp h
  rw [get_bind] at h
  obtain ⟨row', hrow, hpair⟩ := orRaise_ok.mp h
  cases hpair
  exact ⟨hrow, rfl⟩

theorem localSession_some (h : C.localSession reference context = some row) :
    C.sessions.get? reference.sessionId = some row := (Option.filter_eq_some_iff.mp h).1

theorem openSession_ok {request : RunRequest} (h : openSession request context C = .ok (u, C')) :
    (∀ p ∈ parentSession C context, p ≠ none ∧ p ≠ some request.sessionId) ∧
      ((C.sessions.get? request.sessionId = none ∧ ∃ row : SessionRow, row.tenantId = context.tenantId ∧
          row.sourceVersion = 1 ∧ row.aclVersion = 1 ∧
          C' = { C with sessions := C.sessions.set request.sessionId row }) ∨
        (∃ s, C.sessions.get? request.sessionId = some s) ∧ C' = C) := by
  rw [openSession, get_bind] at h
  obtain ⟨hparent, h⟩ := raiseIf_bind_ok.mp h
  refine ⟨?_, ?_⟩
  · intro p hp
    exact ⟨fun hnone => hparent ⟨p, hp, .inl hnone⟩, fun hself => hparent ⟨p, hp, .inr hself⟩⟩
  · cases hs : C.sessions.get? request.sessionId with
    | none =>
      rw [hs] at h
      cases set_ok.mp h
      exact .inl ⟨rfl, _, rfl, rfl, rfl, rfl⟩
    | some existing =>
      rw [hs] at h
      obtain ⟨_, h⟩ := raiseIf_bind_ok.mp h
      obtain ⟨_, hpair⟩ := raiseIf_ok.mp h
      cases hpair
      exact .inr ⟨⟨existing, rfl⟩, rfl⟩

theorem wrote_accept {request : RunRequest} (hwf : C.WellFormed) (hanchored : C.Anchored)
    (htold : Told ex C position (.accept request context)) (h : accept ex request context C = .ok (u, C'))
    : Wrote ex position C C' := by
  rw [accept, get_bind] at h
  cases hcollides : C.collides request with
  | true =>
    rw [hcollides, if_pos rfl] at h
    cases pure_ok.mp h
    exact .refl hwf hanchored
  | false =>
    rw [hcollides, if_neg Bool.false_ne_true] at h
    obtain ⟨_, C₁, hopen, h⟩ := bind_ok.mp h
    rw [modify_bind] at h
    obtain ⟨hparent, hopened⟩ := openSession_ok hopen
    obtain ⟨run, s, ns, hrun, hs, hposted, ⟨n, hn, hkey⟩, hnotice⟩ := message_ok h
    obtain rfl : run = ⟨context.tenantId, request.sessionId, request.idempotencyKey, .queued⟩ := by
      replace hrun : (C₁.runs.set request.runId _).get? request.runId = some run := hrun
      rw [Dict.get?_set_self] at hrun
      exact (Option.some.inj hrun).symm
    rcases hopened with ⟨habsent, row, htenant, hversion, hacl, rfl⟩ | ⟨_, rfl⟩
    · refine hposted.wrote rfl (wellFormed_insertMessage (wellFormed_runs (wellFormed_setSession hwf)) hs)
        (anchored_insertMessage (wellFormed_runs (wellFormed_setSession hwf))
          fun _ _ t ht => .inr (hanchored _ _ t ht)) ?_
      intro key hne
      by_cases hown : key = .message C.nextMessage
      · subst hown
        exact .inl ⟨n, hn, hkey, hwf.unposted hkey⟩
      · by_cases hsession : key = .session request.sessionId
        · subst hsession
          obtain rfl : row = s := by
            replace hs : (C.sessions.set request.sessionId row).get? request.sessionId = some s := hs
            rw [Dict.get?_set_self] at hs
            exact Option.some.inj hs
          rw [htenant, hversion, hacl] at hnotice
          refine announced_mono ?_ (htold hcollides habsent hparent)
          intro x hx
          rw [List.mem_singleton.mp hx]
          exact hnotice
        · refine absurd ?_ hne
          rw [sourceRow_insertMessage (wellFormed_runs (wellFormed_setSession hwf)).next hown]
          · exact sourceRow_newSession hwf habsent hsession
          · exact nofun
          · rintro r c t - ht
            exact hanchored r c t ht
    · refine hposted.wrote rfl (wellFormed_insertMessage (wellFormed_runs hwf) hs)
        (anchored_insertMessage (wellFormed_runs hwf) fun _ _ t ht => .inr (hanchored _ _ t ht)) ?_
      intro key hne
      by_cases hown : key = .message C₁.nextMessage
      · subst hown
        exact .inl ⟨n, hn, hkey, hwf.unposted hkey⟩
      · refine absurd (Eq.trans (sourceRow_insertMessage hwf.next hown ?_ ?_) rfl) hne
        · exact nofun
        · rintro r c t - ht
          exact hanchored r c t ht

theorem wrote_createSession {title : Option String} {parent : Option SessionRef} (hwf : C.WellFormed)
    (hanchored : C.Anchored) (htold : Told ex C position (.createSession reference context title parent))
    (h : createSession reference context title parent C = .ok (u, C')) : Wrote ex position C C' := by
  rw [createSession] at h
  obtain ⟨hlocal, h⟩ := raiseIf_bind_ok.mp h
  rw [get_bind] at h
  obtain ⟨habsent, h⟩ := raiseIf_bind_ok.mp h
  replace habsent : C.sessions.get? reference.sessionId = none := by simpa [Dict.contains] using habsent
  obtain ⟨hparent, h⟩ : (∀ p ∈ parent, (C.localSession p context).isSome = true) ∧
      (do
        set { C with sessions := C.sessions.set reference.sessionId {
          tenantId := context.tenantId
          agentId := context.agentId
          title := title
          parentSessionId := parent.map SessionRef.sessionId } }
        enqueueSource (.session reference.sessionId) : WriterTx Unit) C = .ok (u, C') := by
    cases parent with
    | none => exact ⟨by simp, h⟩
    | some p =>
      obtain ⟨row, C₁, hrequire, h⟩ := bind_ok.mp h
      obtain ⟨hrow, rfl⟩ := requireLocalSession_ok hrequire
      refine ⟨?_, h⟩
      intro p' hp'
      cases hp'
      rw [hrow]
      rfl
  rw [set_bind] at h
  obtain ⟨n, hn, _, hposted⟩ := enqueueSource_ok h
  have hnotice : n = upsertNotice (.session reference.sessionId) context.tenantId 1 1 := by
    simp only [Canonical.upsert, Dict.get?_set_self, Option.bind_eq_bind, Option.bind_some,
      Option.pure_def, Option.some.injEq] at hn
    exact hn.symm
  refine hposted.wrote rfl (wellFormed_setSession hwf) hanchored ?_
  intro key hne
  by_cases hsession : key = .session reference.sessionId
  · subst hsession
    rw [hnotice]
    exact htold (by simpa using hlocal) habsent hparent
  · exact absurd (sourceRow_newSession hwf habsent hsession) hne

theorem mem_sources {d : Document} (h : sourceRow ex C key = some d) :
    key ∈ C.sources := by
  simp only [Canonical.sources, mem_append, mem_map]
  cases key with
  | session id =>
    refine .inl (.inl ⟨id, ?_, rfl⟩)
    by_contra habsent
    simp [sourceRow, Canonical.heading, Dict.get?_eq_none_iff.mpr habsent] at h
  | message id =>
    refine .inl (.inr ⟨id, ?_, rfl⟩)
    by_contra habsent
    simp [sourceRow, Dict.get?_eq_none_iff.mpr habsent] at h
  | toolInvocation runId callId =>
    refine .inr ⟨(runId, callId), ?_, rfl⟩
    by_contra habsent
    simp [sourceRow, Dict.get?_eq_none_iff.mpr habsent] at h

theorem sources_setSession {row' : SessionRow} (hrow : C.sessions.get? id = some row)
    (h : key ∈ ({ C with sessions := C.sessions.set id row' } : Canonical).sources) : key ∈ C.sources := by
  have hkeys : ∀ x, x ∈ (C.sessions.set id row').keys → x ∈ C.sessions.keys := by
    intro x hx
    by_contra habsent
    have hnone := Dict.get?_eq_none_iff.mpr habsent
    have hne : x ≠ id := by
      rintro rfl
      simp [hrow] at hnone
    refine absurd hx (Dict.get?_eq_none_iff.mp ?_)
    rw [Dict.get?_set_ne _ _ hne]
    exact hnone
  simp only [Canonical.sources, mem_append, mem_map] at h ⊢
  rcases h with (⟨x, hx, rfl⟩ | hmessage) | htool
  · exact .inl (.inl ⟨x, hkeys x hx, rfl⟩)
  · exact .inl (.inr hmessage)
  · exact .inr htool

/-- A session that is changed announces what `ToldOfSession` asks of it. -/
theorem wrote_changeSession {change : SessionRow → SessionRow} (hwf : C.WellFormed) (hanchored : C.Anchored)
    (hkept : (change row).tenantId = row.tenantId ∧ (change row).sourceVersion = row.sourceVersion ∧
      (change row).aclVersion = row.aclVersion) (hrow : C.localSession reference context = some row)
    (htold : ToldOfSession ex C position reference context change)
    (h : changeSession reference.sessionId (change row) C = .ok (u, C')) : Wrote ex position C C' := by
  rw [changeSession, modify_bind] at h
  obtain ⟨n, hn, _, hposted⟩ := enqueueSource_ok h
  have hnotice : n = upsertNotice (.session reference.sessionId) row.tenantId (row.sourceVersion + 1)
      row.aclVersion := by
    simp only [Canonical.upsert, Dict.get?_set_self, Option.bind_eq_bind, Option.bind_some,
      Option.pure_def, Option.some.injEq] at hn
    rw [← hn, ← hkept.1, ← hkept.2.1, ← hkept.2.2]
    rfl
  refine hposted.wrote rfl (wellFormed_setSession hwf) hanchored ?_
  intro key hne
  rw [hnotice]
  refine htold row hrow key ?_ hne
  cases hbefore : sourceRow ex C key with
  | some d => exact mem_sources hbefore
  | none =>
    cases hafter : sourceRow ex
        { C with sessions := C.sessions.set reference.sessionId (change row).touched } key with
    | none => exact absurd (hafter.trans hbefore.symm) hne
    | some d => exact sources_setSession (localSession_some hrow) (mem_sources hafter)

/-! ### Purging a session -/

theorem heading_withoutSession (hhidden : C.heading id = none) :
    (C.withoutSession id).heading = C.heading := by
  funext sid
  show ((C.sessions.pop id).get? sid).bind _ = _
  rw [Dict.get?_pop]
  split
  · rename_i heq
    rw [heq, hhidden]
    rfl
  · rfl

theorem sourceRow_withoutSession (hhidden : C.heading id = none) (key : SourceKey) :
    sourceRow ex (C.withoutSession id) key = sourceRow ex C key := by
  cases key with
  | session sid => simp only [sourceRow, heading_withoutSession hhidden]
  | message mid =>
    simp only [sourceRow, heading_withoutSession hhidden]
    have hget : (C.withoutSession id).messages.get? mid =
        (C.messages.get? mid).filter fun m => m.sessionId ≠ id := Dict.get?_filter _ _ _
    rw [hget]
    cases hm : C.messages.get? mid with
    | none => rfl
    | some m =>
      by_cases hsession : m.sessionId = id
      · simp [Option.filter, hsession, hhidden]
      · simp [Option.filter, hsession]
  | toolInvocation runId callId =>
    simp only [sourceRow, heading_withoutSession hhidden]
    have hget : (C.withoutSession id).tools.get? (runId, callId) =
        (C.tools.get? (runId, callId)).filter fun t => t.sessionId ≠ id := Dict.get?_filter _ _ _
    rw [hget]
    cases ht : C.tools.get? (runId, callId) with
    | none => rfl
    | some t =>
      by_cases hsession : t.sessionId = id
      · simp [Option.filter, hsession, hhidden]
      · have hplaces : (C.withoutSession id).places = C.places.filter fun p => p.sessionId ≠ id := by
          show (C.messages.entries.filter _).map _ = (C.messages.entries.map _).filter _
          rw [filter_map]
          rfl
        have hanchor : anchor (C.withoutSession id).places t.sessionId runId callId =
            anchor C.places t.sessionId runId callId := by
          unfold anchor
          rw [hplaces, filter_filter]
          have hsame : (C.places.filter fun p =>
              decide (p.sessionId = t.sessionId ∧ p.runId = runId) && decide (p.sessionId ≠ id)) =
              C.places.filter fun p => p.sessionId = t.sessionId ∧ p.runId = runId := by
            apply filter_congr
            intro p _
            by_cases hp : p.sessionId = t.sessionId
            · simp [hp, hsession]
            · simp [hp]
          rw [hsame]
        simp [Option.filter, hsession, hanchor]

theorem wellFormed_withoutSession (hwf : C.WellFormed) : (C.withoutSession id).WellFormed := by
  have hsome : ∀ sid, sid ≠ id → (∃ s, C.sessions.get? sid = some s) →
      ∃ s, (C.sessions.pop id).get? sid = some s := by
    rintro sid hne ⟨s, hs⟩
    exact ⟨s, (Dict.get?_pop_ne _ hne).trans hs⟩
  refine ⟨?_, ?_, ?_, ?_⟩
  · intro mid m hm
    obtain ⟨hm, hne⟩ := Dict.mem_filter.mp hm
    exact hsome _ (by simpa using hne) (hwf.message_session mid m hm)
  · intro key t ht
    obtain ⟨ht, hne⟩ := Dict.mem_filter.mp ht
    exact hsome _ (by simpa using hne) (hwf.tool_session key t ht)
  · intro mid m hm
    exact hwf.fresh mid m (Dict.mem_filter.mp hm).1
  · intro r hr mid hkey
    obtain ⟨hlt, hversion⟩ := hwf.posted r hr mid hkey
    exact ⟨hlt, fun hdel m hm => hversion hdel m (Dict.mem_filter.mp hm).1⟩

theorem anchored_withoutSession (hanchored : C.Anchored) :
    (C.withoutSession id).Anchored := by
  intro runId callId t ht
  obtain ⟨ht, hne⟩ := Dict.mem_filter.mp ht
  obtain ⟨p, hp, hsession, hrest⟩ := hanchored runId callId t ht
  refine ⟨p, ?_, hsession, hrest⟩
  obtain ⟨⟨mid, m⟩, hmem, rfl⟩ := List.mem_map.mp hp
  refine List.mem_map.mpr ⟨(mid, m), List.mem_filter.mpr ⟨hmem, ?_⟩, rfl⟩
  have hsame : m.sessionId = t.sessionId := hsession
  show decide (m.sessionId ≠ id) = true
  rw [hsame]
  exact hne

theorem wrote_purgeSession (hwf : C.WellFormed) (hanchored : C.Anchored)
    (h : purgeSession reference context C = .ok (u, C')) :
    Wrote ex position C C' := by
  obtain ⟨row, C₁, hrequire, hbody⟩ := bind_ok.mp h
  obtain ⟨hrow, rfl⟩ := requireLocalSession_ok hrequire
  obtain ⟨hdeleted, hbody⟩ := raiseIf_bind_ok.mp hbody
  rw [get_bind] at hbody
  obtain ⟨_, hbody⟩ := raiseIf_bind_ok.mp hbody
  obtain ⟨_, hbody⟩ := raiseIf_bind_ok.mp hbody
  cases set_ok.mp hbody
  have hhidden : C₁.heading reference.sessionId = none := by
    rw [Canonical.heading, localSession_some hrow, Option.bind_some, SessionRow.heading, if_neg hdeleted]
  have hwf' : (C₁.withoutSession reference.sessionId).WellFormed := wellFormed_withoutSession hwf
  refine ⟨⟨hwf'.message_session, hwf'.tool_session, hwf'.fresh, ?_⟩, anchored_withoutSession hanchored,
    _, rfl, ?_, ?_⟩
  · intro r hr mid hkey
    rcases Outbox.mem_enqueueAll hr with hold | hnew
    · exact hwf'.posted r hold mid hkey
    · rcases List.mem_append.mp hnew with hmessage | hsession
      · obtain ⟨⟨mid', m⟩, hmem, hnotice⟩ := List.mem_map.mp hmessage
        have hdel : r.deletes = true := congrArg Notice.deletes hnotice.symm
        have hid : SourceKey.message mid' = .message mid := (congrArg Notice.key hnotice).trans hkey
        obtain rfl := SourceKey.message.inj hid
        refine ⟨hwf.fresh mid' m (Dict.get?_eq_some_iff.mpr (List.mem_filter.mp hmem).1), fun hlive => ?_⟩
        simp [hdel] at hlive
      · have hkey' := congrArg Notice.key (List.mem_singleton.mp hsession)
        simp [hkey] at hkey'
  · intro n hn _
    show sourceRow ex (C₁.withoutSession reference.sessionId) n.key = none
    rcases List.mem_append.mp hn with hmessage | hsession
    · obtain ⟨⟨mid, m⟩, hmem, rfl⟩ := List.mem_map.mp hmessage
      obtain ⟨hmem, hown⟩ := List.mem_filter.mp hmem
      have hsame : m.sessionId = reference.sessionId := of_decide_eq_true hown
      rw [sourceRow_withoutSession hhidden]
      simp only [sourceRow, Dict.get?_eq_some_iff.mpr hmem, Option.bind_eq_bind, Option.bind_some, hsame,
        hhidden, Option.bind_none]
    · rw [List.mem_singleton.mp hsession, sourceRow_withoutSession hhidden]
      simp only [sourceRow, hhidden, Option.bind_eq_bind, Option.bind_none]
  · intro key hne
    exact absurd (sourceRow_withoutSession hhidden key) hne

/-! ### Every operation -/

theorem wrote_restoreIntents (hwf : C.WellFormed) (hanchored : C.Anchored)
    (h : restoreRuntimeSearchIntents C = .ok (u, C')) : Wrote ex position C C' := by
  obtain ⟨ns, hposted⟩ := enqueueSources_ok h
  exact hposted.wrote rfl hwf hanchored fun key hne => absurd rfl hne

theorem wrote_perform {operation : Operation} (hwf : C.WellFormed) (hanchored : C.Anchored)
    (htold : Told ex C position operation) (h : perform ex operation C = .ok (u, C')) :
    Wrote ex position C C' := by
  cases operation with
  | accept request context => exact wrote_accept hwf hanchored htold h
  | transition runId status output => exact wrote_transition hwf hanchored h
  | beginTool runId callId binding arguments => exact wrote_beginTool hwf hanchored htold h
  | finishTool runId callId outcome now => exact wrote_finishTool hwf hanchored htold h
  | createSession reference context title parent => exact wrote_createSession hwf hanchored htold h
  | renameSession reference context title =>
    obtain ⟨row, C₁, hrequire, hbody⟩ := bind_ok.mp h
    obtain ⟨hrow, rfl⟩ := requireLocalSession_ok hrequire
    obtain ⟨htitle, hbody⟩ := raiseIf_bind_ok.mp hbody
    obtain ⟨hpresent, hshort⟩ := not_or.mp htitle
    exact wrote_changeSession hwf hanchored ⟨rfl, rfl, rfl⟩ hrow (htold hpresent (by omega)) hbody
  | archiveSession reference context now =>
    obtain ⟨row, C₁, hrequire, hbody⟩ := bind_ok.mp h
    obtain ⟨hrow, rfl⟩ := requireLocalSession_ok hrequire
    exact wrote_changeSession hwf hanchored ⟨rfl, rfl, rfl⟩ hrow htold hbody
  | restoreSession reference context =>
    obtain ⟨row, C₁, hrequire, hbody⟩ := bind_ok.mp h
    obtain ⟨hrow, rfl⟩ := requireLocalSession_ok hrequire
    exact wrote_changeSession hwf hanchored ⟨rfl, rfl, rfl⟩ hrow htold hbody
  | purgeSession reference context => exact wrote_purgeSession hwf hanchored h
  | restoreIntents => exact wrote_restoreIntents hwf hanchored h

theorem wrote_atomically {operation : Operation} (hwf : C.WellFormed) (hanchored : C.Anchored)
    (htold : Told ex C position operation) :
    Wrote ex position C (atomically (perform ex operation) C).2 := by
  rcases atomically_cases (perform ex operation) C with ⟨a, C', hbody, hcommit⟩ | ⟨e, _, hrolled⟩
  · rw [hcommit]
    exact wrote_perform hwf hanchored htold hbody
  · rw [hrolled]
    exact .refl hwf hanchored

end OpenAgent.Search
