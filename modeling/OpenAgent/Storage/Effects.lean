import OpenAgent.Storage.Invocations

/-!
# What a committed operation did

One lemma for each operation: from a body that returned, everything it read on the way and the
ledger it left, written out as an update of the ledger it found. No later proof opens a body again.
-/

namespace OpenAgent.Store

open Lib Lib.Tx List

variable {D P : Type}

structure Outline where
  sessionId : String
  runId : String
  sequence : Nat
  ordinal : Nat
  role : MessageRole

def outline (m : MessageRow) : Outline := ⟨m.sessionId, m.runId, m.sequence, m.ordinal, m.role⟩

def Outline.next (outlines : List Outline) (sessionId runId : String) (role : MessageRole) : Outline where
  sessionId := sessionId
  runId := runId
  sequence := nextOrdinal ((outlines.filter fun o => o.sessionId = sessionId).map Outline.sequence)
  ordinal := nextOrdinal ((outlines.filter fun o => o.runId = runId).map Outline.ordinal)
  role := role

theorem outline_messageRow (L : Ledger D P) (runId : String) (run : RunRow D) (role : MessageRole)
    (text : Json) (principal : PrincipalKey) (kind : String) (now : Int) (toolCallId : Option String)
    (status : MessageStatus) :
    outline (messageRow L runId run role text principal kind now toolCallId status) =
      .next (L.messages.map outline) run.sessionId runId role := by
  simp only [Outline.next, filter_map, map_map]
  rfl

variable {α : Type}

theorem transaction_cases (m : Moment) (body : StoreTx D P α) (L : Ledger D P) :
    (∃ a L', body L = .ok (a, L') ∧ transaction m body L = (.ok a, L')) ∨
      ∃ e, transaction m body L = (.error e, L) := by
  unfold transaction
  split
  · exact .inr ⟨_, rfl⟩
  · rcases atomically_cases body L with h | ⟨e, -, h⟩
    · exact .inl h
    · exact .inr ⟨e, h⟩

variable {L L' : Ledger D P}

theorem transaction_ok {m : Moment} {body : StoreTx D P α} {a : α} (h : transaction m body L = (.ok a, L'))
    : body L = .ok (a, L') := by
  rcases transaction_cases m body L with ⟨b, M, hbody, heq⟩ | ⟨e, heq⟩
  · obtain ⟨hb, rfl⟩ := Prod.mk.inj (heq.symm.trans h)
    cases hb
    exact hbody
  · cases heq.symm.trans h

theorem transaction_error {m : Moment} {body : StoreTx D P α} {e : StoreError}
    (h : transaction m body L = (.error e, L')) : L' = L := by
  rcases transaction_cases m body L with ⟨b, M, -, heq⟩ | ⟨e', heq⟩
  · cases heq.symm.trans h
  · exact (Prod.mk.inj (h.symm.trans heq)).2

variable {R : Ledger D P → Ledger D P → Prop}

theorem transaction_related {m : Moment} {body : StoreTx D P α}
    (hrefl : ∀ L, R L L) (hbody : ∀ a L', body L = .ok (a, L') → R L L') : R L (transaction m body L).2 := by
  rcases transaction_cases m body L with ⟨a, L', hok, heq⟩ | ⟨e, heq⟩
  · rw [heq]
    exact hbody a L' hok
  · rw [heq]
    exact hrefl L

theorem forEach_related {κ : Type}
    {operation : Moment → κ → Ledger D P → Except StoreError Unit × Ledger D P}
    (hrefl : ∀ L, R L L) (htrans : ∀ {L M N}, R L M → R M N → R L N)
    (hoperation : ∀ m item L, R L (operation m item L).2) (moments : List Moment)
    (items : List κ) (L : Ledger D P) : R L (forEach operation moments items L).2 := by
  induction items generalizing moments L with
  | nil =>
    rw [forEach]
    exact hrefl L
  | cons item rest ih =>
    cases moments with
    | nil =>
      rw [forEach]
      exact hrefl L
    | cons moment moments =>
      have hfirst := hoperation moment item L
      rw [forEach]
      split
      · rename_i L' heq
        rw [heq] at hfirst
        exact htrans hfirst (ih moments L')
      · rename_i e L' heq
        rw [heq] at hfirst
        exact hfirst

theorem recover_related {host : Host D P}
    (hrefl : ∀ L, R L L) (htrans : ∀ {L M N}, R L M → R M N → R L N)
    (hfinish : ∀ {runId callId now L u L'},
      finishTool host runId callId (.error runtimeRestarted) none now L = .ok (u, L') → R L L')
    (htransition : ∀ {runId now L record L'},
      transition host runId .interrupted (some runtimeRestarted) now L = .ok (record, L') → R L L')
    (moments : List Moment) (L : Ledger D P) : R L (recover host moments L).2 := by
  have hfinished : R L (forEach (fun m (key : String × String) => transaction m
      (finishTool host key.1 key.2 (.error runtimeRestarted) none m.now)) moments
      (openInvocations L) L).2 := by
    apply forEach_related hrefl htrans
    exact fun m key L => transaction_related hrefl fun _ _ => hfinish
  rw [recover]
  split
  · rename_i e L' heq
    rw [heq] at hfinished
    exact hfinished
  · rename_i L' heq
    rw [heq] at hfinished
    refine htrans hfinished (forEach_related hrefl htrans ?_ _ _ L')
    intro m runId L
    refine transaction_related hrefl ?_
    intro u L'' h
    obtain ⟨record, M, hrecord, hpure⟩ := Tx.bind_ok.mp h
    cases Tx.pure_ok.mp hpure
    exact htransition hrecord

def Readable (L : Ledger D P) (runId : String) : Prop :=
  ∀ run session, L.runs.get? runId = some run → L.sessions.get? run.sessionId = some session →
    session.visibility ≠ .quarantined

variable {host : Host D P} {hook : Publication D P → Ledger D P → Except StoreError P}
  {r : Unit × Ledger D P}

theorem publish_ok (h : publish host hook L = .ok r) :
    ∃ p, r = ((), { L with privacy := p }) := by
  unfold publish at h
  cases hpub : host.publication with
  | none =>
    rw [hpub] at h
    exact ⟨L.privacy, pure_ok.mp h⟩
  | some publication =>
    simp only [hpub, get_bind] at h
    cases hhook : hook publication L with
    | error e =>
      rw [hhook] at h
      exact absurd h throw_ok
    | ok privacy =>
      rw [hhook] at h
      exact ⟨privacy, set_ok.mp h⟩

variable {f : Unit → StoreTx D P α}

theorem publish_bind_ok {r : α × Ledger D P}
    (h : (publish host hook >>= f) L = .ok r) :
    ∃ p, f () { L with privacy := p } = .ok r := by
  obtain ⟨_, _, hpublish, hf⟩ := bind_ok.mp h
  obtain ⟨p, hp⟩ := publish_ok hpublish
  cases hp
  exact ⟨p, hf⟩

theorem publish_bind_asked {r : α × Ledger D P}
    (h : (publish host hook >>= f) L = .ok r) :
    ∀ publication ∈ host.publication, ∃ p, hook publication L = .ok p := by
  intro publication hbound
  obtain ⟨_, _, hpublish, -⟩ := bind_ok.mp h
  rw [publish, Option.mem_def.mp hbound] at hpublish
  simp only [get_bind] at hpublish
  cases hhook : hook publication L with
  | error e =>
    rw [hhook] at hpublish
    exact absurd hpublish throw_ok
  | ok p => exact ⟨p, rfl⟩

theorem requireSessionNotQuarantined_bind_ok {row : Option SessionRow}
    {r : α × Ledger D P} :
    (requireSessionNotQuarantined row >>= f) L = .ok r ↔
      (∀ session ∈ row, session.visibility ≠ .quarantined) ∧ f () L = .ok r := by
  rw [requireSessionNotQuarantined, raiseIf_bind_ok]
  simp

variable {kind runId callId : String}

theorem requireRunNotQuarantined_bind_ok {r : α × Ledger D P} :
    (requireRunNotQuarantined runId >>= f) L = .ok r ↔ Readable L runId ∧ f () L = .ok r := by
  rw [requireRunNotQuarantined, bind_assoc, get_bind, requireSessionNotQuarantined_bind_ok]
  simp only [Readable, Option.mem_def, Option.bind_eq_some_iff, forall_exists_index, and_imp]
  refine and_congr_left fun _ => ⟨fun h run session => h session run, fun h session run => h run session⟩

theorem event_ok {payload : EventPayload D} {r : Nat × Ledger D P}
    (h : event host runId kind payload L = .ok r) :
    ∃ row p, L.runs.get? runId = some row ∧ r = (L.lastSequence + 1, { L with
      lastSequence := L.lastSequence + 1
      events := L.events ++ [eventRow L runId row kind payload]
      privacy := p }) := by
  rw [event, get_bind, orRaise_bind_ok] at h
  obtain ⟨row, hrow, h⟩ := h
  rw [set_bind] at h
  split at h
  · obtain ⟨p, h⟩ := publish_bind_ok h
    exact ⟨row, p, hrow, pure_ok.mp h⟩
  · exact ⟨row, L.privacy, hrow, pure_ok.mp h⟩

variable {now : Int}

theorem message_ok {role : MessageRole} {text : Json} {principal : PrincipalKey}
    {toolCallId : Option String} {status : MessageStatus}
    (h : message host runId role text principal kind now toolCallId status L = .ok r) :
    ∃ run session p, L.runs.get? runId = some run ∧ L.sessions.get? run.sessionId = some session ∧
      r = ((), { L with
        messages := L.messages ++
          [messageRow L runId run role text principal kind now toolCallId status]
        sessions := L.sessions.set run.sessionId (session.touched now)
        privacy := p }) := by
  rw [message, get_bind, orRaise_bind_ok] at h
  obtain ⟨run, hrun, h⟩ := h
  rw [orRaise_bind_ok] at h
  obtain ⟨session, hsession, h⟩ := h
  rw [checkNotBefore, raiseIf_bind_ok, set_bind] at h
  obtain ⟨-, h⟩ := h
  split at h
  · obtain ⟨p, hp⟩ := publish_ok h
    exact ⟨run, session, p, hrun, hsession, hp⟩
  · exact ⟨run, session, L.privacy, hrun, hsession, pure_ok.mp h⟩

theorem event_bind_ok {payload : EventPayload D} {f : Nat → StoreTx D P α} {r : α × Ledger D P}
    (h : (event host runId kind payload >>= f) L = .ok r) :
    ∃ row p, L.runs.get? runId = some row ∧ f (L.lastSequence + 1) { L with
      lastSequence := L.lastSequence + 1
      events := L.events ++ [eventRow L runId row kind payload]
      privacy := p } = .ok r := by
  obtain ⟨_, _, hevent, hf⟩ := bind_ok.mp h
  obtain ⟨row, p, hrow, hpair⟩ := event_ok hevent
  cases hpair
  exact ⟨row, p, hrow, hf⟩

theorem message_bind_ok {role : MessageRole} {text : Json} {principal : PrincipalKey}
    {toolCallId : Option String} {status : MessageStatus} {r : α × Ledger D P}
    (h : (message host runId role text principal kind now toolCallId status >>= f) L = .ok r) :
    ∃ run session p, L.runs.get? runId = some run ∧ L.sessions.get? run.sessionId = some session ∧
      f () { L with
        messages := L.messages ++
          [messageRow L runId run role text principal kind now toolCallId status]
        sessions := L.sessions.set run.sessionId (session.touched now)
        privacy := p } = .ok r := by
  obtain ⟨_, _, hmessage, hf⟩ := bind_ok.mp h
  obtain ⟨run, session, p, hrun, hsession, hpair⟩ := message_ok hmessage
  cases hpair
  exact ⟨run, session, p, hrun, hsession, hf⟩

def Touched (S S' : Dict String SessionRow) : Prop :=
  S' = S ∨ ∃ id session now, S.get? id = some session ∧ S' = S.set id (session.touched now)

private theorem publishOutput_bind_ok {output : Option Json} {r : α × Ledger D P}
    (h : (publishOutput host runId output >>= f) L = .ok r) :
    ∃ p, f () { L with privacy := p } = .ok r := by
  unfold publishOutput at h
  split at h
  · exact publish_bind_ok h
  · exact ⟨L.privacy, h⟩

private theorem reply_bind_ok {row row' : RunRow D} {status : RunStatus} {output : Option Json}
    {r : α × Ledger D P} (hrow : L.runs.get? runId = some row)
    (h : (reply host runId row' status output now >>= f) L = .ok r) :
    ∃ replies sessions p, replies.map outline = (if status = .success ∧ output.isSome then
        [.next (L.messages.map outline) row.sessionId runId .assistant] else []) ∧
      Touched L.sessions sessions ∧ f () { L with
      messages := L.messages ++ replies
      sessions := sessions
      privacy := p } = .ok r := by
  unfold reply at h
  split at h
  · rw [bind_assoc, orRaise_bind_ok] at h
    obtain ⟨context, -, h⟩ := h
    obtain ⟨run, session, p, hrun, hsession, h⟩ := message_bind_ok h
    obtain rfl : row = run := Option.some.inj (hrow.symm.trans hrun)
    refine ⟨_, _, p, ?_, .inr ⟨row.sessionId, session, now, hsession, rfl⟩, h⟩
    rw [map_singleton, outline_messageRow]
    rfl
  · rename_i hnone
    refine ⟨[], L.sessions, L.privacy, ?_, .inl rfl, ?_⟩
    · rw [if_neg]
      · rfl
      rintro ⟨hstatus, hsome⟩
      obtain ⟨text, htext⟩ := Option.isSome_iff_exists.mp hsome
      exact hnone text hstatus htext
    · rw [append_nil]
      exact h

theorem transition_ok {status : RunStatus} {output : Option Json} {r : RunRecord D × Ledger D P}
    (h : transition host runId status output now L = .ok r) :
    ∃ row, L.runs.get? runId = some row ∧ Readable L runId ∧
      (row.status.terminal = true ∧ r = (row.record runId, L) ∨
        row.status.terminal = false ∧ (status = .running → row.status = .queued) ∧
          (status ≠ .running → status.terminal = true) ∧
          ∃ replies sessions p, replies.map outline = (if status = .success ∧ output.isSome then
              [.next (L.messages.map outline) row.sessionId runId .assistant] else []) ∧
            Touched L.sessions sessions ∧
            r = ((row.moved status output now).record runId, { L with
              runs := L.runs.set runId (row.moved status output now)
              messages := L.messages ++ replies
              sessions := sessions
              lastSequence := L.lastSequence + 1
              events := L.events ++ [eventRow L runId (row.moved status output now)
                ("run." ++ status.text) (.status status output)]
              privacy := p })) := by
  rw [transition, requireRunNotQuarantined_bind_ok, get_bind, orRaise_bind_ok] at h
  obtain ⟨hread, row, hrow, h⟩ := h
  refine ⟨row, hrow, hread, ?_⟩
  split at h
  · rename_i hterm
    exact .inl ⟨hterm, pure_ok.mp h⟩
  rename_i hlive
  rw [raiseIf_bind_ok, raiseIf_bind_ok, raiseIf_bind_ok, set_bind] at h
  obtain ⟨hsupported, hstart, -, h⟩ := h
  obtain ⟨_, h⟩ := publishOutput_bind_ok h
  obtain ⟨replies, sessions, p, hreplies, htouched, h⟩ := reply_bind_ok (Dict.get?_set_self _ _ _) h
  obtain ⟨written, q, hwritten, h⟩ := event_bind_ok h
  obtain rfl : row.moved status output now = written := by simpa using hwritten
  refine .inr ⟨by simpa using hlive, ?_, ?_, replies, sessions, q, hreplies, htouched, pure_ok.mp h⟩
  · intro hrunning
    by_contra hqueued
    exact hstart ⟨hrunning, hqueued⟩
  · intro hmoved
    by_contra hterm
    exact hsupported ⟨hmoved, by simpa using hterm⟩

theorem requestCancel_ok {r : RunRecord D × Ledger D P} (h : requestCancel host runId L = .ok r) :
    ∃ row, L.runs.get? runId = some row ∧ Readable L runId ∧
      ((row.status.terminal = true ∨ row.metadata.cancelRequested = true) ∧
          r = (row.record runId, L) ∨
        row.status.terminal = false ∧ row.metadata.cancelRequested = false ∧
          ∃ p, r = (row.cancelAsked.record runId, { L with
            runs := L.runs.set runId row.cancelAsked
            lastSequence := L.lastSequence + 1
            events := L.events ++
              [eventRow L runId row.cancelAsked "run.cancel_requested" .cancelRequested]
            privacy := p })) := by
  rw [requestCancel, requireRunNotQuarantined_bind_ok, get_bind, orRaise_bind_ok] at h
  obtain ⟨hread, row, hrow, h⟩ := h
  refine ⟨row, hrow, hread, ?_⟩
  split at h
  · rename_i hsettled
    exact .inl ⟨hsettled, pure_ok.mp h⟩
  rename_i hopen
  rw [not_or] at hopen
  rw [set_bind] at h
  obtain ⟨written, p, hwritten, h⟩ := event_bind_ok h
  obtain rfl : row.cancelAsked = written := by simpa using hwritten
  exact .inr ⟨by simpa using hopen.1, by simpa using hopen.2, p, pure_ok.mp h⟩

variable {context : ExecutionContext}

theorem reserveCancel_ok {r : RunRecord D × Ledger D P} (h : reserveCancel runId context L = .ok r) :
    (∃ row, L.runs.get? runId = some row ∧ r = (row.record runId, L) ∧
        row.tenantId = context.tenantId ∧ row.sessionId = context.sessionId) ∨
      (L.runs.get? runId = none ∧
        r.1 = reservedRecord runId context.sessionId context.tenantId ∧
        ((∃ e, L.reservation runId = some e ∧ e.tenantId = context.tenantId ∧
            e.sessionId = context.sessionId ∧ r.2 = L) ∨
          L.reservation runId = none ∧ r.2 = { L with
            lastSequence := L.lastSequence + 1
            events := L.events ++ [reservationRow L runId context] })) := by
  rw [reserveCancel, get_bind, requireSessionNotQuarantined_bind_ok,
    requireRunNotQuarantined_bind_ok] at h
  obtain ⟨-, -, h⟩ := h
  cases hrow : L.runs.get? runId with
  | some row =>
    rw [hrow] at h
    obtain ⟨hsame, h⟩ := raiseIf_bind_ok.mp h
    rw [not_or, not_ne_iff, not_ne_iff] at hsame
    exact .inl ⟨row, rfl, pure_ok.mp h, hsame.1, hsame.2⟩
  | none =>
    rw [hrow] at h
    refine .inr ⟨rfl, ?_⟩
    cases hreserved : L.reservation runId with
    | some reserved =>
      rw [hreserved] at h
      obtain ⟨hsame, h⟩ := raiseIf_bind_ok.mp h
      rw [not_or, not_ne_iff, not_ne_iff] at hsame
      obtain rfl := pure_ok.mp h
      exact ⟨rfl, .inl ⟨reserved, rfl, hsame.1, hsame.2, rfl⟩⟩
    | none =>
      rw [hreserved] at h
      obtain rfl := pure_ok.mp h
      exact ⟨rfl, .inr ⟨rfl, rfl⟩⟩

theorem appendEvent_ok {payload : Json} {r : Nat × Ledger D P}
    (h : appendEvent host runId kind payload L = .ok r) :
    ∃ row p, L.runs.get? runId = some row ∧ r = (L.lastSequence + 1, { L with
      lastSequence := L.lastSequence + 1
      events := L.events ++ [eventRow L runId row kind (.other payload)]
      privacy := p }) := by
  rw [appendEvent, requireRunNotQuarantined_bind_ok] at h
  exact event_ok h.2

/-! ### Accepting -/

private theorem grantAudience_bind_ok {sessionId : String} {audience : List PrincipalRef}
    {r : α × Ledger D P}
    (h : (grantAudience context sessionId now audience >>= f) L = .ok r) :
    ∃ acl, f () { L with acl := acl } = .ok r := by
  induction audience generalizing L with
  | nil => exact ⟨L.acl, h⟩
  | cons recipient rest ih =>
    rw [grantAudience] at h
    split at h
    · simp only [forIn_cons, forIn_nil, bind_assoc, get_bind, pure_bind, raiseIf_bind_ok,
        set_bind] at h
      obtain ⟨-, -, h⟩ := h
      obtain ⟨acl, h⟩ := ih h
      exact ⟨acl, h⟩
    · exact ih h

variable {request : RunRequest}

private theorem parentSession_bind_ok {f : Option (String × String) → StoreTx D P α} {r : α × Ledger D P}
    (h : (parentSession request context >>= f) L = .ok r) : ∃ parent, f parent L = .ok r := by
  unfold parentSession at h
  split at h
  · exact ⟨none, h⟩
  · rw [bind_assoc, get_bind] at h
    dsimp only at h
    rw [bind_assoc, raiseIf_bind_ok] at h
    exact ⟨_, h.2⟩

private theorem openSession_bind_ok {r : α × Ledger D P}
    (h : (openSession request context now >>= f) L = .ok r) :
    ∃ session acl,
      (L.sessions.get? request.sessionId = none → session.visibility ≠ .quarantined) ∧
      (∀ existing, L.sessions.get? request.sessionId = some existing →
        session = { existing with runtimeContract := true }) ∧
      f () { L with sessions := L.sessions.set request.sessionId session, acl := acl } = .ok r := by
  rw [openSession, bind_assoc, get_bind] at h
  cases hsession : L.sessions.get? request.sessionId with
  | none =>
    rw [hsession] at h
    dsimp only at h
    rw [bind_assoc, set_bind, bind_assoc] at h
    obtain ⟨acl, h⟩ := grantAudience_bind_ok h
    rw [bind_assoc] at h
    obtain ⟨parent, h⟩ := parentSession_bind_ok h
    rw [modify_bind] at h
    refine ⟨sessionRow context now parent, acl, ?_, by simp, by simpa using h⟩
    intro _
    unfold sessionRow
    dsimp only
    split <;> simp
  | some existing =>
    rw [hsession] at h
    dsimp only at h
    rw [bind_assoc, set_bind, bind_assoc] at h
    obtain ⟨parent, h⟩ := parentSession_bind_ok h
    rw [raiseIf_bind_ok] at h
    exact ⟨{ existing with runtimeContract := true }, L.acl, by simp, by simp, h.2⟩

def insertedRow (L : Ledger D P) (request : RunRequest) (context : ExecutionContext) (digest : D)
    (now : Int) : RunRow D :=
  let row := acceptedRow L request context digest (L.reservation request.runId).isSome now
  if (L.reservation request.runId).isSome then row.cancelledBeforeAccept now else row

def acceptedMessage (L : Ledger D P) (request : RunRequest) (context : ExecutionContext) (digest : D)
    (now : Int) : MessageRow :=
  messageRow L request.runId (insertedRow L request context digest now) .user (.str request.input)
    context.author.key context.author.kind now none .complete

def acceptedEvent (L : Ledger D P) (request : RunRequest) (context : ExecutionContext) (digest : D)
    (now : Int) : EventRow D :=
  let row := insertedRow L request context digest now
  eventRow L request.runId row "run.accepted" (.accepted row.status digest)

private theorem settleReserved_bind_ok {row : RunRow D} {reserved : Bool}
    {r : α × Ledger D P} {runs : Dict String (RunRow D)} (hrow : L.runs = runs.set runId row)
    (h : (settleReserved runId row reserved now >>= f) L = .ok r) :
    f () { L with runs := runs.set runId (if reserved then row.cancelledBeforeAccept now else row) } =
      .ok r := by
  cases reserved with
  | true =>
    have hset : runs.set runId (row.cancelledBeforeAccept now) =
        L.runs.set runId (row.cancelledBeforeAccept now) := by
      rw [hrow, Dict.set_set]
    simp only [if_true, hset]
    exact h
  | false =>
    simp only [Bool.false_eq_true, if_false, ← hrow]
    exact h

theorem insertRun_ok {digest : D} {r : (RunRecord D × Bool) × Ledger D P}
    (h : insertRun host request context digest now L = .ok r) :
    (∀ e ∈ L.reservation request.runId,
      e.tenantId = context.tenantId ∧ e.sessionId = request.sessionId) ∧
    ∃ session acl p,
      (L.sessions.get? request.sessionId = none → session.visibility ≠ .quarantined) ∧
      (∀ existing, L.sessions.get? request.sessionId = some existing →
        session = { existing with runtimeContract := true }) ∧
      r = (((insertedRow L request context digest now).record request.runId,
          (L.reservation request.runId).isNone), { L with
        sessions := L.sessions.set request.sessionId (session.touched now)
        acl := acl
        runs := L.runs.set request.runId (insertedRow L request context digest now)
        messages := L.messages ++ [acceptedMessage L request context digest now]
        lastSequence := L.lastSequence + 1
        events := L.events ++ [acceptedEvent L request context digest now]
        privacy := p }) := by
  rw [insertRun, get_bind, raiseIf_bind_ok, raiseIf_bind_ok] at h
  obtain ⟨hreservation, -, h⟩ := h
  obtain ⟨session, acl, hnew, hold, h⟩ := openSession_bind_ok h
  rw [get_bind, raiseIf_bind_ok, set_bind] at h
  obtain ⟨-, h⟩ := h
  obtain ⟨q, h⟩ := publish_bind_ok h
  replace h := settleReserved_bind_ok rfl h
  obtain ⟨run, seen, _, hrun, hseen, h⟩ := message_bind_ok h
  obtain rfl : insertedRow L request context digest now = run :=
    Option.some.inj ((Dict.get?_set_self _ _ _).symm.trans hrun)
  have hsessionId : (insertedRow L request context digest now).sessionId = request.sessionId := by
    unfold insertedRow
    split <;> rfl
  have hstatus : (if (L.reservation request.runId).isSome = true then RunStatus.cancelled
      else RunStatus.queued) = (insertedRow L request context digest now).status := by
    unfold insertedRow
    split <;> rfl
  rw [hsessionId] at hseen h
  obtain rfl : session = seen := by simpa using hseen
  rw [hstatus] at h
  obtain ⟨written, p, hwritten, h⟩ := event_bind_ok h
  obtain rfl : insertedRow L request context digest now = written :=
    Option.some.inj ((Dict.get?_set_self _ _ _).symm.trans hwritten)
  rw [get_bind, orRaise_bind_ok] at h
  obtain ⟨accepted, haccepted, h⟩ := h
  obtain rfl : insertedRow L request context digest now = accepted :=
    Option.some.inj ((Dict.get?_set_self _ _ _).symm.trans haccepted)
  refine ⟨?_, session, acl, p, hnew, hold, ?_⟩
  · intro e he
    by_contra hne
    exact hreservation ⟨e, he, by tauto⟩
  · rw [pure_ok.mp h]
    simp only [Dict.set_set]
    rfl

theorem insertRun_inherits {digest : D} {r : (RunRecord D × Bool) × Ledger D P}
    (h : insertRun host request context digest now L = .ok r) :
    ∀ publication ∈ host.publication, ∃ M row p, M.runs = L.runs.set request.runId row ∧
      M.privacy = L.privacy ∧
      publication.inherit M request.runId request.sessionId context.parentRunId = .ok p := by
  intro publication hbound
  rw [insertRun, get_bind, raiseIf_bind_ok, raiseIf_bind_ok] at h
  obtain ⟨-, -, h⟩ := h
  obtain ⟨session, acl, -, -, h⟩ := openSession_bind_ok h
  rw [get_bind, raiseIf_bind_ok, set_bind] at h
  obtain ⟨p, hp⟩ := publish_bind_asked h.2 publication hbound
  exact ⟨_, _, p, by rfl, by rfl, hp⟩

theorem accept_ok [DecidableEq D] {r : (RunRecord D × Bool) × Ledger D P}
    (h : accept host request context now L = .ok r) :
    (∀ session ∈ L.sessions.get? request.sessionId, session.visibility ≠ .quarantined) ∧
      ((∃ row, L.colliding request = [(request.runId, row)] ∧
          row.metadata.requestDigest = some (host.fingerprint request context) ∧
          r = ((row.record request.runId, false), L)) ∨
        L.colliding request = [] ∧
          insertRun host request context (host.fingerprint request context) now L = .ok r) := by
  rw [accept, get_bind, requireSessionNotQuarantined_bind_ok] at h
  obtain ⟨hvisible, h⟩ := h
  refine ⟨hvisible, ?_⟩
  cases hrows : L.colliding request with
  | nil =>
    rw [hrows] at h
    exact .inr ⟨rfl, h⟩
  | cons first rest =>
    rw [hrows] at h
    obtain ⟨id, row⟩ := first
    cases rest with
    | nil =>
      obtain ⟨hsame, h⟩ := raiseIf_bind_ok.mp h
      rw [not_or, not_ne_iff, not_ne_iff] at hsame
      obtain ⟨rfl, hdigest⟩ := hsame
      exact .inl ⟨row, rfl, hdigest, pure_ok.mp h⟩
    | cons _ _ => exact absurd h throw_ok

/-! ### Tool invocations -/

private theorem publishAttested_ok {attested : Attestation α} {stale : String}
    {hook : Publication D P → Ledger D P → α → Except StoreError P}
    (h : publishAttested host attested stale hook L = .ok r) :
    ∃ p, r = ((), { L with privacy := p }) := by
  rw [publishAttested, raiseIf_bind_ok] at h
  exact publish_ok h.2

private theorem publishIntent_ok {intent : Option (Attestation (List ContentOrigin))}
    (h : publishIntent host runId callId intent L = .ok r) : ∃ p, r = ((), { L with privacy := p }) := by
  cases intent with
  | some attested => exact publishAttested_ok h
  | none => exact publish_ok h

private theorem publishFinished_ok {outcome : ToolOutcome}
    {provenance : Option (Attestation ResultProvenance)}
    (h : publishFinished host runId callId outcome provenance L = .ok r) :
    ∃ p, r = ((), { L with privacy := p }) := by
  cases provenance with
  | some attested => exact publishAttested_ok h
  | none => exact publish_ok h

theorem beginTool_ok {binding : ToolBinding} {arguments : Json}
    {intent : Option (Attestation (List ContentOrigin))}
    (h : beginTool host runId callId binding arguments intent now L = .ok r) :
    ∃ run session anchor p, L.runs.get? runId = some run ∧ run.status = .running ∧
      L.invocations.get? (runId, callId) = none ∧ L.sessions.get? run.sessionId = some session ∧
      outline anchor = .next (L.messages.map outline) run.sessionId runId .tool ∧ r = ((), { L with
        invocations := L.invocations.set (runId, callId)
          (invocationRow L run session binding arguments now)
        messages := L.messages ++ [anchor]
        sessions := L.sessions.set run.sessionId (session.touched now)
        lastSequence := L.lastSequence + 1
        events := L.events ++
          [eventRow L runId run "tool.invoking" (.toolInvoking callId binding arguments)]
        privacy := p }) := by
  rw [beginTool, requireRunNotQuarantined_bind_ok, get_bind, orRaise_bind_ok] at h
  obtain ⟨-, run, hrunning, h⟩ := h
  obtain ⟨hrun, hstatus⟩ := Option.filter_eq_some_iff.mp hrunning
  rw [raiseIf_bind_ok, orRaise_bind_ok] at h
  obtain ⟨habsent, session, hsession, h⟩ := h
  rw [set_bind, orRaise_bind_ok] at h
  obtain ⟨context, -, h⟩ := h
  rw [raiseIf_bind_ok] at h
  obtain ⟨-, h⟩ := h
  obtain ⟨seen, touched, _, hseen, htouched, h⟩ := message_bind_ok h
  obtain rfl : run = seen := Option.some.inj (hrun.symm.trans hseen)
  obtain rfl : session = touched := Option.some.inj (hsession.symm.trans htouched)
  obtain ⟨written, _, hwritten, h⟩ := event_bind_ok h
  obtain rfl : run = written := Option.some.inj (hrun.symm.trans hwritten)
  obtain ⟨p, hp⟩ := publishIntent_ok h
  refine ⟨run, session, _, p, hrun, by simpa using hstatus, ?_, hsession, ?_, hp⟩
  · simpa [Dict.contains] using habsent
  · exact outline_messageRow _ _ _ _ _ _ _ _ _ _

private theorem completeAnchor_bind_ok {outcome : ToolOutcome}
    {r : α × Ledger D P} (h : (completeAnchor runId callId outcome now >>= f) L = .ok r) :
    ∃ messages, (∀ m ∈ L.messages, m.role ≠ .tool → m ∈ messages) ∧
      messages.map outline = L.messages.map outline ∧ f () { L with messages := messages } = .ok r := by
  rw [completeAnchor, bind_assoc, get_bind] at h
  cases hanchor : L.messages.findIdx? (MessageRow.isAnchor runId callId) with
  | none =>
    rw [hanchor] at h
    exact ⟨L.messages, fun m hm _ => hm, rfl, h⟩
  | some i =>
    rw [hanchor] at h
    dsimp only at h
    rw [bind_assoc, checkNotBefore, raiseIf_bind_ok, set_bind] at h
    refine ⟨_, ?_, ?_, h.2⟩
    · intro m hm hrole
      obtain ⟨hi, hat, -⟩ := List.findIdx?_eq_some_iff_getElem.mp hanchor
      obtain ⟨j, hj, rfl⟩ := List.mem_iff_getElem.mp hm
      have hne : i ≠ j := by
        rintro rfl
        simp only [MessageRow.isAnchor, decide_eq_true_eq] at hat
        exact hrole hat.2.2
      refine List.mem_iff_getElem.mpr ⟨j, by simpa using hj, ?_⟩
      rw [getElem_modify, if_neg hne]
    · ext1 j
      rw [getElem?_map, getElem?_map, getElem?_modify]
      cases L.messages[j]? with
      | none => rfl
      | some m => by_cases hij : i = j <;> simp [hij, outline, MessageRow.anchored]

theorem finishTool_ok {outcome : ToolOutcome} {provenance : Option (Attestation ResultProvenance)}
    (h : finishTool host runId callId outcome provenance now L = .ok r) :
    ∃ row run messages p, L.invocations.get? (runId, callId) = some row ∧ row.finishedAtMs = none ∧
      L.runs.get? runId = some run ∧ (∀ m ∈ L.messages, m.role ≠ .tool → m ∈ messages) ∧
      messages.map outline = L.messages.map outline ∧ r = ((), { L with
        invocations := L.invocations.set (runId, callId) (row.finished outcome now)
        messages := messages
        lastSequence := L.lastSequence + 1
        events := L.events ++ [eventRow L runId run "tool.completed"
          (.toolCompleted callId outcome.status row.binding row.arguments outcome)]
        privacy := p }) := by
  rw [finishTool, requireRunNotQuarantined_bind_ok, get_bind, orRaise_bind_ok] at h
  obtain ⟨-, row, hrow, h⟩ := h
  rw [raiseIf_bind_ok, checkNotBefore, raiseIf_bind_ok, set_bind] at h
  obtain ⟨hopen, -, h⟩ := h
  obtain ⟨messages, hkept, houtline, h⟩ := completeAnchor_bind_ok h
  obtain ⟨run, _, hrun, h⟩ := event_bind_ok h
  obtain ⟨p, hp⟩ := publishFinished_ok h
  exact ⟨row, run, messages, p, hrow, by simpa using hopen, hrun, hkept, houtline, hp⟩

end OpenAgent.Store
