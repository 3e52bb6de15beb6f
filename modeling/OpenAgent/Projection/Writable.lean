import OpenAgent.Projection.Reconcile

/-!
# When a projection can be written

What the tables, as they stand, have to grant so that a projection is written as it was built, and that
it then is: the rows of the session are those of the projection, and no other session has lost a row.
-/

namespace OpenAgent.Projection

open Lib List

variable {D : Type} [DecidableEq D]

/-! ### What a projection asks of the tables -/

section

variable (py : Stdlib D) (tenantId : String) (t : Tables D) (sessionId : String)

def linkable (row : ToolRow) : Bool :=
  row.idempotencyKey.bindable &&
    (row.childSessionId = .null ||
      if t.hasSession tenantId (pyStr py row.childSessionId) || pyStr py row.childSessionId = sessionId then
        row.childSessionId.bindable
      else row.childSessionId.truthy)

structure Writable (p : SessionProjection D) : Prop where
  named : p.session.id = sessionId
  unique : uniqueIds p = true
  session : (linked tenantId t p.session).accepted = true
  runs : ∀ row ∈ p.runs, row.accepted = true
  messages : ∀ row ∈ p.messages, row.accepted = true
  tools : ∀ row ∈ p.tools, linkable py tenantId t sessionId row = true
  parents : keepsParents t sessionId (removals t sessionId p) = true
  children : keepsChildren t (removals t sessionId p) = true
  freeRuns : Free runSchema t.runs sessionId (removals t sessionId p).movedRuns
    (desiredRuns tenantId sessionId 0 p.runs)
  freeMessages : Free messageSchema t.messages sessionId (removals t sessionId p).movedMessages
    (desiredMessages tenantId sessionId 0 p.messages)
  freeTools : Free toolSchema t.tools sessionId (removals t sessionId p).movedTools
    (desiredTools py tenantId t p.session sessionId 0 p.tools)

instance (p : SessionProjection D) : Decidable (Writable py tenantId t sessionId p) :=
  decidable_of_iff
    (p.session.id = sessionId ∧ uniqueIds p = true ∧ (linked tenantId t p.session).accepted = true ∧
      (∀ row ∈ p.runs, row.accepted = true) ∧ (∀ row ∈ p.messages, row.accepted = true) ∧
      (∀ row ∈ p.tools, linkable py tenantId t sessionId row = true) ∧
      keepsParents t sessionId (removals t sessionId p) = true ∧
      keepsChildren t (removals t sessionId p) = true ∧
      Free runSchema t.runs sessionId (removals t sessionId p).movedRuns
        (desiredRuns tenantId sessionId 0 p.runs) ∧
      Free messageSchema t.messages sessionId (removals t sessionId p).movedMessages
        (desiredMessages tenantId sessionId 0 p.messages) ∧
      Free toolSchema t.tools sessionId (removals t sessionId p).movedTools
        (desiredTools py tenantId t p.session sessionId 0 p.tools))
    ⟨fun ⟨hnamed, hunique, hsession, hruns, hmessages, htools, hparents, hchildren, hfreeRuns, hfreeMessages,
        hfreeTools⟩ =>
        ⟨hnamed, hunique, hsession, hruns, hmessages, htools, hparents, hchildren, hfreeRuns, hfreeMessages,
          hfreeTools⟩,
      fun h => ⟨h.named, h.unique, h.session, h.runs, h.messages, h.tools, h.parents, h.children, h.freeRuns,
        h.freeMessages, h.freeTools⟩⟩

structure Rebuilt (p : SessionProjection D) : Prop where
  runs : Holds t.runs (·.id) tenantId sessionId (ownRuns p.runs)
  messages : Holds t.messages (·.id) tenantId sessionId p.messages
  tools : Holds t.tools (·.id) tenantId sessionId (p.tools.map (toolValues py tenantId t p.session))

instance (p : SessionProjection D) : Decidable (Rebuilt py tenantId t sessionId p) :=
  decidable_of_iff
    (Holds t.runs (·.id) tenantId sessionId (ownRuns p.runs) ∧
      Holds t.messages (·.id) tenantId sessionId p.messages ∧
      Holds t.tools (·.id) tenantId sessionId (p.tools.map (toolValues py tenantId t p.session)))
    ⟨fun ⟨hruns, hmessages, htools⟩ => ⟨hruns, hmessages, htools⟩,
      fun h => ⟨h.runs, h.messages, h.tools⟩⟩

end

variable {py : Stdlib D} {tenantId sessionId : String} {t : Tables D} {p : SessionProjection D}

/-! ### The rows of a projection refer to each other -/

structure Anchored (p : SessionProjection D) : Prop where
  messages : ∀ row ∈ p.messages, row.runId ∈ p.runs.map (·.id)
  tools : ∀ row ∈ p.tools, row.sessionRunId ∈ p.runs.map (·.id)

theorem buildSessionProjection_anchored {legacy : LegacyRow} {nowMs : Int}
    (h : buildSessionProjection py legacy tenantId nowMs = .ok p) :
    Anchored p ∧ p.session.id = trim legacy.sessionId ∧ p.session.tenantId = tenantId := by
  rw [buildSessionProjection] at h
  split at h
  · cases h
  · cases hprogress : projectRuns py (context py legacy nowMs) (runsRaw py legacy).1 with
    | error text =>
      simp only [hprogress] at h
      cases h
      exact ⟨⟨fun row hrow => absurd hrow not_mem_nil, fun row hrow => absurd hrow not_mem_nil⟩,
        rfl, rfl⟩
    | ok progress =>
      simp only [hprogress] at h
      cases h
      obtain ⟨parts, hparts⟩ := projectRuns_spec hprogress
      have hrun : ∀ part ∈ parts, part.row.id ∈ progress.runs.map (·.id) := by
        intro part hpart
        rw [hparts.runs, map_map]
        exact mem_map_of_mem hpart
      refine ⟨⟨fun row hrow => ?_, fun row hrow => ?_⟩, rfl, rfl⟩
      · rw [hparts.messages] at hrow
        obtain ⟨part, hpart, hin⟩ := List.mem_flatMap.mp hrow
        obtain ⟨run, i, hpartOf⟩ := hparts.partOf hpart
        rcases List.mem_append.mp hin with hmem | hmem
        · rw [(hpartOf.message hmem).1]
          exact hrun part hpart
        · rw [(hpartOf.content row hmem).1]
          exact hrun part hpart
      · rw [hparts.tools] at hrow
        obtain ⟨part, hpart, hin⟩ := List.mem_flatMap.mp hrow
        obtain ⟨run, i, hpartOf⟩ := hparts.partOf hpart
        rw [(hpartOf.toolRun row hin).1]
        exact hrun part hpart

structure Consistent (t : Tables D) : Prop where
  messages : ∀ id stored, t.messages.get? id = some stored →
    t.ownsRun stored.sessionId stored.row.runId = true
  tools : ∀ id stored, t.tools.get? id = some stored →
    t.ownsRun stored.sessionId stored.row.sessionRunId = true

/-! ### What is removed -/

variable {id : String}

theorem mem_staleIds {α : Type} {existing : Dict String (Stored α)} {keys : List String} :
    id ∈ staleIds existing keys ↔ (∃ stored, existing.get? id = some stored) ∧ id ∉ keys := by
  have hkey : id ∈ existing.keys ↔ ∃ stored, existing.get? id = some stored := by
    rw [← Option.ne_none_iff_exists', ne_eq, Dict.get?_eq_none_iff, not_not]
  rw [staleIds, List.mem_filter, decide_eq_true_eq, hkey]

theorem mem_movedIds {α β γ : Type} [DecidableEq γ] {existing : Dict String (Stored α)} {desired : List β}
    {key : β → String} {place : α → γ} {place' : β → γ} :
    id ∈ movedIds existing desired key place place' ↔ ∃ row ∈ desired, key row = id ∧
      ∃ prior, existing.get? id = some prior ∧ place prior.row ≠ place' row := by
  simp only [movedIds, mem_map, List.mem_filter]
  constructor
  · rintro ⟨row, ⟨hrow, hany⟩, rfl⟩
    cases hprior : existing.get? (key row) with
    | none => simp [hprior] at hany
    | some prior =>
      simp only [hprior, Option.any_some, decide_eq_true_eq] at hany
      exact ⟨row, hrow, rfl, prior, rfl, hany⟩
  · rintro ⟨row, hrow, rfl, prior, hprior, hplace⟩
    exact ⟨row, ⟨hrow, by simp [hprior, hplace]⟩, rfl⟩

omit [DecidableEq D] in
theorem mem_removals_runs (h : id ∈ (removals t sessionId p).runs) :
    ∃ stored, (rowsOf t.runs sessionId).get? id = some stored := by
  rcases List.mem_append.mp h with hstale | hmoved
  · exact (mem_staleIds.mp hstale).1
  · obtain ⟨row, -, -, prior, hprior, -⟩ := mem_movedIds.mp hmoved
    exact ⟨prior, hprior⟩

omit [DecidableEq D] in
theorem not_mem_removals_runs (hdesired : id ∈ p.runs.map (·.id))
    (hstays : id ∉ (removals t sessionId p).movedRuns) : id ∉ (removals t sessionId p).runs := by
  intro h
  rcases List.mem_append.mp h with hstale | hmoved
  · exact (mem_staleIds.mp hstale).2 hdesired
  · exact hstays hmoved

variable {bare : Tables D}

omit [DecidableEq D] in
theorem cleared_runs (hbare : Removed t bare (removals t sessionId p)) :
    Cleared t.runs bare.runs sessionId (removals t sessionId p).movedRuns (p.runs.map (·.id)) where
  sub id stored h := ((hbare.runs id stored).mp h).1
  gone id hid := by
    rw [Option.eq_none_iff_forall_ne_some]
    exact fun stored h => ((hbare.runs id stored).mp h).2 (mem_append_right _ hid)
  stale id stored hget hsession hout := by
    rw [Option.eq_none_iff_forall_ne_some]
    intro other h
    have hstale : id ∈ (removals t sessionId p).staleRuns :=
      mem_staleIds.mpr ⟨⟨stored, mem_rowsOf.mpr ⟨hget, hsession⟩⟩, hout⟩
    exact ((hbare.runs id other).mp h).2 (mem_append_left _ hstale)
  stays id stored hget _ hdesired hstays :=
    (hbare.runs id stored).mpr ⟨hget, not_mem_removals_runs hdesired hstays⟩

omit [DecidableEq D] in
theorem cleared_nested {α β γ : Type} [DecidableEq γ] {table left : Dict String (Stored α)}
    {desired : List β} {key : β → String} {place : α → γ} {place' : β → γ} {runOf : α → String}
    {runOf' : β → String} (hplace : ∀ a b, place a = place' b → runOf a = runOf' b)
    (hanchored : ∀ row ∈ desired, runOf' row ∈ p.runs.map (·.id))
    (hleft : ∀ id stored, left.get? id = some stored ↔ table.get? id = some stored ∧
      id ∉ staleIds (rowsOf table sessionId) (desired.map key) ++
        (movedIds (rowsOf table sessionId) desired key place place' ++
          (desired.filter fun row => decide (runOf' row ∈ (removals t sessionId p).movedRuns)).map key) ∧
      runOf stored.row ∉ (removals t sessionId p).runs) :
    Cleared table left sessionId
      (movedIds (rowsOf table sessionId) desired key place place' ++
        (desired.filter fun row => decide (runOf' row ∈ (removals t sessionId p).movedRuns)).map key)
      (desired.map key) where
  sub id stored h := ((hleft id stored).mp h).1
  gone id hid := by
    rw [Option.eq_none_iff_forall_ne_some]
    exact fun stored h => ((hleft id stored).mp h).2.1 (mem_append_right _ hid)
  stale id stored hget hsession hout := by
    rw [Option.eq_none_iff_forall_ne_some]
    intro other h
    have hstale := mem_staleIds.mpr ⟨⟨stored, mem_rowsOf.mpr ⟨hget, hsession⟩⟩, hout⟩
    exact ((hleft id other).mp h).2.1 (mem_append_left _ hstale)
  stays id stored hget hsession hdesired hstays := by
    obtain ⟨row, hrow, rfl⟩ := List.mem_map.mp hdesired
    have hrunOf : runOf stored.row = runOf' row := by
      apply hplace
      by_contra hne
      apply hstays
      apply mem_append_left
      exact mem_movedIds.mpr ⟨row, hrow, rfl, stored, mem_rowsOf.mpr ⟨hget, hsession⟩, hne⟩
    have hrun : runOf' row ∉ (removals t sessionId p).movedRuns := by
      intro hmoved
      apply hstays
      apply mem_append_right
      exact mem_map_of_mem (List.mem_filter.mpr ⟨hrow, decide_eq_true hmoved⟩)
    refine (hleft (key row) stored).mpr ⟨hget, fun hin => ?_, ?_⟩
    · rcases List.mem_append.mp hin with hstale | hmoved
      · exact (mem_staleIds.mp hstale).2 hdesired
      · exact hstays hmoved
    · rw [hrunOf]
      exact not_mem_removals_runs (hanchored row hrow) hrun

omit [DecidableEq D] in
theorem cleared_messages (hanchored : Anchored p) (hbare : Removed t bare (removals t sessionId p)) :
    Cleared t.messages bare.messages sessionId (removals t sessionId p).movedMessages
      (p.messages.map (·.id)) :=
  cleared_nested (fun _ _ h => (Prod.mk.inj h).1) hanchored.messages hbare.messages

omit [DecidableEq D] in
theorem cleared_tools (hanchored : Anchored p) (hbare : Removed t bare (removals t sessionId p)) :
    Cleared t.tools bare.tools sessionId (removals t sessionId p).movedTools (p.tools.map (·.id)) :=
  cleared_nested (fun _ _ h => (Prod.mk.inj (Prod.mk.inj h).2).1) hanchored.tools hbare.tools

/-! ### The writing -/

/-- What writing a projection leaves: the row of the session, its nested rows, and all rows of others. -/
structure Written (py : Stdlib D) (tenantId : String) (t t' : Tables D) (sessionId : String) (version : Nat)
    (p : SessionProjection D) : Prop where
  sessions : t'.sessions = t.sessions.set sessionId ⟨version, linked tenantId t p.session⟩
  rebuilt : Rebuilt py tenantId t' sessionId p
  otherRuns : ∀ id stored, stored.sessionId ≠ sessionId →
    (t'.runs.get? id = some stored ↔ t.runs.get? id = some stored)
  otherMessages : ∀ id stored, stored.sessionId ≠ sessionId →
    (t'.messages.get? id = some stored ↔ t.messages.get? id = some stored)
  otherTools : ∀ id stored, stored.sessionId ≠ sessionId →
    (t'.tools.get? id = some stored ↔ t.tools.get? id = some stored)

theorem map_id_ownRuns (runs : List RunRow) : (ownRuns runs).map (·.id) = runs.map (·.id) := by
  rw [ownRuns, map_map]
  rfl

omit [DecidableEq D] in
theorem ownsRun_of_mem_removals {id session : String} (h : id ∈ (removals t sessionId p).runs)
    (howns : t.ownsRun session id = true) : session = sessionId := by
  obtain ⟨stored, hstored⟩ := mem_removals_runs h
  obtain ⟨hget, hsession⟩ := mem_rowsOf.mp hstored
  rw [Tables.ownsRun, hget, Option.any_some, decide_eq_true_eq] at howns
  exact howns.symm.trans hsession

theorem not_mem_of_other {α β γ σ : Type} [DecidableEq α] [DecidableEq σ] [DecidableEq γ]
    {S : Schema String σ (Stored α)} {table : Dict String (Stored α)} {removed : List String}
    {rows : List (Stored α)} {desired : List β} {key : β → String} {place : α → γ} {place' : β → γ}
    {some' : β → Bool} (h : Free S table sessionId removed rows) (hkeys : rows.map S.key = desired.map key)
    {stored : Stored α} (hget : table.get? id = some stored)
    (hne : stored.sessionId ≠ sessionId) :
    id ∉ staleIds (rowsOf table sessionId) (desired.map key) ++
      (movedIds (rowsOf table sessionId) desired key place place' ++ (desired.filter some').map key) := by
  have hrow : ∀ prior, (rowsOf table sessionId).get? id ≠ some prior := by
    intro prior hprior
    obtain ⟨hget', hsession⟩ := mem_rowsOf.mp hprior
    cases hget.symm.trans hget'
    exact hne hsession
  have hdesired : id ∉ desired.map key := by
    intro hin
    rw [← hkeys] at hin
    obtain ⟨r, hr, rfl⟩ := List.mem_map.mp hin
    exact (h.others _ (Dict.get?_eq_some_iff.mp hget) hne r hr).1 rfl
  simp only [mem_append, not_or]
  refine ⟨fun hstale => ?_, fun hmoved => ?_, fun hin => ?_⟩
  · obtain ⟨⟨prior, hprior⟩, -⟩ := mem_staleIds.mp hstale
    exact hrow prior hprior
  · obtain ⟨row, -, -, prior, hprior, -⟩ := mem_movedIds.mp hmoved
    exact hrow prior hprior
  · obtain ⟨row, hrow', rfl⟩ := List.mem_map.mp hin
    exact hdesired (mem_map_of_mem (mem_of_mem_filter hrow'))

omit [DecidableEq D] in
theorem hasSession_set {sessions : Dict String (StoredSession D)} {version : Nat} {row : SessionRow D}
    (hsessions : sessions = t.sessions.set sessionId ⟨version, row⟩) (htenant : row.tenantId = tenantId)
    {other : Tables D} (hother : other.sessions = sessions) (id : String) :
    other.hasSession tenantId id = (decide (id = sessionId) || t.hasSession tenantId id) := by
  rw [Tables.hasSession, Tables.hasSession, hother, hsessions, Dict.get?_set]
  by_cases hid : id = sessionId
  · simp [hid, htenant]
  · simp [hid]

omit [DecidableEq D] in
theorem acceptsTool_of_linkable {t₃ : Tables D} {session : SessionRow D} {version : Nat} {row : ToolRow}
    (h : linkable py tenantId t sessionId row = true)
    (hhas : ∀ id, t₃.hasSession tenantId id = (decide (id = sessionId) || t.hasSession tenantId id))
    (howns : t₃.ownsRun sessionId row.sessionRunId = true) :
    t₃.acceptsTool py ⟨tenantId, sessionId, version, toolValues py tenantId t₃ session row⟩ = true := by
  rw [linkable, Bool.and_eq_true, Bool.or_eq_true, decide_eq_true_eq] at h
  obtain ⟨hkey, hchild⟩ := h
  have hsession : t₃.hasSession tenantId sessionId = true := by simp [hhas]
  have hrun : (row.childRunId.filter (t₃.hasRun tenantId)).all (t₃.hasRun tenantId) = true := by
    cases row.childRunId with
    | none => rfl
    | some child => by_cases hc : t₃.hasRun tenantId child = true <;> simp [Option.filter, hc]
  rw [Tables.acceptsTool, toolValues]
  dsimp only
  rw [hkey, hsession, howns, hrun, Bool.and_self, Bool.and_self, Bool.and_self, Bool.true_and, Bool.or_eq_true,
    decide_eq_true_eq]
  rcases hchild with hnull | hchild
  · left
    simp [hnull]
  · by_cases hknown : t₃.hasSession tenantId (pyStr py row.childSessionId) = true
    · right
      have hbindable : row.childSessionId.bindable = true := by
        rw [hhas, Bool.or_comm] at hknown
        rw [if_pos (by simpa using hknown)] at hchild
        exact hchild
      simp [hknown, hbindable]
    · left
      have htruthy : row.childSessionId.truthy = true := by
        rw [hhas, Bool.or_comm] at hknown
        rw [if_neg (by simpa using hknown)] at hchild
        exact hchild
      simp [hknown, htruthy]

omit [DecidableEq D] in
theorem writeProjection_of_writable (hanchored : Anchored p) (htenant : p.session.tenantId = tenantId)
    (hconsistent : Consistent t) (h : Writable py tenantId t sessionId p) (version : Nat) :
    ∃ t', writeProjection py tenantId t sessionId p version = some t' ∧
      Written py tenantId t t' sessionId version p := by
  obtain ⟨bare, happly, hbare⟩ := applyRemovals_eq (fun _ hid => mem_removals_runs hid) h.parents h.children
  generalize hsession : linked tenantId t p.session = session
  have hsessionTenant : session.tenantId = tenantId := by rw [← hsession]; exact htenant
  have hsessionId : session.id = sessionId := by rw [← hsession]; exact h.named
  generalize ht₁ : ({ bare with sessions := bare.sessions.set session.id ⟨version, session⟩ } : Tables D) = t₁
  have hsessions₁ : t₁.sessions = t.sessions.set sessionId ⟨version, session⟩ := by
    rw [← ht₁, hsessionId, hbare.sessions]
  have hhas₁ : ∀ id, t₁.hasSession tenantId id = (decide (id = sessionId) || t.hasSession tenantId id) :=
    hasSession_set hsessions₁ hsessionTenant rfl
  -- The runs.
  obtain ⟨runs, hruns, hheldRuns, hotherRuns⟩ :
      ∃ runs, runSchema.sync t₁.acceptsRun (rowsOf t.runs sessionId) (removals t sessionId p).movedRuns t₁.runs
          (desiredRuns tenantId sessionId version p.runs) = some runs ∧
        Holds runs (·.id) tenantId sessionId (ownRuns p.runs) ∧
        ∀ id stored, stored.sessionId ≠ sessionId → (runs.get? id = some stored ↔ t₁.runs.get? id = some stored) := by
    have hfree : Free runSchema t.runs sessionId (removals t sessionId p).movedRuns
        ((ownRuns p.runs).map fun row => ⟨tenantId, sessionId, version, row⟩) :=
      Free.congr (f := fun row => ⟨tenantId, sessionId, 0, row⟩) (fun _ => rfl) (fun _ => rfl) h.freeRuns
    have hcleared := cleared_runs hbare
    rw [← map_id_ownRuns] at hcleared
    rw [← ht₁]
    refine hfree.sync (fun _ => rfl) rfl hcleared fun row hrow => ?_
    rw [ht₁, Tables.acceptsRun, hhas₁]
    obtain ⟨raw, hraw, rfl⟩ := List.mem_map.mp hrow
    have haccepted : RunRow.accepted
        { raw with parentRunId := raw.parentRunId.filter fun parent => decide (parent ∈ p.runs.map (·.id)) }
        = true := h.runs raw hraw
    rw [haccepted]
    simp
  generalize ht₂ : ({ t₁ with runs } : Tables D) = t₂
  have hruns₂ : t₂.runs = runs := by rw [← ht₂]
  have hsessions₂ : t₂.sessions = t₁.sessions := by rw [← ht₂]
  have hhas₂ := hasSession_set hsessions₁ hsessionTenant hsessions₂
  have howns : ∀ id, id ∈ p.runs.map (·.id) → t₂.ownsRun sessionId id = true := by
    intro id hid
    rw [← map_id_ownRuns] at hid
    obtain ⟨row, hrow, rfl⟩ := List.mem_map.mp hid
    obtain ⟨version', hget⟩ := hheldRuns.noneMissing row hrow
    rw [Tables.ownsRun, hruns₂, hget, Option.any_some, decide_eq_true_eq]
  -- The messages, which find their runs there.
  obtain ⟨messages, hmessages, hheldMessages, hotherMessages⟩ :
      ∃ messages, messageSchema.sync t₂.acceptsMessage (rowsOf t.messages sessionId)
          (removals t sessionId p).movedMessages t₂.messages
          (desiredMessages tenantId sessionId version p.messages) = some messages ∧
        Holds messages (·.id) tenantId sessionId p.messages ∧
        ∀ id stored, stored.sessionId ≠ sessionId →
          (messages.get? id = some stored ↔ t₂.messages.get? id = some stored) := by
    have hfree : Free messageSchema t.messages sessionId (removals t sessionId p).movedMessages
        (p.messages.map fun row => ⟨tenantId, sessionId, version, row⟩) :=
      Free.congr (f := fun row => ⟨tenantId, sessionId, 0, row⟩) (fun _ => rfl) (fun _ => rfl) h.freeMessages
    have hmessages₂ : t₂.messages = bare.messages := by rw [← ht₂, ← ht₁]
    rw [hmessages₂]
    refine hfree.sync (fun _ => rfl) rfl (cleared_messages hanchored hbare) fun row hrow => ?_
    rw [Tables.acceptsMessage, hhas₂, howns _ (hanchored.messages row hrow), h.messages row hrow]
    simp
  generalize ht₃ : ({ t₂ with messages } : Tables D) = t₃
  have hruns₃ : t₃.runs = runs := by rw [← ht₃, hruns₂]
  have hsessions₃ : t₃.sessions = t₁.sessions := by rw [← ht₃, hsessions₂]
  have hhas₃ := hasSession_set hsessions₁ hsessionTenant hsessions₃
  -- The tools, whose links go to what is there by now.
  obtain ⟨tools, htools, hheldTools, hotherTools⟩ :
      ∃ tools, toolSchema.sync (t₃.acceptsTool py) (rowsOf t.tools sessionId)
          (removals t sessionId p).movedTools t₃.tools
          (desiredTools py tenantId t₃ session sessionId version p.tools) = some tools ∧
        Holds tools (·.id) tenantId sessionId (p.tools.map (toolValues py tenantId t₃ session)) ∧
        ∀ id stored, stored.sessionId ≠ sessionId →
          (tools.get? id = some stored ↔ t₃.tools.get? id = some stored) := by
    have hfree : Free toolSchema t.tools sessionId (removals t sessionId p).movedTools
        ((p.tools.map (toolValues py tenantId t₃ session)).map
          fun row => ⟨tenantId, sessionId, version, row⟩) := by
      rw [map_map]
      exact Free.congr (f := fun row => ⟨tenantId, sessionId, 0, toolValues py tenantId t p.session row⟩)
        (fun _ => rfl) (fun _ => rfl) h.freeTools
    have hcleared := cleared_tools hanchored hbare
    have hkeys : p.tools.map (·.id) = (p.tools.map (toolValues py tenantId t₃ session)).map (·.id) := by
      rw [map_map]
      rfl
    rw [hkeys] at hcleared
    have htools₃ : t₃.tools = bare.tools := by rw [← ht₃, ← ht₂, ← ht₁]
    have hdesired : desiredTools py tenantId t₃ session sessionId version p.tools
        = (p.tools.map (toolValues py tenantId t₃ session)).map
          fun row => ⟨tenantId, sessionId, version, row⟩ := by
      rw [map_map]
      rfl
    rw [htools₃, hdesired]
    refine hfree.sync (fun _ => rfl) rfl hcleared fun row hrow => ?_
    obtain ⟨raw, hraw, rfl⟩ := List.mem_map.mp hrow
    apply acceptsTool_of_linkable (h.tools raw hraw) hhas₃
    rw [Tables.ownsRun, hruns₃, ← hruns₂]
    exact howns _ (hanchored.tools raw hraw)
  generalize ht₄ : ({ t₃ with tools } : Tables D) = t₄
  have hruns₄ : t₄.runs = runs := by rw [← ht₄, hruns₃]
  have hparents : parentsPresent t₄ sessionId = true := by
    rw [parentsPresent, all_eq_true]
    intro e he
    obtain ⟨hget, hsessionE⟩ := mem_rowsOf.mp (Dict.get?_eq_some_iff.mpr he)
    rw [hruns₄] at hget
    obtain ⟨-, hrow, -⟩ := hheldRuns.noneStale e.1 e.2 hget hsessionE
    obtain ⟨raw, -, hraw⟩ := List.mem_map.mp hrow
    cases hparent : e.2.row.parentRunId with
    | none => rfl
    | some parent =>
      have hin : parent ∈ p.runs.map (·.id) := by
        rw [← hraw] at hparent
        exact of_decide_eq_true (Option.filter_eq_some_iff.mp hparent).2
      have hparentOwned := howns parent hin
      rw [Tables.ownsRun, hruns₂] at hparentOwned
      rw [Option.all_some, Tables.ownsRun, hruns₄]
      exact hparentOwned
  have hwrite : writeProjection py tenantId t sessionId p version = some t₄ := by
    have haccepted : session.accepted = true := hsession ▸ h.session
    have hform₂ : (⟨bare.sessions.set session.id ⟨version, session⟩, runs, bare.messages, bare.tools⟩ : Tables D)
        = t₂ := by rw [← ht₂, ← ht₁]
    have hform₃ : (⟨bare.sessions.set session.id ⟨version, session⟩, runs, messages, bare.tools⟩ : Tables D)
        = t₃ := by rw [← ht₃, ← hform₂]
    have hform₄ : (⟨bare.sessions.set session.id ⟨version, session⟩, runs, messages, tools⟩ : Tables D)
        = t₄ := by rw [← ht₄, ← hform₃]
    rw [← ht₁] at hruns
    rw [← hform₂] at hmessages
    rw [← hform₃] at htools
    dsimp only at hruns hmessages htools
    simp only [writeProjection, happly, hsession, hruns, hmessages, htools, haccepted, hparents, guard,
      Option.bind_eq_bind, Option.bind_some, if_true, Option.pure_def, hform₄]
  have hlinks : toolValues py tenantId t₃ session = toolValues py tenantId t₄ p.session := by
    rw [← ht₄, ← hsession]
    rfl
  rw [hlinks] at hheldTools
  refine ⟨t₄, hwrite, ⟨?_, ⟨?_, ?_, ?_⟩, fun id stored hne => ?_, fun id stored hne => ?_, fun id stored hne => ?_⟩⟩
  · rw [hsession, ← hsessions₁, ← hsessions₃, ← ht₄]
  · rw [hruns₄]
    exact hheldRuns
  · rw [← ht₄, ← ht₃]
    exact hheldMessages
  · rw [← ht₄] at hheldTools ⊢
    exact hheldTools
  · have hkeep : t.runs.get? id = some stored → id ∉ (removals t sessionId p).runs := by
      intro hget hin
      have howned : t.ownsRun stored.sessionId id = true := by
        rw [Tables.ownsRun, hget, Option.any_some, decide_eq_true_eq]
      exact hne (ownsRun_of_mem_removals hin howned)
    rw [hruns₄, hotherRuns id stored hne, ← ht₁, hbare.runs]
    exact ⟨fun hin => hin.1, fun hget => ⟨hget, hkeep hget⟩⟩
  · have hmessages₂ : t₂.messages = bare.messages := by rw [← ht₂, ← ht₁]
    rw [← ht₄, ← ht₃, hotherMessages id stored hne, hmessages₂, hbare.messages]
    refine ⟨fun hin => hin.1, fun hget => ⟨hget, ?_, fun hin => ?_⟩⟩
    · refine not_mem_of_other h.freeMessages ?_ hget hne
      rw [desiredMessages, map_map]
      rfl
    · exact hne (ownsRun_of_mem_removals hin (hconsistent.messages id stored hget))
  · have htools₃ : t₃.tools = bare.tools := by rw [← ht₃, ← ht₂, ← ht₁]
    rw [← ht₄, hotherTools id stored hne, htools₃, hbare.tools]
    refine ⟨fun hin => hin.1, fun hget => ⟨hget, ?_, fun hin => ?_⟩⟩
    · refine not_mem_of_other h.freeTools ?_ hget hne
      rw [desiredTools, map_map]
      rfl
    · exact hne (ownsRun_of_mem_removals hin (hconsistent.tools id stored hget))

end OpenAgent.Projection
