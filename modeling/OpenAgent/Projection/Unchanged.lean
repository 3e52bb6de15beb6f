import OpenAgent.Projection.Build

/-!
# What an unchanged source means

The digest of a legacy row covers every column that its nested rows are made from, as it was parsed. Two
rows with one digest therefore ask for the same runs, messages and tools, unless the clock stands in for
a creation time that neither of them has.
-/

namespace OpenAgent.Projection

variable {D : Type} {py : Stdlib D} {legacy legacy' : LegacyRow} {tenantId : String} {nowMs nowMs' : Int}

theorem jsonText_injective {a b : Option String} (h : jsonText a = jsonText b) : a = b := by
  cases a with
  | none =>
    cases b with
    | none => rfl
    | some s => cases h
  | some s =>
    cases b with
    | none => cases h
    | some s' => exact congrArg some (Json.str.inj h)

theorem jsonInt_injective {a b : Option Int} (h : jsonInt a = jsonInt b) : a = b := by
  cases a with
  | none =>
    cases b with
    | none => rfl
    | some n => cases h
  | some n =>
    cases b with
    | none => cases h
    | some m => exact congrArg some (Int.cast_injective (Json.num.inj h))

def Context.read (ctx : Context) : Context :=
  { ctx with header :=
      { sessionType := ctx.header.sessionType
        agentId := ctx.header.agentId
        teamId := ctx.header.teamId
        workflowId := ctx.header.workflowId } }

theorem runRow_read (ctx : Context) : runRow py ctx.read = runRow py ctx := by
  funext ordinal run lifecycle envelope
  rw [runRow, runRow, runId, runId]
  rfl

theorem contentRows_read (ctx : Context) : contentRows py ctx.read = contentRows py ctx := by
  funext frame run messages
  rfl

theorem toolRow_read (ctx : Context) : toolRow py ctx.read = toolRow py ctx := by
  funext run ordinal position tool
  simp only [toolRow, Context.read]

theorem toolRows_read (ctx : Context) (frame : RunFrame) (before position : Nat) (tools : List Json) :
    toolRows py ctx.read frame before position tools = toolRows py ctx frame before position tools := by
  induction tools generalizing before position with
  | nil => rfl
  | cons tool rest ih =>
    rw [toolRows, toolRows, ih, ih, toolRow_read]

section

variable [DecidableEq D]

theorem messageLoop_read (ctx : Context) : messageLoop py ctx.read = messageLoop py ctx := by
  funext frame seen before messages
  rfl

theorem projectRun_read (ctx : Context) : projectRun py ctx.read = projectRun py ctx := by
  funext progress entry
  rw [projectRun, projectRun]
  simp only [toolRows_read, runRow_read, messageLoop_read, contentRows_read]

theorem projectRuns_congr {ctx ctx' : Context} (h : ctx.read = ctx'.read) (runs : List Json) :
    projectRuns py ctx runs = projectRuns py ctx' runs := by
  rw [projectRuns, projectRuns, ← projectRun_read ctx, h, projectRun_read]

end

theorem ms_jsonInt (n : Int) (clock clock' : Int) : ms py (jsonInt (some n)) clock = ms py (jsonInt (some n)) clock' :=
  rfl

structure SameSource (py : Stdlib D) (legacy legacy' : LegacyRow) : Prop where
  sessionId : trim legacy.sessionId = trim legacy'.sessionId
  sessionType : legacy.sessionType = legacy'.sessionType
  agentId : legacy.agentId = legacy'.agentId
  teamId : legacy.teamId = legacy'.teamId
  workflowId : legacy.workflowId = legacy'.workflowId
  metadata : dictColumn py legacy.metadata = dictColumn py legacy'.metadata
  sessionData : dictColumn py legacy.sessionData = dictColumn py legacy'.sessionData
  runs : (runsRaw py legacy).1 = (runsRaw py legacy').1
  createdAt : legacy.createdAt = legacy'.createdAt
  updatedAt : legacy.updatedAt = legacy'.updatedAt

theorem sameSource_of_sourceParts (h : sourceParts py legacy = sourceParts py legacy') :
    SameSource py legacy legacy' := by
  simp only [sourceParts, List.cons.injEq, Json.str.injEq, Json.arr.injEq, and_true] at h
  obtain ⟨hid, htype, hagent, hteam, hworkflow, -, hmetadata, hdata, -, -, -, hruns, -, hcreated, hupdated⟩ := h
  exact ⟨hid, jsonText_injective htype, jsonText_injective hagent, jsonText_injective hteam,
    jsonText_injective hworkflow, hmetadata, hdata, hruns, jsonInt_injective hcreated,
    jsonInt_injective hupdated⟩

theorem SameSource.updatedMs (h : SameSource py legacy legacy') (hcreated : legacy.createdAt.isSome = true) :
    Projection.updatedMs py legacy nowMs = Projection.updatedMs py legacy' nowMs' := by
  obtain ⟨n, hn⟩ := Option.isSome_iff_exists.mp hcreated
  have hn' : legacy'.createdAt = some n := h.createdAt ▸ hn
  have hclock : createdMs py legacy nowMs = createdMs py legacy' nowMs' := by
    rw [createdMs, createdMs, hn, hn']
    exact ms_jsonInt n nowMs nowMs'
  rw [Projection.updatedMs, Projection.updatedMs, hclock, h.updatedAt]

theorem SameSource.context (h : SameSource py legacy legacy') (hcreated : legacy.createdAt.isSome = true) :
    (Projection.context py legacy nowMs).read = (Projection.context py legacy' nowMs').read := by
  have hupdated : Projection.updatedMs py legacy nowMs = Projection.updatedMs py legacy' nowMs' :=
    h.updatedMs hcreated
  simp only [Projection.context, Context.read, hupdated, h.sessionId, h.sessionType, h.agentId, h.teamId,
    h.workflowId, h.metadata]

theorem buildSessionProjection_session [DecidableEq D] {p : SessionProjection D}
    (h : buildSessionProjection py legacy tenantId nowMs = .ok p) :
    trim legacy.sessionId ≠ "" ∧ p.sourceHash = py.digest (sourceParts py legacy) ∧
      ∃ malformed note, p.session = sessionRow py legacy tenantId nowMs malformed note := by
  rw [buildSessionProjection] at h
  split at h
  · cases h
  · rename_i hnamed
    cases hprogress : projectRuns py (Projection.context py legacy nowMs) (runsRaw py legacy).1 with
    | error text =>
      simp only [hprogress] at h
      cases h
      exact ⟨hnamed, rfl, _, _, rfl⟩
    | ok progress =>
      simp only [hprogress] at h
      cases h
      exact ⟨hnamed, rfl, _, _, rfl⟩

theorem owner_sessionRow (malformed note malformed' note' : Option String)
    (h : (Projection.context py legacy nowMs).ownerRaw = (Projection.context py legacy' nowMs').ownerRaw) :
    (sessionRow py legacy tenantId nowMs malformed note).ownerPrincipalId =
        (sessionRow py legacy' tenantId nowMs' malformed' note').ownerPrincipalId ∧
      (sessionRow py legacy tenantId nowMs malformed note).visibility =
        (sessionRow py legacy' tenantId nowMs' malformed' note').visibility ∧
      (sessionRow py legacy tenantId nowMs malformed note).aclVersion =
        (sessionRow py legacy' tenantId nowMs' malformed' note').aclVersion := by
  rw [sessionRow, sessionRow]
  dsimp only
  rw [h]
  exact ⟨rfl, rfl, rfl⟩

theorem SameSource.rows [DecidableEq D] {p p' : SessionProjection D} (h : SameSource py legacy legacy')
    (hcreated : legacy.createdAt.isSome = true)
    (hbuild : buildSessionProjection py legacy tenantId nowMs = .ok p)
    (hbuild' : buildSessionProjection py legacy' tenantId nowMs' = .ok p') :
    p.runs = p'.runs ∧ p.messages = p'.messages ∧ p.tools = p'.tools ∧
      p.session.ownerPrincipalId = p'.session.ownerPrincipalId ∧
      p.session.visibility = p'.session.visibility ∧ p.session.aclVersion = p'.session.aclVersion := by
  have hctx : projectRuns py (Projection.context py legacy nowMs) (runsRaw py legacy).1
      = projectRuns py (Projection.context py legacy' nowMs') (runsRaw py legacy').1 := by
    rw [projectRuns_congr (h.context hcreated), h.runs]
  have howner : (Projection.context py legacy nowMs).ownerRaw = (Projection.context py legacy' nowMs').ownerRaw := by
    rw [Projection.context, Projection.context, h.metadata]
  rw [buildSessionProjection] at hbuild hbuild'
  rw [hctx] at hbuild
  split at hbuild
  · cases hbuild
  · split at hbuild'
    · cases hbuild'
    · cases hprogress : projectRuns py (Projection.context py legacy' nowMs') (runsRaw py legacy').1 with
      | error text =>
        simp only [hprogress] at hbuild hbuild'
        cases hbuild
        cases hbuild'
        exact ⟨rfl, rfl, rfl, owner_sessionRow _ _ _ _ howner⟩
      | ok progress =>
        simp only [hprogress] at hbuild hbuild'
        cases hbuild
        cases hbuild'
        exact ⟨rfl, rfl, rfl, owner_sessionRow _ _ _ _ howner⟩

end OpenAgent.Projection
