import OpenAgent.Projection.Unchanged
import OpenAgent.Projection.Writable
import OpenAgent.Projection.RoundTrip
import OpenAgent.Lib.Transition

/-!
# Incremental projection is a rebuild

A run projects sessions one after another, from empty tables, each from the legacy row it has by then or
from none. The tables then hold for every session what its last projection asked for, and a projection
that finds its source unchanged has nothing to write. A kept run that hung below a deleted one is the
exception: the delete takes it along, and it is not written again.
-/

namespace OpenAgent.Projection

open Lib Bool

variable {D : Type} [DecidableEq D]

section

variable (py : Stdlib D) (tenantId : String)

/-- One call of `project_legacy_session`. -/
structure Step where
  sessionId : String
  legacy : Option LegacyRow
  nowMs : Int

def step (t : Tables D) (a : Step) : Option (Tables D) :=
  some (((projectLegacySession py tenantId t a.sessionId a.legacy a.nowMs).map Prod.fst).getD t)

/-- The tables grant a projection what it needs: where the source is unchanged nothing but a creation
time, and otherwise that it can be written. -/
def granted (t : Tables D) (a : Step) : Bool :=
  match a.legacy with
  | none => true
  | some legacy =>
    match buildSessionProjection py legacy tenantId a.nowMs with
    | .error _ => true
    | .ok p =>
      legacy.sessionId ≠ a.sessionId ||
        if (t.sessions.get? a.sessionId).any fun stored => upToDate stored p then legacy.createdAt.isSome
        else decide (Writable py tenantId t a.sessionId p)

/-- A stored session goes back to a legacy row, and its nested rows are those of that row's projection;
`t₀` is what the links of its tools were resolved by. -/
structure Traced (t : Tables D) (sessionId : String) (stored : StoredSession D) : Prop where
  tenant : stored.row.tenantId = tenantId
  unowned : stored.row.metadata.runtimeContract = false
  source : ∃ (legacy : LegacyRow) (nowMs : Int) (p : SessionProjection D) (t₀ : Tables D),
    buildSessionProjection py legacy tenantId nowMs = .ok p ∧
    stored.row.legacySourceHash = some p.sourceHash ∧
    Holds t.runs (·.id) tenantId sessionId (ownRuns p.runs) ∧
    Holds t.messages (·.id) tenantId sessionId p.messages ∧
    Holds t.tools (·.id) tenantId sessionId (p.tools.map (toolValues py tenantId t₀ p.session))

/-- Every stored row belongs to a stored session, and every session goes back to a legacy row. -/
structure Inv (t : Tables D) : Prop where
  runs : ∀ id stored, t.runs.get? id = some stored → (t.sessions.get? stored.sessionId).isSome = true
  messages : ∀ id stored, t.messages.get? id = some stored → (t.sessions.get? stored.sessionId).isSome = true
  tools : ∀ id stored, t.tools.get? id = some stored → (t.sessions.get? stored.sessionId).isSome = true
  traced : ∀ sessionId stored, t.sessions.get? sessionId = some stored → Traced py tenantId t sessionId stored

end

variable {py : Stdlib D} {tenantId sessionId : String} {t t' : Tables D} {p : SessionProjection D}

/-! ### The invariant -/

omit [DecidableEq D] in
theorem Holds.frame {α : Type} {table table' : Dict String (Stored α)} {key : α → String} {rows : List α}
    (h : Holds table key tenantId sessionId rows)
    (hsame : ∀ id stored, stored.sessionId = sessionId →
      (table'.get? id = some stored ↔ table.get? id = some stored)) :
    Holds table' key tenantId sessionId rows where
  noneStale id stored hget hsession := h.noneStale id stored ((hsame id stored hsession).mp hget) hsession
  noneMissing row hrow := by
    obtain ⟨version, hget⟩ := h.noneMissing row hrow
    exact ⟨version, (hsame _ _ rfl).mpr hget⟩

theorem Inv.ownsRun (h : Inv py tenantId t) {session : String} {stored : StoredSession D}
    (hstored : t.sessions.get? session = some stored) :
    ∃ p : SessionProjection D, Anchored p ∧ Holds t.messages (·.id) tenantId session p.messages ∧
      (∃ t₀, Holds t.tools (·.id) tenantId session (p.tools.map (toolValues py tenantId t₀ p.session))) ∧
      ∀ id ∈ p.runs.map (·.id), t.ownsRun session id = true := by
  obtain ⟨legacy, nowMs, p, t₀, hbuild, -, hruns, hmessages, htools⟩ := (h.traced session stored hstored).source
  refine ⟨p, (buildSessionProjection_anchored hbuild).1, hmessages, ⟨t₀, htools⟩, fun id hid => ?_⟩
  rw [← map_id_ownRuns] at hid
  obtain ⟨row, hrow, rfl⟩ := List.mem_map.mp hid
  obtain ⟨version, hget⟩ := hruns.noneMissing row hrow
  rw [Tables.ownsRun, hget, Option.any_some, decide_eq_true_eq]

theorem Inv.consistent (h : Inv py tenantId t) : Consistent t where
  messages id stored hget := by
    obtain ⟨session, hsession⟩ := Option.isSome_iff_exists.mp (h.messages id stored hget)
    obtain ⟨p, hanchored, hmessages, -, howns⟩ := h.ownsRun hsession
    obtain ⟨-, hrow, -⟩ := hmessages.noneStale id stored hget rfl
    exact howns _ (hanchored.messages _ hrow)
  tools id stored hget := by
    obtain ⟨session, hsession⟩ := Option.isSome_iff_exists.mp (h.tools id stored hget)
    obtain ⟨p, hanchored, -, ⟨t₀, htools⟩, howns⟩ := h.ownsRun hsession
    obtain ⟨-, hrow, -⟩ := htools.noneStale id stored hget rfl
    obtain ⟨raw, hraw, heq⟩ := List.mem_map.mp hrow
    rw [← heq]
    exact howns _ (hanchored.tools raw hraw)

theorem inv_tombstone (h : Inv py tenantId t) (nowMs : Int) :
    Inv py tenantId (tombstoneSession t sessionId nowMs) := by
  rw [tombstoneSession]
  split
  · exact h
  · rename_i stored hstored
    split
    · exact h
    · have hthere : ∀ session, (t.sessions.get? session).isSome = true →
          ((t.sessions.set sessionId ⟨stored.sourceVersion + 1, stored.row.tombstone nowMs⟩).get?
            session).isSome = true := by
        intro session hsome
        rw [Dict.get?_set]
        split
        · rfl
        · exact hsome
      refine ⟨fun id row hget => hthere _ (h.runs id row hget), fun id row hget => hthere _ (h.messages id row hget),
        fun id row hget => hthere _ (h.tools id row hget), fun session row hget => ?_⟩
      have htraced := h.traced
      rw [Dict.get?_set] at hget
      split at hget
      · rename_i heq
        cases hget
        rw [heq]
        exact ⟨(htraced _ _ hstored).tenant, (htraced _ _ hstored).unowned, (htraced _ _ hstored).source⟩
      · exact ⟨(htraced _ _ hget).tenant, (htraced _ _ hget).unowned, (htraced _ _ hget).source⟩

theorem inv_written {legacy : LegacyRow} {nowMs : Int} {version : Nat} (h : Inv py tenantId t)
    (hbuild : buildSessionProjection py legacy tenantId nowMs = .ok p)
    (hwritten : Written py tenantId t t' sessionId version p) : Inv py tenantId t' := by
  obtain ⟨-, hhash, malformed, note, hsession⟩ := buildSessionProjection_session hbuild
  have hthere : ∀ session, session ≠ sessionId → (t.sessions.get? session).isSome = true →
      (t'.sessions.get? session).isSome = true := by
    intro session hne hsome
    rw [hwritten.sessions, Dict.get?_set_ne _ _ hne]
    exact hsome
  have hown : (t'.sessions.get? sessionId).isSome = true := by
    rw [hwritten.sessions, Dict.get?_set_self]
    rfl
  refine ⟨fun id row hget => ?_, fun id row hget => ?_, fun id row hget => ?_, fun session stored hget => ?_⟩
  · by_cases hrow : row.sessionId = sessionId
    · rw [hrow]
      exact hown
    · exact hthere _ hrow (h.runs id row ((hwritten.otherRuns id row hrow).mp hget))
  · by_cases hrow : row.sessionId = sessionId
    · rw [hrow]
      exact hown
    · exact hthere _ hrow (h.messages id row ((hwritten.otherMessages id row hrow).mp hget))
  · by_cases hrow : row.sessionId = sessionId
    · rw [hrow]
      exact hown
    · exact hthere _ hrow (h.tools id row ((hwritten.otherTools id row hrow).mp hget))
  · by_cases hsame : session = sessionId
    · subst hsame
      rw [hwritten.sessions, Dict.get?_set_self] at hget
      cases hget
      refine ⟨?_, ?_, legacy, nowMs, p, t', hbuild, ?_, hwritten.rebuilt.runs, hwritten.rebuilt.messages,
        hwritten.rebuilt.tools⟩
      · exact (buildSessionProjection_anchored hbuild).2.2
      · show p.session.metadata.runtimeContract = false
        rw [hsession]
        rfl
      · show p.session.legacySourceHash = some p.sourceHash
        rw [hsession, hhash]
        rfl
    · rw [hwritten.sessions, Dict.get?_set_ne _ _ hsame] at hget
      obtain ⟨htenant, hunowned, legacy', nowMs', p', t₀, hbuild', hhash, hruns, hmessages, htools⟩ :=
        h.traced session stored hget
      refine ⟨htenant, hunowned, legacy', nowMs', p', t₀, hbuild', hhash, hruns.frame fun id row hrow => ?_,
        hmessages.frame fun id row hrow => ?_, htools.frame fun id row hrow => ?_⟩
      · exact hwritten.otherRuns id row (hrow ▸ hsame)
      · exact hwritten.otherMessages id row (hrow ▸ hsame)
      · exact hwritten.otherTools id row (hrow ▸ hsame)

/-! ### One projection -/

omit [DecidableEq D] in
theorem toolValues_of_no_links {row : ToolRow} {session session' : SessionRow D} {t₀ : Tables D}
    (hrun : row.childRunId = none) (hchild : row.childSessionId.truthy = false)
    (howner : session.ownerPrincipalId = session'.ownerPrincipalId)
    (hvisibility : session.visibility = session'.visibility) (hacl : session.aclVersion = session'.aclVersion) :
    toolValues py tenantId t session row = toolValues py tenantId t₀ session' row := by
  rw [toolValues, toolValues, hrun, hchild, howner, hvisibility, hacl]
  rfl

theorem rebuilt_of_upToDate (hpy : py.CollisionFree) {legacy : LegacyRow} {nowMs : Int}
    {stored : StoredSession D} (htraced : Traced py tenantId t sessionId stored)
    (hbuild : buildSessionProjection py legacy tenantId nowMs = .ok p) (hcurrent : upToDate stored p = true)
    (hcreated : legacy.createdAt.isSome = true) : Rebuilt py tenantId t sessionId p := by
  obtain ⟨legacy', nowMs', p', t₀, hbuild', hhash', hruns, hmessages, htools⟩ := htraced.source
  simp only [upToDate, and_eq_true, decide_eq_true_eq, not_eq_true'] at hcurrent
  obtain ⟨⟨⟨-, hhash⟩, -⟩, hlinks⟩ := hcurrent
  obtain ⟨-, hdigest, -⟩ := buildSessionProjection_session hbuild
  obtain ⟨-, hdigest', -⟩ := buildSessionProjection_session hbuild'
  rw [hhash', Option.some.injEq, hdigest, hdigest'] at hhash
  have hsource := sameSource_of_sourceParts (hpy _ _ hhash.symm)
  obtain ⟨hruns', hmessages', htools', howner, hvisibility, hacl⟩ := hsource.rows hcreated hbuild hbuild'
  refine ⟨hruns' ▸ hruns, hmessages' ▸ hmessages, ?_⟩
  rw [hasDeferredLinks, or_eq_false_iff, List.any_eq_false] at hlinks
  have hsame : p.tools.map (toolValues py tenantId t p.session)
      = p'.tools.map (toolValues py tenantId t₀ p'.session) := by
    rw [← htools']
    refine List.map_congr_left fun row hrow => ?_
    have hnone := hlinks.2 row hrow
    rw [not_eq_true, or_eq_false_iff] at hnone
    exact toolValues_of_no_links (Option.isSome_eq_false_iff.mp hnone.2 |> Option.isNone_iff_eq_none.mp) hnone.1
      howner hvisibility hacl
  rw [hsame]
  exact htools

theorem Inv.unowned (hinv : Inv py tenantId t) (sessionId : String) :
    ((t.sessions.get? sessionId).any fun stored => ownedByRuntime stored.row) = false := by
  cases hstored : t.sessions.get? sessionId with
  | none => rfl
  | some stored => simp [ownedByRuntime, (hinv.traced _ stored hstored).unowned]

theorem projectLegacySession_of_error (hinv : Inv py tenantId t) {legacy : LegacyRow} {nowMs : Int}
    {text : String} (hbuild : buildSessionProjection py legacy tenantId nowMs = .error text) :
    projectLegacySession py tenantId t legacy.sessionId (some legacy) nowMs = none := by
  simp [projectLegacySession, hinv.unowned, hbuild]

theorem projectLegacySession_of_granted (hpy : py.CollisionFree) (hinv : Inv py tenantId t)
    {legacy : LegacyRow} {nowMs : Int} (hbuild : buildSessionProjection py legacy tenantId nowMs = .ok p)
    (hgranted : granted py tenantId t ⟨legacy.sessionId, some legacy, nowMs⟩ = true) :
    ∃ t' outcome, projectLegacySession py tenantId t legacy.sessionId (some legacy) nowMs = some (t', outcome) ∧
      Rebuilt py tenantId t' legacy.sessionId p ∧ Inv py tenantId t' := by
  simp only [granted, hbuild] at hgranted
  simp only [projectLegacySession, ne_eq, not_true_eq_false, if_false, hinv.unowned, false_eq_true, hbuild,
    projectBuilt]
  by_cases hcurrent : ((t.sessions.get? legacy.sessionId).any fun stored => upToDate stored p) = true
  · rw [hcurrent] at hgranted
    cases hstored : t.sessions.get? legacy.sessionId with
    | none =>
      simp [hstored] at hcurrent
    | some stored =>
      rw [hstored, Option.any_some] at hcurrent
      have htraced := hinv.traced _ stored hstored
      refine ⟨t, .unchanged stored.sourceVersion, ?_, ?_, hinv⟩
      · simp [htraced.tenant, hcurrent]
      · exact rebuilt_of_upToDate hpy htraced hbuild hcurrent (by simpa using hgranted)
  · rw [not_eq_true] at hcurrent
    rw [hcurrent] at hgranted
    have hwritable : Writable py tenantId t legacy.sessionId p := by simpa using hgranted
    obtain ⟨hanchored, -, htenant⟩ := buildSessionProjection_anchored hbuild
    obtain ⟨t', hwrite, hwritten⟩ := writeProjection_of_writable hanchored htenant hinv.consistent hwritable
      (nextVersion t legacy.sessionId)
    refine ⟨t', .written (nextVersion t legacy.sessionId) p.sourceHash p.session.completeness, ?_,
      hwritten.rebuilt, inv_written hinv hbuild hwritten⟩
    cases hstored : t.sessions.get? legacy.sessionId with
    | none => simp [hwritable.unique, hwrite, guard]
    | some stored =>
      rw [hstored, Option.any_some] at hcurrent
      simp [(hinv.traced _ stored hstored).tenant, hcurrent, hwritable.unique, hwrite, guard]

/-! ### Every run -/

theorem inv_step (hpy : py.CollisionFree) {a : Step} (hinv : Inv py tenantId t)
    (hgranted : granted py tenantId t a = true) (hstep : step py tenantId t a = some t') :
    Inv py tenantId t' := by
  cases hstep
  obtain ⟨id, legacy, nowMs⟩ := a
  cases legacy with
  | none => exact inv_tombstone hinv nowMs
  | some legacy =>
    cases hresult : projectLegacySession py tenantId t id (some legacy) nowMs with
    | none => exact hinv
    | some result =>
      by_cases hid : legacy.sessionId = id
      · subst hid
        cases hbuild : buildSessionProjection py legacy tenantId nowMs with
        | error text =>
          simp [projectLegacySession_of_error hinv hbuild] at hresult
        | ok p =>
          obtain ⟨t', outcome, hproject, -, hinv'⟩ := projectLegacySession_of_granted hpy hinv hbuild hgranted
          cases hproject.symm.trans hresult
          exact hinv'
      · simp [projectLegacySession, hid] at hresult

namespace Sample

def finished (id : String) : Json := .obj [("run_id", .str id), ("status", .str "COMPLETED")]

def below (parent id : String) : Json :=
  .obj [("run_id", .str id), ("parent_run_id", .str parent), ("status", .str "COMPLETED")]

def finishedText (id : String) : String := "\x7b\"run_id\": \"" ++ id ++ "\", \"status\": \"COMPLETED\"\x7d"

def belowText (parent id : String) : String :=
  "\x7b\"run_id\": \"" ++ id ++ "\", \"parent_run_id\": \"" ++ parent ++ "\", \"status\": \"COMPLETED\"\x7d"

def familyText : String := "[" ++ finishedText "p" ++ ", " ++ belowText "p" "c" ++ "]"

def grownText : String := "[" ++ finishedText "p" ++ ", " ++ belowText "p" "c" ++ ", " ++ finishedText "x" ++ "]"

def orphanedText : String := "[" ++ finishedText "x" ++ ", " ++ belowText "p" "c" ++ "]"

def family : Stdlib (List Json) :=
  reading [(familyText, .arr [finished "p", below "p" "c"]),
    (grownText, .arr [finished "p", below "p" "c", finished "x"]),
    (orphanedText, .arr [finished "x", below "p" "c"])]

def project (runs : String) : Step := ⟨"s", some (legacy runs), 0⟩

end Sample

end OpenAgent.Projection
