import OpenAgent.Projection.Project
import OpenAgent.Projection.Shape

/-!
# Reconciling the rows of a session

Stale and moved rows are deleted before the desired ones are written. What the tables hold then is what
was asked for, as long as the deletes take nothing with them that stays, no row that stays names what
they take, and no desired row asks for a key that another session holds, or another desired row, or a
row that is only written after it.
-/

namespace OpenAgent.Projection

open Lib List

/-! ### One table -/

section

variable {α σ : Type} [DecidableEq α] [DecidableEq σ] (S : Schema String σ (Stored α))

def apart (a b : Stored α) : Bool := (S.slots a).all fun slot => decide (slot ∉ S.slots b)

structure Free (table : Dict String (Stored α)) (sessionId : String) (removed : List String)
    (desired : List (Stored α)) : Prop where
  nodup : (desired.map S.key).Nodup
  others : ∀ e ∈ table.entries, e.2.sessionId ≠ sessionId → ∀ r ∈ desired,
    e.1 ≠ S.key r ∧ apart S e.2 r = true
  apart : desired.Pairwise fun r later => apart S r later = true
  waiting : desired.Pairwise fun r later => S.key later ∉ removed →
    ((rowsOf table sessionId).get? (S.key later)).all (fun prior => Projection.apart S prior r) = true

instance (table : Dict String (Stored α)) (sessionId : String) (removed : List String)
    (desired : List (Stored α)) : Decidable (Free S table sessionId removed desired) :=
  decidable_of_iff
    ((desired.map S.key).Nodup ∧
      (∀ e ∈ table.entries, e.2.sessionId ≠ sessionId → ∀ r ∈ desired,
        e.1 ≠ S.key r ∧ Projection.apart S e.2 r = true) ∧
      (desired.Pairwise fun r later => Projection.apart S r later = true) ∧
      desired.Pairwise fun r later => S.key later ∉ removed →
        ((rowsOf table sessionId).get? (S.key later)).all (fun prior => Projection.apart S prior r) = true)
    ⟨fun ⟨hnodup, hothers, hapart, hwaiting⟩ => ⟨hnodup, hothers, hapart, hwaiting⟩,
      fun h => ⟨h.nodup, h.others, h.apart, h.waiting⟩⟩

variable {S}

omit [DecidableEq α] in
theorem apart_iff {a b : Stored α} : apart S a b = true ↔ (S.slots a).Disjoint (S.slots b) := by
  rw [apart, all_eq_true]
  constructor
  · intro h slot ha hb
    exact of_decide_eq_true (h slot ha) hb
  · intro h slot ha
    exact decide_eq_true fun hb => h ha hb

omit [DecidableEq α] in
theorem mem_rowsOf {table : Dict String (Stored α)} {sessionId id : String} {stored : Stored α} :
    (rowsOf table sessionId).get? id = some stored ↔
      table.get? id = some stored ∧ stored.sessionId = sessionId := by
  rw [rowsOf, Dict.mem_filter, decide_eq_true_eq]

/-- What the deletes before the writing leave of a table: of the session, the desired rows that were not
removed on purpose. -/
structure Cleared (table bare : Dict String (Stored α)) (sessionId : String) (removed keys : List String) :
    Prop where
  sub : ∀ id stored, bare.get? id = some stored → table.get? id = some stored
  gone : ∀ id ∈ removed, bare.get? id = none
  stale : ∀ id stored, table.get? id = some stored → stored.sessionId = sessionId → id ∉ keys →
    bare.get? id = none
  stays : ∀ id stored, table.get? id = some stored → stored.sessionId = sessionId → id ∈ keys →
    id ∉ removed → bare.get? id = some stored

variable {table bare : Dict String (Stored α)} {sessionId : String} {removed : List String}
  {desired : List (Stored α)}

omit [DecidableEq α] in
theorem Free.ready (h : Free S table sessionId removed desired)
    (hbare : Cleared table bare sessionId removed (desired.map S.key)) :
    S.Ready (rowsOf table sessionId) removed bare desired := by
  have hforeign : ∀ id stored, table.get? id = some stored → stored.sessionId ≠ sessionId →
      ∀ r ∈ desired, id ≠ S.key r ∧ (S.slots stored).Disjoint (S.slots r) := by
    intro id stored hget hne r hr
    have hothers := h.others (id, stored) (Dict.get?_eq_some_iff.mp hget) hne r hr
    exact ⟨hothers.1, apart_iff.mp hothers.2⟩
  -- A row of a desired key that was there before is one of the session's own.
  have hown : ∀ r ∈ desired, ∀ stored, table.get? (S.key r) = some stored →
      (rowsOf table sessionId).get? (S.key r) = some stored := by
    intro r hr stored hget
    refine mem_rowsOf.mpr ⟨hget, ?_⟩
    by_contra hne
    exact (hforeign _ stored hget hne r hr).1 rfl
  refine
    { nodup := h.nodup
      fresh := ?_
      kept := ?_
      outside := ?_
      apart := h.apart.imp fun hapart => apart_iff.mp hapart
      waiting := ?_ }
  · intro r hr hnew
    rcases hnew with hnone | hremoved
    · by_contra hsome
      obtain ⟨stored, hstored⟩ := Option.ne_none_iff_exists'.mp hsome
      simp [hown r hr stored (hbare.sub _ _ hstored)] at hnone
    · exact hbare.gone _ hremoved
  · intro r hr prior hprior hstays
    obtain ⟨hget, hsession⟩ := mem_rowsOf.mp hprior
    exact hbare.stays _ prior hget hsession (mem_map_of_mem hr) hstays
  · intro k q hget hout r hr
    have htable := hbare.sub k q hget
    by_cases hsession : q.sessionId = sessionId
    · simp [hbare.stale k q htable hsession hout] at hget
    · exact (hforeign k q htable hsession r hr).2
  · refine h.waiting.imp_of_mem fun {r later} _ hlater hwaiting prior hprior => ?_
    have hexisting := hown later hlater prior (hbare.sub _ _ hprior)
    have hstays : S.key later ∉ removed := by
      intro hremoved
      simp [hbare.gone _ hremoved] at hprior
    have hall := hwaiting hstays
    rw [hexisting] at hall
    exact apart_iff.mp hall

theorem Free.sync {key : α → String} {tenantId : String} {version : Nat} {rows : List α}
    {check : Stored α → Bool}
    (h : Free S table sessionId removed (rows.map fun row => ⟨tenantId, sessionId, version, row⟩))
    (hkey : ∀ stored, S.key stored = key stored.row) (hsame : S.same = Stored.same)
    (hbare : Cleared table bare sessionId removed (rows.map key))
    (hcheck : ∀ row ∈ rows, check ⟨tenantId, sessionId, version, row⟩ = true) :
    ∃ table', S.sync check (rowsOf table sessionId) removed bare
        (rows.map fun row => ⟨tenantId, sessionId, version, row⟩) = some table' ∧
      Holds table' key tenantId sessionId rows ∧
      ∀ id stored, stored.sessionId ≠ sessionId →
        (table'.get? id = some stored ↔ bare.get? id = some stored) := by
  have hkeys : (rows.map fun row => (⟨tenantId, sessionId, version, row⟩ : Stored α)).map S.key
      = rows.map key := by
    rw [map_map]
    exact map_congr_left fun row _ => hkey _
  rw [← hkeys] at hbare
  have hchecked : ∀ r ∈ rows.map fun row => (⟨tenantId, sessionId, version, row⟩ : Stored α), check r = true := by
    intro r hr
    obtain ⟨row, hrow, rfl⟩ := List.mem_map.mp hr
    exact hcheck row hrow
  obtain ⟨table', hsync, hthere, hframe⟩ := (h.ready hbare).sync hchecked
  -- What is under a desired key afterwards is the desired row, whichever revision wrote it.
  have hrow : ∀ row ∈ rows, ∃ q, table'.get? (key row) = some q ∧ q.tenantId = tenantId ∧
      q.sessionId = sessionId ∧ q.row = row := by
    intro row hrow
    obtain ⟨q, hq, hsameRow⟩ := hthere _ (mem_map_of_mem hrow)
    rw [hsame, Stored.same_iff] at hsameRow
    rw [hkey] at hq
    exact ⟨q, hq, hsameRow⟩
  refine ⟨table', hsync, ⟨fun id stored hget hsession => ?_, fun row hmem => ?_⟩, fun id stored hne => ?_⟩
  · by_cases hdesired : id ∈ rows.map key
    · obtain ⟨row, hmem, rfl⟩ := List.mem_map.mp hdesired
      obtain ⟨q, hq, htenant, -, hqrow⟩ := hrow row hmem
      cases hq.symm.trans hget
      exact ⟨htenant, hqrow ▸ hmem, by rw [hqrow]⟩
    · rw [← hkeys] at hdesired
      rw [hframe id hdesired] at hget
      simp [hbare.stale id stored (hbare.sub id stored hget) hsession hdesired] at hget
  · obtain ⟨q, hq, rfl, rfl, rfl⟩ := hrow row hmem
    exact ⟨q.sourceVersion, hq⟩
  · by_cases hdesired : id ∈ rows.map key
    · obtain ⟨row, hmem, rfl⟩ := List.mem_map.mp hdesired
      constructor
      · intro hget
        obtain ⟨q, hq, -, hsession, -⟩ := hrow row hmem
        cases hq.symm.trans hget
        exact absurd hsession hne
      · intro hget
        have hother := h.others (key row, stored) (Dict.get?_eq_some_iff.mp (hbare.sub _ _ hget)) hne _
          (mem_map_of_mem hmem)
        rw [hkey] at hother
        exact absurd rfl hother.1
    · rw [← hkeys] at hdesired
      rw [hframe id hdesired]

end

theorem Free.congr {α β σ : Type} [DecidableEq σ] {S : Schema String σ (Stored α)}
    {table : Dict String (Stored α)} {sessionId : String} {removed : List String} {rows : List β}
    {f g : β → Stored α} (hkey : ∀ row, S.key (f row) = S.key (g row))
    (hslots : ∀ row, S.slots (f row) = S.slots (g row)) (h : Free S table sessionId removed (rows.map f)) :
    Free S table sessionId removed (rows.map g) := by
  have hkeys : (rows.map f).map S.key = (rows.map g).map S.key := by
    rw [map_map, map_map]
    exact map_congr_left fun row _ => hkey row
  refine ⟨hkeys ▸ h.nodup, fun e he hne r hr => ?_, ?_, ?_⟩
  · obtain ⟨row, hrow, rfl⟩ := List.mem_map.mp hr
    have hothers := h.others e he hne (f row) (mem_map_of_mem hrow)
    rw [hkey, Projection.apart, hslots] at hothers
    exact hothers
  · have hapart := h.apart
    rw [pairwise_map] at hapart ⊢
    refine hapart.imp fun {a b} hab => ?_
    rwa [Projection.apart, hslots, hslots] at hab
  · have hwaiting := h.waiting
    rw [pairwise_map] at hwaiting ⊢
    refine hwaiting.imp fun {a b} hab => ?_
    simp only [Projection.apart, hkey, hslots] at hab
    exact hab

/-! ### The deletes -/

section

variable {D : Type}

def Removals.runs (r : Removals) : List String := r.staleRuns ++ r.movedRuns

def keepsParents (t : Tables D) (sessionId : String) (r : Removals) : Bool :=
  (rowsOf t.runs sessionId).entries.all fun e =>
    decide (e.1 ∈ r.runs) || e.2.row.parentRunId.all fun parent => decide (parent ∉ r.runs)

def keepsChildren (t : Tables D) (r : Removals) : Bool :=
  t.tools.entries.all fun e =>
    decide (e.1 ∈ r.staleTools ++ r.movedTools) || e.2.row.childRunId.all fun child => decide (child ∉ r.runs)

variable {t : Tables D} {sessionId : String} {ids : List String}

theorem mem_childRuns {id : String} :
    id ∈ t.childRuns ids ↔ ∃ stored parent, t.runs.get? id = some stored ∧
      stored.row.parentRunId = some parent ∧ parent ∈ ids ∧ t.ownsRun stored.sessionId parent = true := by
  simp only [Tables.childRuns, mem_map, List.mem_filter, Dict.get?_eq_some_iff]
  constructor
  · rintro ⟨⟨k, stored⟩, ⟨hmem, hany⟩, rfl⟩
    cases hparent : stored.row.parentRunId with
    | none => simp [hparent] at hany
    | some parent =>
      simp only [hparent, Option.any_some, Bool.and_eq_true, decide_eq_true_eq] at hany
      exact ⟨stored, parent, hmem, hparent, hany⟩
  · rintro ⟨stored, parent, hmem, hparent, hin, howns⟩
    exact ⟨(id, stored), ⟨hmem, by simp [hparent, hin, howns]⟩, rfl⟩

theorem mem_descendants (hclosed : ∀ id ∈ t.childRuns ids, id ∈ ids) (n : Nat) {id : String} :
    id ∈ t.descendants ids n ↔ id ∈ ids := by
  induction n generalizing ids with
  | zero => exact Iff.rfl
  | succ n ih =>
    have hsame : ∀ {x}, x ∈ ids ++ t.childRuns ids ↔ x ∈ ids := by
      intro x
      rw [mem_append]
      exact ⟨fun h => h.elim (fun hin => hin) (hclosed x), Or.inl⟩
    rw [Tables.descendants, ih, hsame]
    intro x hx
    obtain ⟨stored, parent, hget, hparent, hin, howns⟩ := mem_childRuns.mp hx
    exact hsame.mpr (hclosed x (mem_childRuns.mpr ⟨stored, parent, hget, hparent, hsame.mp hin, howns⟩))

/-- The tables without the rows that are deleted by name, and without what belongs to a deleted run. -/
structure Removed (t bare : Tables D) (r : Removals) : Prop where
  sessions : bare.sessions = t.sessions
  runs : ∀ id stored, bare.runs.get? id = some stored ↔ t.runs.get? id = some stored ∧ id ∉ r.runs
  messages : ∀ id stored, bare.messages.get? id = some stored ↔ t.messages.get? id = some stored ∧
    id ∉ r.staleMessages ++ r.movedMessages ∧ stored.row.runId ∉ r.runs
  tools : ∀ id stored, bare.tools.get? id = some stored ↔ t.tools.get? id = some stored ∧
    id ∉ r.staleTools ++ r.movedTools ∧ stored.row.sessionRunId ∉ r.runs

theorem applyRemovals_eq {r : Removals}
    (hown : ∀ id ∈ r.runs, ∃ stored, (rowsOf t.runs sessionId).get? id = some stored)
    (hparents : keepsParents t sessionId r = true) (hchildren : keepsChildren t r = true) :
    ∃ bare, applyRemovals t r = some bare ∧ Removed t bare r := by
  generalize hcut :
    ({ t with
        messages := t.messages.filter fun id _ => decide (id ∉ r.staleMessages ++ r.movedMessages)
        tools := t.tools.filter fun id _ => decide (id ∉ r.staleTools ++ r.movedTools) } : Tables D) = cut
  have hruns : cut.runs = t.runs := by rw [← hcut]
  have hclosed : ∀ id ∈ cut.childRuns r.runs, id ∈ r.runs := by
    intro id hid
    obtain ⟨stored, parent, hget, hparent, hin, howns⟩ := mem_childRuns.mp hid
    obtain ⟨above, habove⟩ := hown parent hin
    obtain ⟨hgetAbove, hsessionAbove⟩ := mem_rowsOf.mp habove
    rw [Tables.ownsRun, hruns, hgetAbove, Option.any_some, decide_eq_true_eq] at howns
    rw [hruns] at hget
    have hmem := mem_rowsOf.mpr ⟨hget, howns.symm.trans hsessionAbove⟩
    have hstays := List.all_eq_true.mp hparents _ (Dict.get?_eq_some_iff.mp hmem)
    rw [Bool.or_eq_true, decide_eq_true_eq] at hstays
    refine hstays.elim (fun h => h) fun hkept => ?_
    simp only [hparent, Option.all_some, decide_eq_true_eq] at hkept
    exact absurd hin hkept
  generalize hgone : cut.descendants r.runs cut.runs.entries.length = gone
  have hmem : ∀ id, id ∈ gone ↔ id ∈ r.runs := fun id => hgone ▸ mem_descendants hclosed _
  have hfree : cut.tools.entries.any (fun e => e.2.row.childRunId.any fun child => decide (child ∈ gone))
      = false := by
    rw [any_eq_false]
    intro e he
    have hget : cut.tools.get? e.1 = some e.2 := Dict.get?_eq_some_iff.mpr he
    rw [← hcut, Dict.mem_filter, decide_eq_true_eq] at hget
    have hstays := List.all_eq_true.mp hchildren e (Dict.get?_eq_some_iff.mp hget.1)
    rw [Bool.or_eq_true, decide_eq_true_eq] at hstays
    have hkept := hstays.resolve_left hget.2
    cases hchild : e.2.row.childRunId with
    | none => simp
    | some child =>
      simp only [hchild, Option.all_some, decide_eq_true_eq] at hkept
      simpa [hmem] using hkept
  have happly : applyRemovals t r = some
      { cut with
        runs := cut.runs.filter fun id _ => decide (id ∉ gone)
        messages := cut.messages.filter fun _ stored => decide (stored.row.runId ∉ gone)
        tools := cut.tools.filter fun _ stored => decide (stored.row.sessionRunId ∉ gone) } := by
    rw [applyRemovals, hcut, Tables.deleteRuns, show r.staleRuns ++ r.movedRuns = r.runs from rfl, hgone, hfree]
    rfl
  refine ⟨_, happly, ⟨?_, fun id stored => ?_, fun id stored => ?_, fun id stored => ?_⟩⟩
  · rw [← hcut]
  · rw [Dict.mem_filter, hruns, decide_eq_true_eq, hmem]
  · rw [Dict.mem_filter, decide_eq_true_eq, hmem, ← hcut, Dict.mem_filter, decide_eq_true_eq, and_assoc]
  · rw [Dict.mem_filter, decide_eq_true_eq, hmem, ← hcut, Dict.mem_filter, decide_eq_true_eq, and_assoc]

end

end OpenAgent.Projection
