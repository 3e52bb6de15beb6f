import OpenAgent.Privacy.Jobs
import OpenAgent.Privacy.Publisher
import OpenAgent.Storage.Runs

/-!
# What a new run inherits

The fence at the admission of a run. A run is accepted only if no redaction selects an origin of its
parent, and none selects an origin that the other runs of its session leave to it. They leave it every
origin but those that a finished erasure selects, so a request that is still open holds back the runs
of a session except where another one has already erased what it selects.
-/

namespace OpenAgent.Privacy

open Lib Lib.Tx List

variable {D : Type}

/-! ### The hook -/

variable {origin : ContentOrigin}

theorem Tables.erased_iff {T : Tables} :
    T.erased origin = true ↔ ∃ id row, T.requests.get? id = some row ∧
      row.request.operation = .redact ∧ row.status = .complete ∧ row.request.selects origin = true := by
  simp only [erased, Dict.values, any_eq_true, mem_map, Bool.and_eq_true, decide_eq_true_eq]
  constructor
  · rintro ⟨_, ⟨⟨id, row⟩, hmem, rfl⟩, ⟨hredact, hcomplete⟩, hselects⟩
    exact ⟨id, row, Dict.get?_eq_some_iff.mpr hmem, hredact, hcomplete, hselects⟩
  · rintro ⟨id, row, hrow, hredact, hcomplete, hselects⟩
    exact ⟨row, ⟨(id, row), Dict.get?_eq_some_iff.mp hrow, rfl⟩, ⟨hredact, hcomplete⟩, hselects⟩

theorem Tables.not_selects_of_not_fenced {T : Tables} {origins : Finset ContentOrigin}
    (h : T.fenced origins = false) (horigin : origin ∈ origins) {id : String}
    {row : RequestRow} (hrow : T.requests.get? id = some row) (hredact : row.request.operation = .redact) :
    row.request.selects origin = false := by
  by_contra hselects
  have hfenced : T.fenced origins = true :=
    Tables.fenced_iff.mpr ⟨id, row, hrow, hredact,
      PrivacyRequest.touches_iff.mpr ⟨origin, horigin, by simpa using hselects⟩⟩
  simp [h] at hfenced

theorem Tables.fenced_mono {T : Tables} {origins origins' : Finset ContentOrigin}
    (hsubset : origins ⊆ origins') (h : T.fenced origins' = false) : T.fenced origins = false := by
  by_contra hfenced
  obtain ⟨id, row, hrow, hredact, htouches⟩ := Tables.fenced_iff.mp (by simpa using hfenced)
  obtain ⟨origin, horigin, hselects⟩ := PrivacyRequest.touches_iff.mp htouches
  simp [Tables.not_selects_of_not_fenced h (hsubset horigin) hrow hredact] at hselects

variable {db : RuntimePrivacy}

theorem guardRun_bind_ok {α : Type} {runId : String} {f : Unit → PublisherTx α}
    {r : α × RuntimePrivacy} (h : (guardRun runId >>= f) db = .ok r) :
    db.tables.fenced (db.originsOf runId) = false ∧ f () db = .ok r := by
  rw [guardRun, bind_assoc, get_bind, raiseIf_bind_ok] at h
  exact ⟨by simpa using h.1, h.2⟩

theorem parentScope_bind_ok {α : Type} {parent : Option String}
    {f : Finset ContentOrigin → PublisherTx α} {r : α × RuntimePrivacy}
    (h : (parentScope parent >>= f) db = .ok r) :
    (∀ parentId ∈ parent, db.tables.fenced (db.originsOf parentId) = false) ∧
      ∃ origins, f origins db = .ok r := by
  cases parent with
  | none => exact ⟨by simp, ∅, h⟩
  | some parentId =>
    rw [parentScope, bind_assoc] at h
    obtain ⟨hopen, h⟩ := guardRun_bind_ok h
    rw [bind_assoc, get_bind] at h
    refine ⟨?_, _, h⟩
    intro p hp
    obtain rfl := Option.mem_some.mp hp
    exact hopen

theorem inherit_ok {rendering : Rendering D} {L : Ledger D RuntimePrivacy} {runId sessionId : String}
    {parentRunId : Option String} {r : Unit × RuntimePrivacy}
    (h : inherit rendering L runId sessionId parentRunId db = .ok r) :
    (∀ parentId ∈ parentRunId.filter (· ≠ ""), db.tables.fenced (db.originsOf parentId) = false) ∧
      db.tables.fenced (db.sessionScope L runId sessionId) = false := by
  rw [inherit] at h
  obtain ⟨hparent, origins, h⟩ := parentScope_bind_ok h
  refine ⟨hparent, ?_⟩
  rw [get_bind] at h
  split at h
  · rename_i hempty
    have hnothing : db.sessionScope L runId sessionId = ∅ :=
      Finset.subset_empty.mp (hempty ▸ Finset.subset_union_right)
    rw [hnothing]
    by_contra hfenced
    obtain ⟨id, row, -, -, htouches⟩ := Tables.fenced_iff.mp (by simpa using hfenced)
    obtain ⟨origin, horigin, -⟩ := PrivacyRequest.touches_iff.mp htouches
    exact absurd horigin (Finset.notMem_empty origin)
  · rw [mergeOrigins, modify_bind] at h
    obtain ⟨hopen, -⟩ := guardRun_bind_ok h
    refine Tables.fenced_mono ?_ hopen
    intro origin horigin
    rw [RuntimePrivacy.originsOf, Dict.get?_set_self, Option.getD_some]
    exact Finset.mem_union_right _ (Finset.mem_union_right _ horigin)

theorem mem_foldr_union {sets : List (Finset ContentOrigin)} :
    origin ∈ sets.foldr (· ∪ ·) ∅ ↔ ∃ set ∈ sets, origin ∈ set := by
  induction sets with
  | nil => simp
  | cons set rest ih => rw [foldr_cons, Finset.mem_union, ih, exists_mem_cons_iff]

theorem mem_sessionScope {L : Ledger D RuntimePrivacy} {runId sessionId id : String}
    {row : RunRow D} (hrow : L.runs.get? id = some row)
    (hsession : row.sessionId = sessionId) (hother : id ≠ runId) (horigin : origin ∈ db.originsOf id)
    (hkept : db.tables.erased origin = false) : origin ∈ db.sessionScope L runId sessionId := by
  rw [RuntimePrivacy.sessionScope, mem_foldr_union]
  refine ⟨db.retained (db.originsOf id), List.mem_map.mpr ⟨(id, row), ?_, rfl⟩, ?_⟩
  · exact List.mem_filter.mpr ⟨Dict.get?_eq_some_iff.mp hrow, by simp [hsession, hother]⟩
  · exact Finset.mem_filter.mpr ⟨horigin, hkept⟩

/-! ### A store and the jobs on its ledger of provenance -/

/-- One database: the store, and the workers that carry out the privacy requests in it. -/
structure Deployment (D : Type) where
  ledger : Ledger D RuntimePrivacy
  jobs : System

def Deployment.initial : Deployment D := ⟨.empty .empty, .initial⟩

inductive DeploymentStep (D : Type)
  | store (moment : Moment) (further : List Moment) (operation : Store.Operation D)
  | job (action : Action)

def Deployment.step [DecidableEq D] (host : Host D RuntimePrivacy) (config : Configuration)
    (s : Deployment D) : DeploymentStep D → Option (Deployment D)
  | .store moment further operation =>
    let ledger := Store.perform s.ledger ⟨host, moment, further, operation⟩
    some ⟨ledger, { s.jobs with tables := ledger.privacy.tables }⟩
  | .job action =>
    (Privacy.step config s.jobs action).map fun jobs =>
      ⟨{ s.ledger with privacy := { s.ledger.privacy with tables := jobs.tables } }, jobs⟩

end Privacy

open Privacy Store Lib

/-- Where a publisher is bound, an acceptance that inserts a run does so behind no fence: whatever an
open redaction selects among the origins of the other runs of the session is already erased by a
finished one, and no redaction selects an origin of the parent. One that is refused changes nothing. -/
theorem admission_is_fenced {D : Type} [DecidableEq D] (rendering : Rendering D) (publisherId : Nat)
    (fingerprint : RunRequest → ExecutionContext → D) (L : Ledger D RuntimePrivacy) (m : Moment)
    (request : RunRequest) (context : ExecutionContext) :
    let host : Host D RuntimePrivacy := ⟨fingerprint, some (publisher rendering publisherId)⟩
    let outcome := transaction m (accept host request context m.now) L
    (∀ result L', outcome = (.ok result, L') → L.runs.get? request.runId = none →
      (∀ id row, L.runs.get? id = some row → row.sessionId = request.sessionId →
        ∀ origin ∈ L.privacy.originsOf id, ∀ requestId open',
          L.privacy.tables.requests.get? requestId = some open' → open'.request.operation = .redact →
          open'.status ≠ .complete → open'.request.selects origin = true →
          ∃ finishedId finished, L.privacy.tables.requests.get? finishedId = some finished ∧
            finished.request.operation = .redact ∧ finished.status = .complete ∧
            finished.request.selects origin = true) ∧
      (∀ parentId ∈ context.parentRunId.filter (· ≠ ""), ∀ origin ∈ L.privacy.originsOf parentId,
        ∀ requestId row, L.privacy.tables.requests.get? requestId = some row →
          row.request.operation = .redact → row.request.selects origin = false)) ∧
    ∀ e L', outcome = (.error e, L') → L' = L := by
  intro host outcome
  refine ⟨?_, fun e L' h => transaction_error h⟩
  intro result L' h habsent
  obtain ⟨-, ⟨row, hrow, -⟩ | ⟨-, hinsert⟩⟩ := accept_ok (transaction_ok h)
  · have hmem : (request.runId, row) ∈ L.colliding request := by simp [hrow]
    simp [(Ledger.mem_colliding.mp hmem).1] at habsent
  obtain ⟨M, new, p, hruns, hprivacy, hinherit⟩ :=
    insertRun_inherits hinsert (publisher rendering publisherId) rfl
  obtain ⟨db, hdb, -⟩ : ∃ db, inherit rendering M request.runId request.sessionId context.parentRunId
      M.privacy = .ok ((), db) ∧ db = p := by
    change hooked M _ = _ at hinherit
    unfold hooked at hinherit
    cases hbody : inherit rendering M request.runId request.sessionId context.parentRunId M.privacy with
    | error e =>
      rw [hbody] at hinherit
      cases hinherit
    | ok r =>
      rw [hbody] at hinherit
      exact ⟨r.2, rfl, Except.ok.inj hinherit⟩
  obtain ⟨hparent, hsession⟩ := inherit_ok hdb
  rw [hprivacy] at hparent hsession
  refine ⟨?_, ?_⟩
  · intro id row hrow hsame origin horigin requestId openRow hopen hredact _ hselects
    refine Tables.erased_iff.mp ?_
    by_contra hkept
    have hne : id ≠ request.runId := by
      rintro rfl
      simp [habsent] at hrow
    have hrow' : M.runs.get? id = some row := by
      rw [hruns, Dict.get?_set_ne _ _ hne]
      exact hrow
    have hmem := mem_sessionScope hrow' hsame hne horigin (by simpa using hkept)
    simp [Tables.not_selects_of_not_fenced hsession hmem hopen hredact] at hselects
  · intro parentId hmem origin horigin requestId row hrow hredact
    exact Tables.not_selects_of_not_fenced (hparent parentId hmem) horigin hrow hredact

namespace Privacy.Sample

def revisionOf (artifact : String) : Except StoreError ContentRevision :=
  if h : ["tenant", artifact, "r1", "runtime-ledger"].all boundedIdentifier = true then
    .ok ⟨"tenant", artifact, "r1", "runtime-ledger", digest, h⟩
  else .error (.value "Bounded nonempty identifiers are required")

def refName : RecordRef → String
  | .message position => "message/" ++ String.ofList (List.replicate position 'm')
  | .tool _ callId => "tool/" ++ callId
  | .event sequence => "event/" ++ String.ofList (List.replicate sequence 'e')
  | .output runId => "output/" ++ runId
  | .input runId => "input/" ++ runId

def pathName : List PathComponent → String
  | [] => ""
  | .key name :: rest => "/" ++ name ++ pathName rest
  | _ :: rest => "/-" ++ pathName rest

def rendering : Rendering String where
  record _ ref := revisionOf (refName ref)
  fragment _ ref field path := revisionOf ("fragment/" ++ refName ref ++ "/" ++ field ++ pathName path)

def host : Host String RuntimePrivacy := ⟨fun request _ => request.input, some (publisher rendering 0)⟩

def moment : Moment := ⟨0, false⟩

def secondRequest : RunRequest where
  runId := "again"
  sessionId := "s"
  idempotencyKey := "again"
  input := "hello again"
  deadlineSeconds := none
  stable := rfl
  steersOther := ⟨(Option.some_ne_none _).symm, (Option.some_ne_none _).symm⟩
  positive := OpenAgent.Sample.request.positive

def mailbox : ToolBinding := ⟨"ref", "mail", "read", "laptop", [], .null, .null, none⟩

def secondErasure : PrivacyRequest :=
  ⟨"erase-again", "tenant", "mail", "inbox", 1, .redact, [], by decide, PrivacyRequest.distinct_nil⟩

/-- A run reads the mail and ends. What it wrote is erased in all eight places, the erasure is over,
and another one of the same scope is opened. -/
def twiceErased : List (DeploymentStep String) :=
  [.store moment [] (.accept OpenAgent.Sample.request OpenAgent.Sample.context),
    .store moment [] (.transition "run" .running none),
    .store moment [] (.beginTool "run" "call" mailbox (.obj []) none),
    .store moment [] (.finishTool "run" "call" (.result (.str "mail")) (some ⟨0, .origins [origin]⟩)),
    .store moment [] (.transition "run" .success none),
    .job (.enqueue erasure), .job (.claim "erase" ["runtime-ledger"] {"transcripts"} 0 0)] ++
  (List.replicate 8 [.job (.apply 0 .complete), .job (.report 0 10 11 false)]).flatten ++
  [.job (.settle 0 30 false), .job (.enqueue secondErasure)]

end Privacy.Sample

theorem admission_past_an_open_erasure :
    ¬ ∀ (rendering : Rendering String) (publisherId : Nat) (fingerprint : RunRequest → ExecutionContext → String)
      (config : Configuration) (steps : List (DeploymentStep String)) (s : Deployment String) (m : Moment)
      (request : RunRequest) (context : ExecutionContext) (result : RunRecord String × Bool)
      (L' : Ledger String RuntimePrivacy),
      let host : Host String RuntimePrivacy := ⟨fingerprint, some (publisher rendering publisherId)⟩
      run (Deployment.step host config) .initial steps = some s →
      transaction m (accept host request context m.now) s.ledger = (.ok result, L') →
      s.ledger.runs.get? request.runId = none → ∀ id row, s.ledger.runs.get? id = some row →
      row.sessionId = request.sessionId → ∀ origin ∈ s.ledger.privacy.originsOf id, ∀ requestId pending,
      s.ledger.privacy.tables.requests.get? requestId = some pending →
      pending.request.operation = .redact → pending.status ≠ .complete →
      pending.request.selects origin = false := by
  intro hfence
  have htrace : (run (Deployment.step Sample.host Sample.configuration) .initial Sample.twiceErased).map
      (fun s => (s.ledger.runs.get? "again" |>.isNone,
        (s.ledger.runs.get? "run").map RunRow.sessionId,
        decide (Sample.origin ∈ s.ledger.privacy.originsOf "run"),
        s.ledger.privacy.tables.requests.get? "erase-again",
        (transaction Sample.moment (accept Sample.host Sample.secondRequest OpenAgent.Sample.context 0)
          s.ledger).1.toOption.isSome)) =
      some (true, some "s", true, some { request := Sample.secondErasure, status := .pending }, true) := by
    decide +kernel
  obtain ⟨s, hrun, h⟩ := Option.map_eq_some_iff.mp htrace
  simp only [Prod.mk.injEq, Option.isNone_iff_eq_none, Option.map_eq_some_iff, decide_eq_true_eq] at h
  obtain ⟨habsent, ⟨row, hrow, hsession⟩, horigin, hpending, haccepted⟩ := h
  cases hresult : transaction Sample.moment
      (accept Sample.host Sample.secondRequest OpenAgent.Sample.context 0) s.ledger with
  | mk outcome L' =>
    rw [hresult] at haccepted
    cases outcome with
    | error e => cases haccepted
    | ok result =>
      have hselects := hfence Sample.rendering 0 (fun request _ => request.input) Sample.configuration
        Sample.twiceErased s Sample.moment Sample.secondRequest OpenAgent.Sample.context result L'
        hrun hresult habsent "run" row hrow hsession Sample.origin horigin "erase-again" _ hpending
        rfl (by decide)
      exact absurd hselects (by decide)

end OpenAgent
