import Mathlib.Data.Finset.Dedup
import Mathlib.Data.Finset.Lattice.Basic
import OpenAgent.ContentPrivacy
import OpenAgent.Lib.Dict
import OpenAgent.Lib.Transaction

/-!
# The provenance ledger

Which revision of which artifact carries content of which origin, and which privacy requests select
it. A revision is recorded once, with its own origins and those of the revisions it was derived from;
a request takes the revisions it selects as targets when it is opened and fences off what would be
recorded later. A column that holds the canonical encoding of a set is a finite set here.
-/

namespace OpenAgent.Privacy

open Lib Lib.Tx

/-- `re.fullmatch(r"[a-f0-9]{64}", value)` -/
def exactDigest (value : String) : Bool :=
  value.length = 64 && value.toList.all fun c => ('a' ≤ c && c ≤ 'f') || ('0' ≤ c && c ≤ '9')

structure Digest where
  hex : String
  exact : exactDigest hex = true
deriving DecidableEq

structure RevisionKey where
  tenant : String
  artifact : String
  revision : String
deriving DecidableEq

structure ContentRevision where
  tenantId : String
  artifactId : String
  revisionId : String
  sinkId : String
  contentSha256 : Digest
  bounded : [tenantId, artifactId, revisionId, sinkId].all boundedIdentifier = true
deriving DecidableEq

def ContentRevision.key (revision : ContentRevision) : RevisionKey :=
  ⟨revision.tenantId, revision.artifactId, revision.revisionId⟩

inductive Operation
  | redact | export
deriving DecidableEq

structure PrivacyRequest where
  requestId : String
  tenantId : String
  sourceId : String
  groupId : String
  throughGeneration : Nat
  operation : Operation
  subjects : List String := []
  bounded : (requestId :: tenantId :: sourceId :: groupId :: subjects).all boundedIdentifier = true
  distinct : subjects.Nodup ∧ subjects.length ≤ 4096
deriving DecidableEq

theorem PrivacyRequest.distinct_nil : ([] : List String).Nodup ∧ ([] : List String).length ≤ 4096 := by
  decide

/-- `PrivacyRequest.matches` -/
def PrivacyRequest.selects (request : PrivacyRequest) (origin : ContentOrigin) : Bool :=
  request.tenantId = origin.tenantId && request.sourceId = origin.sourceId &&
    request.groupId = origin.groupId && decide (origin.generation ≤ request.throughGeneration) &&
    (request.subjects.isEmpty || (!origin.nonpersonal &&
      (origin.subjects.isEmpty || request.subjects.any fun subject => decide (subject ∈ origin.subjects))))

variable {request : PrivacyRequest}

theorem PrivacyRequest.tenant_of_selects {origin : ContentOrigin} (h : request.selects origin = true)
    : request.tenantId = origin.tenantId := by
  simp only [selects, Bool.and_eq_true, decide_eq_true_eq] at h
  exact h.1.1.1.1

/-! ### Tables -/

/-- A row of `privacy_revisions`. -/
structure RevisionRow where
  revision : ContentRevision
  origins : Finset ContentOrigin
  parents : Finset (String × String)
deriving DecidableEq

/-- `any(request.matches(o) for o in origins)` -/
def PrivacyRequest.touches (request : PrivacyRequest) (origins : Finset ContentOrigin) : Bool :=
  decide (∃ origin ∈ origins, request.selects origin = true)

variable {origins : Finset ContentOrigin}

theorem PrivacyRequest.touches_iff :
    request.touches origins = true ↔ ∃ origin ∈ origins, request.selects origin = true := by
  simp [touches]

inductive JobStatus
  | pending | processing | blocked | complete
deriving DecidableEq

/-- A row of `privacy_requests`; a lease token is the number of the claim that drew it. -/
structure RequestRow where
  request : PrivacyRequest
  status : JobStatus
  lease : Option Nat := none
  leaseUntil : Int := 0
  reason : Option String := none
deriving DecidableEq

/-- The three tables; the value of a target is its `complete` column. -/
structure Tables where
  revisions : Dict RevisionKey RevisionRow
  requests : Dict String RequestRow
  targets : Dict (String × RevisionKey) Bool

def Tables.empty : Tables := ⟨.empty, .empty, .empty⟩

abbrev LedgerTx (α : Type) := Tx Tables StoreError α

/-! ### Recording a revision -/

def parentOrigins (T : Tables) (revision : ContentRevision) (parent : String × String) :
    Except StoreError (Finset ContentOrigin) :=
  if parent = (revision.artifactId, revision.revisionId) then .error (.value "Invalid parent revision")
  else match T.revisions.get? ⟨revision.tenantId, parent.1, parent.2⟩ with
    | none => .error (.privacyConflict "Parent revision is untracked or belongs to another tenant")
    | some row => .ok row.origins

/-- `inherited`: the origins given, and those of every parent. -/
def inheritedOrigins (T : Tables) (revision : ContentRevision) :
    Finset ContentOrigin → List (String × String) → Except StoreError (Finset ContentOrigin)
  | inherited, [] => .ok inherited
  | inherited, parent :: rest =>
    match parentOrigins T revision parent with
    | .error e => .error e
    | .ok origins => inheritedOrigins T revision (inherited ∪ origins) rest

def Tables.fenced (T : Tables) (origins : Finset ContentOrigin) : Bool :=
  T.requests.values.any fun row => row.request.operation = .redact && row.request.touches origins

/-- `_record_transaction` -/
def recordTransaction (revision : ContentRevision) (origins : List ContentOrigin)
    (parents : List (String × String)) : LedgerTx Unit := do
  raiseIf (4096 < origins.length ∨ 4096 < parents.length) (.value "Bounded provenance required")
  let T ← get
  match inheritedOrigins T revision origins.toFinset parents with
  | .error e => throw e
  | .ok inherited =>
    raiseIf (∃ origin ∈ inherited, origin.tenantId ≠ revision.tenantId)
      (.privacyConflict "Cross-tenant provenance is forbidden")
    raiseIf (T.fenced inherited = true)
      (.privacyFence "Revoked origin cannot publish derived content")
    let row : RevisionRow := ⟨revision, inherited, parents.toFinset⟩
    match T.revisions.get? revision.key with
    | some old => raiseIf (old ≠ row) (.privacyConflict "Revision metadata is immutable")
    | none => set { T with revisions := T.revisions.set revision.key row }

/-- `_publish`: run the canonical writer while holding the ledger. -/
def publish (revision : ContentRevision) (origins : List ContentOrigin)
    (parents : List (String × String)) (callback : Except StoreError Unit) : LedgerTx Unit := do
  let T ← get
  raiseIf (T.revisions.contains revision.key = false)
    (.privacyConflict "External publication requires a durable recorded recovery intent")
  recordTransaction revision origins parents
  match callback with
  | .ok _ => pure ()
  | .error e => throw e

/-! ### Opening a request -/

def Tables.selected (T : Tables) (request : PrivacyRequest) : List RevisionKey :=
  (T.revisions.entries.filter fun e =>
    e.1.tenant = request.tenantId && request.touches e.2.origins).map Prod.fst

def addTargets (requestId : String) (targets : Dict (String × RevisionKey) Bool) :
    List RevisionKey → Dict (String × RevisionKey) Bool
  | [] => targets
  | key :: rest => addTargets requestId (targets.set (requestId, key) false) rest

/-- `_enqueue` -/
def enqueue (request : PrivacyRequest) : LedgerTx Unit := do
  let T ← get
  match T.requests.get? request.requestId with
  | some old =>
    raiseIf (old.request ≠ request)
      (.privacyConflict "Request identity was reused for another scope")
  | none =>
    set { T with
      requests := T.requests.set request.requestId { request := request, status := .pending }
      targets := addTargets request.requestId T.targets (T.selected request) }

/-! ### What the operations do -/

variable {T T' : Tables} {revision : ContentRevision}

theorem parentOrigins_ok {parent : String × String}
    (h : parentOrigins T revision parent = .ok origins) :
    ∃ row, T.revisions.get? ⟨revision.tenantId, parent.1, parent.2⟩ = some row ∧
      row.origins = origins := by
  rw [parentOrigins] at h
  split at h
  · cases h
  · split at h
    · cases h
    · rename_i row hrow
      exact ⟨row, hrow, Except.ok.inj h⟩

variable {parents : List (String × String)}

theorem mem_inheritedOrigins {start inherited : Finset ContentOrigin}
    (h : inheritedOrigins T revision start parents = .ok inherited) (origin : ContentOrigin) :
    origin ∈ inherited ↔ origin ∈ start ∨ ∃ parent ∈ parents, ∃ row,
      T.revisions.get? ⟨revision.tenantId, parent.1, parent.2⟩ = some row ∧ origin ∈ row.origins := by
  induction parents generalizing start with
  | nil =>
    rw [inheritedOrigins] at h
    cases h
    simp
  | cons parent rest ih =>
    rw [inheritedOrigins] at h
    split at h
    · cases h
    · rename_i origins hparent
      obtain ⟨row, hrow, rfl⟩ := parentOrigins_ok hparent
      rw [ih h, Finset.mem_union, List.exists_mem_cons_iff, or_assoc]
      simp [hrow]

theorem inheritedOrigins_recorded {start inherited : Finset ContentOrigin}
    (h : inheritedOrigins T revision start parents = .ok inherited) {parent : String × String}
    (hparent : parent ∈ parents) :
    ∃ row, T.revisions.get? ⟨revision.tenantId, parent.1, parent.2⟩ = some row := by
  induction parents generalizing start with
  | nil => cases hparent
  | cons first rest ih =>
    rw [inheritedOrigins] at h
    split at h
    · cases h
    · rename_i origins hfirst
      rcases List.mem_cons.mp hparent with rfl | hrest
      · obtain ⟨row, hrow, -⟩ := parentOrigins_ok hfirst
        exact ⟨row, hrow⟩
      · exact ih h hrest

theorem Tables.fenced_iff :
    T.fenced origins = true ↔ ∃ id row, T.requests.get? id = some row ∧
      row.request.operation = .redact ∧ row.request.touches origins = true := by
  simp only [fenced, Dict.values, List.any_eq_true, List.mem_map, Bool.and_eq_true, decide_eq_true_eq]
  constructor
  · rintro ⟨_, ⟨⟨id, row⟩, hmem, rfl⟩, hredact, htouches⟩
    exact ⟨id, row, Dict.get?_eq_some_iff.mpr hmem, hredact, htouches⟩
  · rintro ⟨id, row, hrow, hredact, htouches⟩
    exact ⟨row, ⟨(id, row), Dict.get?_eq_some_iff.mp hrow, rfl⟩, hredact, htouches⟩

/-- What a recording that returns found and did: every origin is of the revision's tenant and outside
every redaction, and the ledger has exactly this row for the revision. -/
structure Recorded (T T' : Tables) (revision : ContentRevision) (origins : List ContentOrigin)
    (parents : List (String × String)) (inherited : Finset ContentOrigin) : Prop where
  inherits : inheritedOrigins T revision origins.toFinset parents = .ok inherited
  sameTenant : ∀ origin ∈ inherited, origin.tenantId = revision.tenantId
  unfenced : T.fenced inherited = false
  kept : ∀ key row, T.revisions.get? key = some row → T'.revisions.get? key = some row
  stored : T'.revisions.get? revision.key = some ⟨revision, inherited, parents.toFinset⟩
  others : ∀ key, key ≠ revision.key → T'.revisions.get? key = T.revisions.get? key
  requests : T'.requests = T.requests
  targets : T'.targets = T.targets

theorem recordTransaction_ok {origins : List ContentOrigin} {u : Unit}
    (h : recordTransaction revision origins parents T = .ok (u, T')) :
    ∃ inherited, Recorded T T' revision origins parents inherited := by
  rw [recordTransaction, raiseIf_bind_ok, get_bind] at h
  obtain ⟨-, h⟩ := h
  cases hinherits : inheritedOrigins T revision origins.toFinset parents with
  | error e =>
    rw [hinherits] at h
    exact absurd h throw_ok
  | ok inherited =>
    simp only [hinherits] at h
    rw [raiseIf_bind_ok, raiseIf_bind_ok] at h
    obtain ⟨htenant, hfence, h⟩ := h
    have hsame : ∀ origin ∈ inherited, origin.tenantId = revision.tenantId := fun origin horigin =>
      Classical.byContradiction fun hne => htenant ⟨origin, horigin, hne⟩
    have hunfenced : T.fenced inherited = false := by simpa using hfence
    cases hold : T.revisions.get? revision.key with
    | some old =>
      simp only [hold] at h
      obtain ⟨heq, hpair⟩ := raiseIf_ok.mp h
      cases hpair
      rw [not_not] at heq
      exact ⟨inherited, hinherits, hsame, hunfenced, fun _ _ hrow => hrow, heq ▸ hold,
        fun _ _ => rfl, rfl, rfl⟩
    | none =>
      simp only [hold] at h
      cases set_ok.mp h
      refine ⟨inherited, hinherits, hsame, hunfenced, fun key row hrow => ?_,
        Dict.get?_set_self _ _ _, fun key hne => Dict.get?_set_ne _ _ hne, rfl, rfl⟩
      have hne : key ≠ revision.key := by
        rintro rfl
        simp [hold] at hrow
      rw [Dict.get?_set_ne _ _ hne]
      exact hrow

theorem publish_ok {origins : List ContentOrigin} {callback : Except StoreError Unit} {u : Unit}
    (h : publish revision origins parents callback T = .ok (u, T')) :
    ∃ inherited, Recorded T T' revision origins parents inherited := by
  unfold publish at h
  rw [get_bind, raiseIf_bind_ok] at h
  obtain ⟨-, h⟩ := h
  obtain ⟨_, T₁, hrecord, hcallback⟩ := bind_ok.mp h
  cases callback with
  | error e => exact absurd hcallback throw_ok
  | ok value =>
    cases pure_ok.mp hcallback
    exact recordTransaction_ok hrecord

theorem get?_addTargets {requestId : String} {targets : Dict (String × RevisionKey) Bool}
    {keys : List RevisionKey} (x : String × RevisionKey) :
    (addTargets requestId targets keys).get? x =
      if x.1 = requestId ∧ x.2 ∈ keys then some false else targets.get? x := by
  induction keys generalizing targets with
  | nil => simp [addTargets]
  | cons key rest ih =>
    rw [addTargets, ih, Dict.get?_set]
    obtain ⟨id, k⟩ := x
    by_cases hid : id = requestId
    · by_cases hmem : k ∈ rest
      · simp [hid, hmem]
      · by_cases hk : k = key
        · simp [hid, hk]
        · simp [hid, hmem, hk]
    · simp [hid]

theorem Tables.mem_selected {key : RevisionKey} :
    key ∈ T.selected request ↔ ∃ row, T.revisions.get? key = some row ∧
      key.tenant = request.tenantId ∧ request.touches row.origins = true := by
  simp [selected, Dict.get?_eq_some_iff]

/-- What opening a request does: nothing to a request that is there, and otherwise it adds the request
with every revision it selects as a target. -/
inductive Opened (T : Tables) (request : PrivacyRequest) : Tables → Prop
  | again {old : RequestRow} (hold : T.requests.get? request.requestId = some old)
      (hsame : old.request = request) : Opened T request T
  | fresh (hnew : T.requests.get? request.requestId = none) : Opened T request { T with
      requests := T.requests.set request.requestId { request := request, status := .pending }
      targets := addTargets request.requestId T.targets (T.selected request) }

theorem enqueue_ok {u : Unit} (h : enqueue request T = .ok (u, T')) : Opened T request T' := by
  rw [enqueue, get_bind] at h
  cases hrow : T.requests.get? request.requestId with
  | some old =>
    simp only [hrow] at h
    obtain ⟨hsame, hpair⟩ := raiseIf_ok.mp h
    cases hpair
    exact .again hrow (not_not.mp hsame)
  | none =>
    simp only [hrow] at h
    cases set_ok.mp h
    exact .fresh hrow

end OpenAgent.Privacy
