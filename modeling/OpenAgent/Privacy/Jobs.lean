import Mathlib.Data.Finset.Insert
import Mathlib.Data.List.Sort
import OpenAgent.Lib.Place
import OpenAgent.Lib.Transition
import OpenAgent.Privacy.Provenance

/-!
# Leased privacy jobs

Any number of workers process the open requests of one ledger. A worker claims a request under a
lease, hands each open target to the sink of that revision, reports what the sink completed, and at
the end settles the request. Every claim, report and settlement is one transaction that compares the
worker's token with the lease, so a worker whose lease ran out finds that it is no longer the holder.
A transaction reads the clock where the source does, and nothing orders the readings of two workers.
-/

namespace OpenAgent.Privacy

open Lib Lib.Tx

def RequestRow.blocked (row : RequestRow) (reason : String) : RequestRow :=
  { row with status := .blocked, reason := some reason, lease := none, leaseUntil := 0 }

def RequestRow.claimed (row : RequestRow) (token : Nat) (leaseUntil : Int) : RequestRow :=
  { row with status := .processing, reason := none, lease := some token, leaseUntil := leaseUntil }

def RequestRow.settled (row : RequestRow) (complete : Bool) (reason : Option String) : RequestRow :=
  { row with
    status := if complete then .complete else .blocked
    reason := reason.orElse fun _ => if complete then none else some "retry_required"
    lease := none
    leaseUntil := 0 }

def Tables.openTargets (T : Tables) (requestId : String) : List RevisionRow :=
  (((T.revisions.entries.filter fun e => T.targets.get? (requestId, e.1) = some false).map
    Prod.snd).reverse).insertionSort fun a b => ¬ b.revision.artifactId < a.revision.artifactId

def PrivacyRequest.unknownScope (request : PrivacyRequest) (targets : List RevisionRow) : Bool :=
  !request.subjects.isEmpty && targets.any fun target =>
    decide (∃ origin ∈ target.origins, origin.subjects = [] ∧ request.selects origin = true)

/-- `_claim`: the targets to process, where the claim draws the lease. -/
def claim (required : Finset String) (leaseMs : Int) (requestId : String) (covered : Finset String)
    (token : Nat) (now later : Int) : LedgerTx (Option (List ContentRevision)) := do
  let T ← get
  let row ← orRaise (T.requests.get? requestId) (.lookup requestId)
  if row.status = .complete ∨ now < row.leaseUntil then
    return none
  if ¬ required ⊆ covered then
    set { T with requests := T.requests.set requestId (row.blocked "coverage_incomplete") }
    return none
  let targets := T.openTargets requestId
  if row.request.unknownScope targets then
    set { T with requests := T.requests.set requestId (row.blocked "subject_scope_unknown") }
    return none
  set { T with requests := T.requests.set requestId (row.claimed token (later + leaseMs)) }
  return some (targets.map RevisionRow.revision)

def RequestRow.heldBy (row : RequestRow) (token : Nat) (now : Int) : Bool :=
  row.lease = some token && decide (now < row.leaseUntil)

/-- The targets after the `UPDATE` that completes one. -/
def Tables.completeTarget (T : Tables) (requestId : String) (key : RevisionKey) :
    Dict (String × RevisionKey) Bool :=
  if T.targets.contains (requestId, key) then T.targets.set (requestId, key) true else T.targets

/-- `_finish_revision` -/
def finishRevision (leaseMs : Int) (requestId : String) (token : Nat) (target : ContentRevision)
    (now later : Int) : LedgerTx Bool := do
  let T ← get
  let row ← orRaise (T.requests.get? requestId) (.type "'NoneType' object is not subscriptable")
  if row.heldBy token now = false then
    return false
  set { T with
    targets := T.completeTarget requestId target.key
    requests := T.requests.set requestId { row with leaseUntil := later + leaseMs } }
  return true

def Tables.remaining (T : Tables) (requestId : String) : Nat :=
  T.targets.count fun key complete => key.1 = requestId && !complete

/-- `_finish_job` -/
def finishJob (requestId : String) (token : Nat) (reason : Option String) (now : Int) :
    LedgerTx Unit := do
  let T ← get
  let row ← orRaise (T.requests.get? requestId) (.type "'NoneType' object is not subscriptable")
  if row.heldBy token now then
    let complete := reason.isNone && T.remaining requestId = 0
    set { T with requests := T.requests.set requestId (row.settled complete reason) }

/-! ### The system of workers -/

/-- Where a worker is in `process`. -/
inductive Phase
  | working (left : List ContentRevision)
  | reporting (target : ContentRevision) (left : List ContentRevision)
  | settling (reason : String)
  | over

/-- The reason a worker settles its job with, once it is there; `none` is success. -/
def Phase.verdict : Phase → Option (Option String)
  | .working [] => some none
  | .settling reason => some (some reason)
  | _ => none

def Phase.plan : Phase → List ContentRevision
  | .working left => left
  | .reporting target left => target :: left
  | .settling _ | .over => []

structure Worker where
  requestId : String
  token : Nat
  sinks : List String
  covered : Finset String
  phase : Phase

structure Recording where
  revision : ContentRevision
  origins : List ContentOrigin
  parents : List (String × String)
deriving DecidableEq

/-- A report the ledger accepted: by which worker, when, and how long its lease ran then. -/
structure Report where
  worker : Nat
  requestId : String
  target : ContentRevision
  now : Int
  leaseUntil : Int
deriving DecidableEq

/-- The ledger, the workers, and the history of what was recorded, answered and reported. -/
structure System where
  tables : Tables
  workers : List Worker
  claims : Nat
  accepted : List Recording
  answers : List (Nat × ContentRevision)
  reports : List Report

def System.initial : System := ⟨.empty, [], 0, [], [], []⟩

/-- How `sink.apply` ends. -/
inductive Outcome
  | complete | conflict | raised
deriving DecidableEq

inductive Action
  | record (revision : ContentRevision) (origins : List ContentOrigin)
      (parents : List (String × String))
  | publish (revision : ContentRevision) (origins : List ContentOrigin)
      (parents : List (String × String)) (callback : Except StoreError Unit)
  | enqueue (request : PrivacyRequest)
  | claim (requestId : String) (sinks : List String) (covered : Finset String) (now later : Int)
  | apply (worker : Nat) (outcome : Outcome)
  | report (worker : Nat) (now later : Int) (fault : Bool)
  | settle (worker : Nat) (now : Int) (fault : Bool)
  | cancel (worker : Nat)

structure Configuration where
  required : Finset String
  leaseMs : Int

def System.setPhase (s : System) (i : Nat) (worker : Worker) (phase : Phase) : System :=
  { s with workers := s.workers.set i { worker with phase := phase } }

def System.recording (s : System) (body : LedgerTx Unit) (entry : Recording) : System :=
  match atomically body s.tables with
  | (.ok _, T) => { s with tables := T, accepted := s.accepted ++ [entry] }
  | (.error _, T) => { s with tables := T }

def step (config : Configuration) (s : System) : Action → Option System
  | .record revision origins parents =>
    some (s.recording (recordTransaction revision origins parents) ⟨revision, origins, parents⟩)
  | .publish revision origins parents callback =>
    some (s.recording (publish revision origins parents callback) ⟨revision, origins, parents⟩)
  | .enqueue request => some { s with tables := (atomically (enqueue request) s.tables).2 }
  | .claim requestId sinks covered now later =>
    match atomically (claim config.required config.leaseMs requestId covered s.claims now later)
        s.tables with
    | (.ok (some targets), T) => some { s with
        tables := T
        workers := s.workers ++ [⟨requestId, s.claims, sinks, covered, .working targets⟩]
        claims := s.claims + 1 }
    | (_, T) => some { s with tables := T }
  | .apply i outcome => do
    let worker ← s.workers[i]?
    match worker.phase with
    | .working (target :: left) =>
      if target.sinkId ∉ worker.sinks then
        return s.setPhase i worker (.settling "sink_unavailable")
      match outcome with
      | .complete =>
        return { s.setPhase i worker (.reporting target left) with
          answers := s.answers ++ [(i, target)] }
      | .conflict => return s.setPhase i worker (.settling "revision_conflict")
      | .raised => return s.setPhase i worker (.settling "sink_failed")
    | _ => none
  | .report i now later fault => do
    let worker ← s.workers[i]?
    match worker.phase with
    | .reporting target left =>
      if fault then
        return s.setPhase i worker (.settling "sink_failed")
      let row ← s.tables.requests.get? worker.requestId
      match atomically (finishRevision config.leaseMs worker.requestId worker.token target now later)
          s.tables with
      | (.ok true, T) =>
        return { s.setPhase i worker (.working left) with
          tables := T
          reports := s.reports ++ [⟨i, worker.requestId, target, now, row.leaseUntil⟩] }
      | _ => return s.setPhase i worker .over
    | _ => none
  | .settle i now fault => do
    let worker ← s.workers[i]?
    let reason ← worker.phase.verdict
    if fault then
      return s.setPhase i worker .over
    return { s.setPhase i worker .over with
      tables := (atomically (finishJob worker.requestId worker.token reason now) s.tables).2 }
  | .cancel i => do
    let worker ← s.workers[i]?
    return s.setPhase i worker .over

/-! ### A tool result, a message written from it and a request to erase their origin -/

namespace Sample

def digest : Digest := ⟨"00112233445566778899aabbccddeeff00112233445566778899aabbccddeeff", by decide⟩

def origin : ContentOrigin := ⟨"tenant", "mail", "inbox", 1, [], false, by decide, by decide, by simp⟩

def toolResult : ContentRevision := ⟨"tenant", "tool/1", "r1", "runtime-ledger", digest, by decide⟩

def reply : ContentRevision := ⟨"tenant", "reply/1", "r1", "runtime-ledger", digest, by decide⟩

def erasure : PrivacyRequest :=
  ⟨"erase", "tenant", "mail", "inbox", 1, .redact, [], by decide, PrivacyRequest.distinct_nil⟩

def configuration : Configuration := ⟨{"transcripts"}, 60000⟩

def recordings : List Action :=
  [.record toolResult [origin] [], .record reply [] [("tool/1", "r1")]]

def erasing : List Action :=
  recordings ++ [.enqueue erasure, .claim "erase" ["runtime-ledger"] {"transcripts"} 0 0,
    .apply 0 .complete, .report 0 10 11 false, .apply 0 .complete, .report 0 20 21 false,
    .settle 0 30 false]

end Sample

/-! ### What one step can do -/

variable {requestId : String}

theorem mem_openTargets {T : Tables} {row : RevisionRow}
    (h : row ∈ T.openTargets requestId) :
    ∃ key, T.revisions.get? key = some row ∧ T.targets.get? (requestId, key) = some false := by
  rw [Tables.openTargets, List.mem_insertionSort, List.mem_reverse, List.mem_map] at h
  obtain ⟨⟨key, value⟩, hmem, rfl⟩ := h
  obtain ⟨hentry, htarget⟩ := List.mem_filter.mp hmem
  exact ⟨key, Dict.get?_eq_some_iff.mpr hentry, by simpa using htarget⟩

theorem Tables.get?_completeTarget {T : Tables} {key : RevisionKey}
    (x : String × RevisionKey) : (T.completeTarget requestId key).get? x =
      if x = (requestId, key) ∧ (T.targets.get? x).isSome then some true else T.targets.get? x := by
  rw [completeTarget, Dict.contains]
  by_cases hx : x = (requestId, key)
  · subst hx
    cases hget : T.targets.get? (requestId, key) with
    | none => simp [hget]
    | some done => simp
  · split
    · simp [Dict.get?_set_ne _ _ hx, hx]
    · simp [hx]

theorem RequestRow.heldBy_iff {row : RequestRow} {token : Nat} {now : Int} :
    row.heldBy token now = true ↔ row.lease = some token ∧ now < row.leaseUntil := by
  simp [heldBy]

/-- What a claim does to the row it finds: nothing, it blocks the request, or it draws the lease with
every required surface covered. -/
inductive Claimed (config : Configuration) (T : Tables) (requestId : String) (covered : Finset String)
    (token : Nat) : Option (List ContentRevision) → Tables → Prop
  | refused : Claimed config T requestId covered token none T
  | blocked {row : RequestRow} (hrow : T.requests.get? requestId = some row)
      (hopen : row.status ≠ .complete) (reason : String) :
      Claimed config T requestId covered token none
        { T with requests := T.requests.set requestId (row.blocked reason) }
  | drawn {row : RequestRow} (hrow : T.requests.get? requestId = some row)
      (hopen : row.status ≠ .complete) (hcovered : config.required ⊆ covered) (leaseUntil : Int) :
      Claimed config T requestId covered token
        (some ((T.openTargets requestId).map RevisionRow.revision))
        { T with requests := T.requests.set requestId (row.claimed token leaseUntil) }

variable {config : Configuration}

theorem claim_ok {T T' : Tables}
    {covered : Finset String} {token : Nat} {now later : Int} {answer : Option (List ContentRevision)}
    (h : claim config.required config.leaseMs requestId covered token now later T = .ok (answer, T')) :
    Claimed config T requestId covered token answer T' := by
  rw [claim, get_bind, orRaise_bind_ok] at h
  obtain ⟨row, hrow, h⟩ := h
  split at h
  · cases pure_ok.mp h
    exact .refused
  · rename_i hfree
    have hopen : row.status ≠ .complete := fun hcomplete => hfree (.inl hcomplete)
    split at h
    · rw [set_bind] at h
      cases pure_ok.mp h
      exact .blocked hrow hopen _
    · rename_i hcovered
      rw [not_not] at hcovered
      dsimp only at h
      split at h
      · rw [set_bind] at h
        cases pure_ok.mp h
        exact .blocked hrow hopen _
      · rw [set_bind] at h
        cases pure_ok.mp h
        exact .drawn hrow hopen hcovered _

theorem finishRevision_ok {T T' : Tables} {token : Nat}
    {target : ContentRevision} {now later : Int}
    (h : finishRevision config.leaseMs requestId token target now later T = .ok (true, T')) :
    ∃ row, T.requests.get? requestId = some row ∧ row.heldBy token now = true ∧ T' = { T with
      targets := T.completeTarget requestId target.key
      requests := T.requests.set requestId { row with leaseUntil := later + config.leaseMs } } := by
  rw [finishRevision, get_bind, orRaise_bind_ok] at h
  obtain ⟨row, hrow, h⟩ := h
  split at h
  · cases (Prod.mk.inj (pure_ok.mp h)).1
  · rename_i hheld
    rw [set_bind] at h
    cases pure_ok.mp h
    exact ⟨row, hrow, by simpa using hheld, rfl⟩

theorem finishJob_cases (T : Tables) (requestId : String) (token : Nat) (reason : Option String)
    (now : Int) :
    (atomically (finishJob requestId token reason now) T).2 = T ∨
      ∃ row, T.requests.get? requestId = some row ∧ row.heldBy token now = true ∧
        ∃ complete, (complete = true → T.remaining requestId = 0) ∧
          (atomically (finishJob requestId token reason now) T).2 =
            { T with requests := T.requests.set requestId (row.settled complete reason) } := by
  rcases atomically_cases (finishJob requestId token reason now) T with
    ⟨u, T', hok, heq⟩ | ⟨e, -, heq⟩
  · rw [heq]
    rw [finishJob, get_bind, orRaise_bind_ok] at hok
    obtain ⟨row, hrow, hok⟩ := hok
    split at hok
    · rename_i hheld
      cases set_ok.mp hok
      exact .inr ⟨row, hrow, hheld, _, by simp, rfl⟩
    · cases pure_ok.mp hok
      exact .inl rfl
  · exact .inl (by rw [heq])

theorem System.getElem?_setPhase {s : System} {i j : Nat} {worker other : Worker} (phase : Phase)
    (hworker : s.workers[i]? = some worker) :
    (s.setPhase i worker phase).workers[j]? = some other ↔
      i = j ∧ { worker with phase := phase } = other ∨ i ≠ j ∧ s.workers[j]? = some other :=
  getElem?_set_eq_some hworker

inductive Move (config : Configuration) (s : System) : Action → System → Prop
  | stay {a : Action} : Move config s a s
  | recorded {a : Action} (entry : Recording) {T' : Tables} {inherited : Finset ContentOrigin}
      (hrecorded : Recorded s.tables T' entry.revision entry.origins entry.parents inherited) :
      Move config s a { s with tables := T', accepted := s.accepted ++ [entry] }
  | opened {a : Action} (request : PrivacyRequest) {T' : Tables} (hopened : Opened s.tables request T') :
      Move config s a { s with tables := T' }
  | refused {a : Action} {requestId : String} {covered : Finset String} {T' : Tables}
      (hclaimed : Claimed config s.tables requestId covered s.claims none T') :
      Move config s a { s with tables := T' }
  | drawn {a : Action} {requestId : String} (sinks : List String) {covered : Finset String}
      {T' : Tables} {targets : List ContentRevision}
      (hclaimed : Claimed config s.tables requestId covered s.claims (some targets) T') :
      Move config s a { s with
        tables := T'
        workers := s.workers ++ [⟨requestId, s.claims, sinks, covered, .working targets⟩]
        claims := s.claims + 1 }
  | answered {a : Action} {i : Nat} {worker : Worker} {target : ContentRevision}
      {left : List ContentRevision} (hworker : s.workers[i]? = some worker)
      (hworking : worker.phase = .working (target :: left)) :
      Move config s a { s.setPhase i worker (.reporting target left) with
        answers := s.answers ++ [(i, target)] }
  | reported {i : Nat} {worker : Worker} {target : ContentRevision} {left : List ContentRevision}
      {row : RequestRow} {now later : Int} (hworker : s.workers[i]? = some worker)
      (hreporting : worker.phase = .reporting target left)
      (hrow : s.tables.requests.get? worker.requestId = some row)
      (hheld : row.heldBy worker.token now = true) (leaseUntil : Int) :
      Move config s (.report i now later false) { s.setPhase i worker (.working left) with
        tables := { s.tables with
          targets := s.tables.completeTarget worker.requestId target.key
          requests := s.tables.requests.set worker.requestId { row with leaseUntil := leaseUntil } }
        reports := s.reports ++ [⟨i, worker.requestId, target, now, row.leaseUntil⟩] }
  | settled {a : Action} {i : Nat} {worker : Worker} {row : RequestRow} {now : Int}
      (hworker : s.workers[i]? = some worker)
      (hrow : s.tables.requests.get? worker.requestId = some row)
      (hheld : row.heldBy worker.token now = true) {complete : Bool}
      (hcomplete : complete = true → s.tables.remaining worker.requestId = 0) (reason : Option String) :
      Move config s a { s.setPhase i worker .over with
        tables := { s.tables with
          requests := s.tables.requests.set worker.requestId (row.settled complete reason) } }
  | stopped {a : Action} {i : Nat} {worker : Worker} (hworker : s.workers[i]? = some worker)
      {phase : Phase} (hphase : phase = .over ∨ ∃ reason, phase = .settling reason) :
      Move config s a (s.setPhase i worker phase)

theorem recording_cases {s : System} {a : Action} {body : LedgerTx Unit}
    {entry : Recording}
    (hbody : ∀ u T', body s.tables = .ok (u, T') → ∃ inherited,
      Recorded s.tables T' entry.revision entry.origins entry.parents inherited) :
    Move config s a (s.recording body entry) := by
  rw [System.recording]
  rcases atomically_cases body s.tables with ⟨u, T', hok, heq⟩ | ⟨e, -, heq⟩
  · obtain ⟨inherited, hrecorded⟩ := hbody u T' hok
    rw [heq]
    exact .recorded entry hrecorded
  · rw [heq]
    exact .stay

theorem step_cases {s s' : System} {a : Action}
    (h : step config s a = some s') : Move config s a s' := by
  cases a with
  | record revision origins parents =>
    cases h
    exact recording_cases fun _ _ hok => recordTransaction_ok hok
  | publish revision origins parents callback =>
    cases h
    exact recording_cases fun _ _ hok => publish_ok hok
  | enqueue request =>
    cases h
    rcases atomically_cases (enqueue request) s.tables with ⟨u, T', hok, heq⟩ | ⟨e, -, heq⟩
    · rw [heq]
      exact .opened request (enqueue_ok hok)
    · rw [heq]
      exact .stay
  | claim requestId sinks covered now later =>
    rw [step] at h
    rcases atomically_cases
        (claim config.required config.leaseMs requestId covered s.claims now later) s.tables with
      ⟨answer, T', hok, heq⟩ | ⟨e, -, heq⟩
    · have hclaimed := claim_ok hok
      cases answer with
      | none =>
        simp only [heq, Option.some.injEq] at h
        subst h
        exact .refused hclaimed
      | some targets =>
        simp only [heq, Option.some.injEq] at h
        subst h
        exact .drawn sinks hclaimed
    · simp only [heq, Option.some.injEq] at h
      subst h
      exact .stay
  | apply i outcome =>
    obtain ⟨worker, hworker, h⟩ := Option.bind_eq_some_iff.mp h
    split at h
    · rename_i target left hworking
      split at h
      · cases h
        exact .stopped hworker (.inr ⟨_, rfl⟩)
      · cases outcome with
        | complete =>
          cases h
          exact .answered hworker hworking
        | conflict =>
          cases h
          exact .stopped hworker (.inr ⟨_, rfl⟩)
        | raised =>
          cases h
          exact .stopped hworker (.inr ⟨_, rfl⟩)
    · cases h
  | report i now later fault =>
    obtain ⟨worker, hworker, hrest⟩ := Option.bind_eq_some_iff.mp h
    split at hrest
    · rename_i target left hreporting
      cases fault with
      | true =>
        cases hrest
        exact .stopped hworker (.inr ⟨_, rfl⟩)
      | false =>
        obtain ⟨row, hrow, hanswer⟩ := Option.bind_eq_some_iff.mp hrest
        split at hanswer
        · rename_i T' hfinish
          obtain ⟨row', hrow', hheld, rfl⟩ := finishRevision_ok (atomically_ok.mp hfinish)
          rw [hrow] at hrow'
          cases hrow'
          cases hanswer
          exact .reported hworker hreporting hrow hheld _
        · cases hanswer
          exact .stopped hworker (.inl rfl)
    · cases hrest
  | settle i now fault =>
    obtain ⟨worker, hworker, h⟩ := Option.bind_eq_some_iff.mp h
    obtain ⟨reason, -, h⟩ := Option.bind_eq_some_iff.mp h
    split at h
    · cases h
      exact .stopped hworker (.inl rfl)
    · cases h
      rcases finishJob_cases s.tables worker.requestId worker.token reason now with heq | ⟨row, hrow, hheld, complete, hcomplete, heq⟩
      · rw [heq]
        exact .stopped hworker (.inl rfl)
      · rw [heq]
        exact .settled hworker hrow hheld hcomplete reason
  | cancel i =>
    obtain ⟨worker, hworker, h⟩ := Option.bind_eq_some_iff.mp h
    cases h
    exact .stopped hworker (.inl rfl)

end OpenAgent.Privacy
