import OpenAgent.Lib.Place
import OpenAgent.Lib.Transition
import OpenAgent.Privacy.Provenance

/-!
# Encrypted exports

The spool that stages the parts of an export, seals it, hands it out against current authorization and
records its delivery, while a redaction may erase any part. Staging and the writes of an erasure are
each one transaction. Sealing, comparing a delivery token and looking up a part to erase read in one
statement and write in a later one, so other callers act in between.

Awaited answers of the host (authorization, the ledger's fences, the cipher) are part of the action
that follows them. A column that holds canonical JSON keeps the value it encodes.
-/

namespace OpenAgent.Privacy

open Lib Lib.Tx

theorem Digest.boundedIdentifier (digest : Digest) : boundedIdentifier digest.hex = true := by
  have hlength : digest.hex.length = 64 := by
    have hexact := digest.exact
    simp only [exactDigest, Bool.and_eq_true, decide_eq_true_eq] at hexact
    exact hexact.1
  have hne : digest.hex ≠ "" := by
    intro hempty
    simp [hempty] at hlength
  simp [OpenAgent.boundedIdentifier, hne, hlength]

/-- What an encrypted part is bound to: the request, the source revision and the staged copy. -/
structure Aad where
  request : PrivacyRequest
  source : ContentRevision
  staged : ContentRevision
deriving DecidableEq

inductive ExportState
  | staging | ready | revoked
deriving DecidableEq

/-- A row of `export_requests`. -/
structure ExportRow where
  request : PrivacyRequest
  state : ExportState
  deliveryHash : Option Digest := none
  delivered : Bool := false
deriving DecidableEq

/-- A row of `export_parts`. -/
structure PartRow where
  requestId : String
  revision : String
  parentArtifact : String
  parentRevision : String
  aad : Aad
  ciphertext : Option (List UInt8)
  payloadDigest : Digest
  erased : Bool := false
deriving DecidableEq

structure Spool where
  requests : Dict String ExportRow
  parts : Dict String PartRow

/-- What the spool takes from its host: the hashes, the cipher and the bound of a part. -/
structure ExportHost where
  sha256 : List UInt8 → Digest
  identity : (requestId artifactId revisionId : String) → Digest
  tokenHash : String → Digest
  decrypt : Aad → List UInt8 → Option (List UInt8)
  maxPartBytes : Nat

def exportSink : String := "privacy-export-spool"

def ExportHost.staged (host : ExportHost) (request : PrivacyRequest) (revision : ContentRevision)
    (payload : List UInt8) : ContentRevision where
  tenantId := request.tenantId
  artifactId := (host.identity request.requestId revision.artifactId revision.revisionId).hex
  revisionId := (host.sha256 payload).hex
  sinkId := exportSink
  contentSha256 := host.sha256 payload
  bounded := by
    have htenant : boundedIdentifier request.tenantId = true := by
      have hbounded := request.bounded
      simp only [List.all_cons, Bool.and_eq_true] at hbounded
      exact hbounded.2.1
    simp only [List.all_cons, List.all_nil, Bool.and_true, htenant, Digest.boundedIdentifier,
      Bool.true_and]
    decide

/-- The row `export` inserts for a part. -/
def ExportHost.partRow (host : ExportHost) (request : PrivacyRequest) (revision : ContentRevision)
    (payload ciphertext : List UInt8) : PartRow where
  requestId := request.requestId
  revision := (host.sha256 payload).hex
  parentArtifact := revision.artifactId
  parentRevision := revision.revisionId
  aad := ⟨request, revision, host.staged request revision payload⟩
  ciphertext := some ciphertext
  payloadDigest := host.sha256 payload

/-- `INSERT OR IGNORE INTO export_requests` -/
def Spool.opened (spool : Spool) (request : PrivacyRequest) : Spool :=
  if spool.requests.contains request.requestId then spool
  else { spool with
    requests := spool.requests.set request.requestId { request := request, state := .staging } }

/-- The canonical writer of `export`. -/
def stagePart (artifact : String) (request : PrivacyRequest) (part : PartRow) :
    Tx Spool StoreError Unit := do
  let spool ← get
  raiseIf (∃ old ∈ spool.requests.get? request.requestId,
      old.request ≠ request ∨ old.state = .revoked)
    (.privacyConflict "Immutable export request conflicts")
  set (spool.opened request)
  match spool.parts.get? artifact with
  | some old =>
    raiseIf (old.aad ≠ part.aad ∨ old.payloadDigest ≠ part.payloadDigest ∨ old.erased = true)
      (.privacyConflict "Immutable export revision conflicts")
  | none => modify fun spool => { spool with parts := spool.parts.set artifact part }

/-- `_source`: the source of a part whose locators agree with what it was encrypted under. -/
def PartRow.source (artifact : String) (part : PartRow) : Option ContentRevision :=
  let staged := part.aad.staged
  if part.aad.source.artifactId = part.parentArtifact ∧ part.aad.source.revisionId = part.parentRevision ∧
      staged.artifactId = artifact ∧ staged.revisionId = part.revision ∧
      staged.contentSha256 = part.payloadDigest ∧ staged.sinkId = exportSink ∧
      part.aad.source.tenantId = staged.tenantId ∧
      part.aad.request.tenantId = part.aad.source.tenantId ∧
      part.aad.request.requestId = part.requestId
    then some part.aad.source else none

/-- `SELECT * FROM export_parts WHERE request_id=? ORDER BY artifact`; no later step depends on the
order. -/
def Spool.partsOf (spool : Spool) (requestId : String) : List (String × PartRow) :=
  spool.parts.entries.filter fun e => e.2.requestId = requestId

def Spool.erase (spool : Spool) (artifact requestId : String) : Spool where
  parts := spool.parts.update artifact fun part => { part with ciphertext := none, erased := true }
  requests := spool.requests.update requestId fun row =>
    { row with state := .revoked, deliveryHash := none }

/-- `UPDATE export_requests SET state='ready'` -/
def Spool.seal (spool : Spool) (requestId : String) : Spool :=
  { spool with requests := spool.requests.update requestId fun row => { row with state := .ready } }

/-- `UPDATE export_requests SET delivery_hash=? WHERE id=? AND state='ready'` -/
def Spool.issue (spool : Spool) (requestId : String) (hash : Digest) : Spool :=
  { spool with requests := spool.requests.update requestId fun row =>
      if row.state = .ready then { row with deliveryHash := some hash } else row }

/-- `UPDATE export_requests SET delivered=1` -/
def Spool.acknowledge (spool : Spool) (requestId : String) : Spool :=
  { spool with requests := spool.requests.update requestId fun row => { row with delivered := true } }

/-- `delivered` -/
def Spool.delivered (spool : Spool) (requestId : String) : Bool :=
  (spool.requests.get? requestId).any fun row => row.delivered && row.state = .ready

/-! ### Calls -/

inductive ExportCall
  | stage (request : PrivacyRequest) (revision : ContentRevision) (payload : List UInt8)
  | copy (request : PrivacyRequest) (revision : ContentRevision)
  | erase (revision : ContentRevision)
  | seal (request : PrivacyRequest)
  | download (requestId : String)
  | acknowledge (requestId token : String)

def ExportCall.receives : ExportCall → Option String
  | .download requestId | .acknowledge requestId _ => some requestId
  | _ => none

inductive ExportPhase
  | start
  | staging (payload : List UInt8)
  | inserting
  | updating
  | erasing (requestId : String)
  | loaded (request : PrivacyRequest)
  | listed (request : PrivacyRequest) (parts : List (String × PartRow))
  | reading (left : List (String × PartRow))
  | compared
  | succeeded
  | failed

def ExportPhase.over : ExportPhase → Bool
  | .succeeded | .failed => true
  | _ => false

/-- A call and its place; `late` says whether a part of the request was erased before the call. -/
structure ExportOp where
  call : ExportCall
  late : Bool
  phase : ExportPhase

structure Exports where
  spool : Spool
  ops : List ExportOp

def Exports.initial : Exports := ⟨⟨.empty, .empty⟩, []⟩

inductive ExportAction
  | call (call : ExportCall)
  /-- The ledger's recording, the cipher's result and then the canonical writer. -/
  | stage (i : Nat) (recorded : Bool) (ciphertext : List UInt8) (published : Bool)
  | read (i : Nat)
  /-- The ledger says whether the request is complete, and the row of the request is read. -/
  | check (i : Nat) (complete : Bool)
  | lookup (i : Nat)
  | load (i : Nat)
  /-- The host authorizes the request, and its parts are read. -/
  | list (i : Nat) (authorized : Bool)
  /-- The host authorizes every source, and the ledger publishes every part. -/
  | clear (i : Nat) (authorized : Bool)
  | disclose (i : Nat) (published : Bool)
  | compare (i : Nat)
  | write (i : Nat) (token : String)
  | abort (i : Nat)

def Spool.lost (spool : Spool) (requestId : String) : Bool :=
  spool.parts.values.any fun part => part.requestId = requestId && part.erased

def Exports.setPhase (s : Exports) (i : Nat) (op : ExportOp) (phase : ExportPhase) : Exports :=
  { s with ops := s.ops.set i { op with phase := phase } }

/-- The phase a call of `export` begins in. -/
def exportStart (host : ExportHost) (request : PrivacyRequest) (revision : ContentRevision)
    (payload : List UInt8) : ExportPhase :=
  if request.operation ≠ .export ∨ revision.tenantId ≠ request.tenantId then .failed
  else if host.maxPartBytes < payload.length then .failed
  else if payload = [] then .succeeded
  else if host.sha256 payload ≠ revision.contentSha256 then .failed
  else .staging payload

def ExportCall.phase (host : ExportHost) : ExportCall → ExportPhase
  | .stage request revision payload => exportStart host request revision payload
  | .copy request revision =>
    if revision.sinkId ≠ exportSink ∨ revision.tenantId ≠ request.tenantId ∨
      request.operation ≠ .export then .failed else .start
  | .erase revision => if revision.sinkId ≠ exportSink then .failed else .start
  | .seal request => if request.operation ≠ .export then .failed else .start
  | .download _ | .acknowledge _ _ => .start

/-- What `copy` reads of a part: nothing of an absent or erased one. -/
def ExportHost.copied (host : ExportHost) (spool : Spool) (revision : ContentRevision) :
    Option (List UInt8) :=
  match spool.parts.get? revision.artifactId with
  | none => some []
  | some part =>
    match part.ciphertext with
    | none => some []
    | some ciphertext =>
      if part.erased then some []
      else if part.payloadDigest ≠ revision.contentSha256 then none
      else (host.decrypt part.aad ciphertext).filter fun value =>
        host.sha256 value = revision.contentSha256

def ExportHost.discloses (host : ExportHost) (spool : Spool) (artifact : String) : Bool :=
  (spool.parts.get? artifact).any fun part => !part.erased &&
    (part.ciphertext.bind (host.decrypt part.aad)).any fun payload =>
      host.sha256 payload = part.payloadDigest

def ExportOp.advance (host : ExportHost) (spool : Spool) (op : ExportOp) :
    ExportAction → Option (Spool × ExportPhase)
  | .call _ => none
  | .stage _ recorded ciphertext published =>
    match op.call, op.phase with
    | .stage request revision _, .staging payload | .copy request revision, .staging payload =>
      let staged := host.staged request revision payload
      if recorded && published then
        match atomically (stagePart staged.artifactId request
            (host.partRow request revision payload ciphertext)) spool with
        | (.ok _, spool') => some (spool', .succeeded)
        | (.error _, spool') => some (spool', .failed)
      else some (spool, .failed)
    | _, _ => none
  | .read _ =>
    match op.call, op.phase with
    | .copy request revision, .start =>
      some (spool, ((host.copied spool revision).map (exportStart host request revision)).getD .failed)
    | _, _ => none
  | .check _ complete =>
    match op.call, op.phase with
    | .seal request, .start =>
      if complete = false then some (spool, .failed)
      else match spool.requests.get? request.requestId with
        | none => some (spool, .inserting)
        | some row =>
          if row.request ≠ request ∨ row.state = .revoked then some (spool, .failed)
          else some (spool, .updating)
    | _, _ => none
  | .lookup _ =>
    match op.call, op.phase with
    | .erase revision, .start =>
      match spool.parts.get? revision.artifactId with
      | none => some (spool, .succeeded)
      | some part =>
        if part.payloadDigest ≠ revision.contentSha256 then some (spool, .failed)
        else some (spool, .erasing part.requestId)
    | _, _ => none
  | .load _ =>
    match op.call.receives, op.phase with
    | some requestId, .start =>
      match spool.requests.get? requestId with
      | some row => if row.state = .ready then some (spool, .loaded row.request) else some (spool, .failed)
      | none => some (spool, .failed)
    | _, _ => none
  | .list _ authorized =>
    match op.phase with
    | .loaded request =>
      if authorized then some (spool, .listed request (spool.partsOf request.requestId))
      else some (spool, .failed)
    | _ => none
  | .clear _ authorized =>
    match op.phase with
    | .listed request parts =>
      if authorized && parts.all fun e => (e.2.source e.1).any fun source =>
          source.tenantId = request.tenantId then some (spool, .reading parts)
      else some (spool, .failed)
    | _ => none
  | .disclose _ published =>
    match op.call, op.phase with
    | .download _, .reading (part :: left) =>
      if published && host.discloses spool part.1 then some (spool, .reading left)
      else some (spool, .failed)
    | _, _ => none
  | .compare _ =>
    match op.call, op.phase with
    | .acknowledge requestId token, .reading _ =>
      if 128 < token.length then some (spool, .failed)
      else if ((spool.requests.get? requestId).bind ExportRow.deliveryHash) = some (host.tokenHash token)
      then some (spool, .compared)
      else some (spool, .failed)
    | _, _ => none
  | .write _ token =>
    match op.call, op.phase with
    | .seal request, .inserting =>
      if spool.requests.contains request.requestId then some (spool, .failed)
      else some ({ spool with
        requests := spool.requests.set request.requestId { request := request, state := .ready } },
        .succeeded)
    | .seal request, .updating => some (spool.seal request.requestId, .succeeded)
    | .erase revision, .erasing requestId => some (spool.erase revision.artifactId requestId, .succeeded)
    | .download requestId, .reading [] =>
      some (spool.issue requestId (host.tokenHash token), .succeeded)
    | .acknowledge requestId _, .compared => some (spool.acknowledge requestId, .succeeded)
    | _, _ => none
  | .abort _ => if op.phase.over then none else some (spool, .failed)

def ExportAction.of : ExportAction → Option Nat
  | .call _ => none
  | .stage i _ _ _ | .read i | .check i _ | .lookup i | .load i | .list i _ | .clear i _ |
    .disclose i _ | .compare i | .write i _ | .abort i => some i

def exportStep (host : ExportHost) (s : Exports) (a : ExportAction) : Option Exports :=
  match a with
  | .call call =>
    let late := (call.receives.map s.spool.lost).getD false
    some { s with ops := s.ops ++ [⟨call, late, call.phase host⟩] }
  | _ => do
    let i ← a.of
    let op ← s.ops[i]?
    let (spool, phase) ← op.advance host s.spool a
    return { s.setPhase i op phase with spool := spool }

/-! ### An export of one message -/

namespace Sample

def artifactDigest : Digest :=
  ⟨"aa112233445566778899aabbccddeeff00112233445566778899aabbccddeeff", by decide⟩

def otherDigest : Digest :=
  ⟨"bb112233445566778899aabbccddeeff00112233445566778899aabbccddeeff", by decide⟩

def payloadDigest : Digest :=
  ⟨"cc112233445566778899aabbccddeeff00112233445566778899aabbccddeeff", by decide⟩

def payload : List UInt8 := [104, 105]

def exportHost : ExportHost where
  sha256 bytes := if bytes = payload then payloadDigest else otherDigest
  identity _ _ _ := artifactDigest
  tokenHash _ := otherDigest
  decrypt _ ciphertext := some ciphertext
  maxPartBytes := 8388608

def exportRequest : PrivacyRequest :=
  ⟨"export", "tenant", "mail", "inbox", 1, .export, [], by decide, PrivacyRequest.distinct_nil⟩

def message : ContentRevision := ⟨"tenant", "message/1", "r1", "runtime-ledger", payloadDigest, by decide⟩

end Sample

/-! ### What one step can do -/

theorem Spool.opened_parts (spool : Spool) (request : PrivacyRequest) :
    (spool.opened request).parts = spool.parts := by
  unfold opened
  split
  · rfl
  · rfl

theorem Spool.get?_opened {spool : Spool} {request : PrivacyRequest} {id : String} {row : ExportRow}
    (h : (spool.opened request).requests.get? id = some row) :
    spool.requests.get? id = some row ∨ spool.requests.get? id = none ∧ row.state = .staging := by
  unfold opened at h
  split at h
  · exact .inl h
  · rename_i habsent
    rw [show (spool.requests.set _ _).get? id = _ from Dict.get?_set ..] at h
    split at h
    · rename_i heq
      subst heq
      cases h
      exact .inr ⟨by simpa [Dict.contains] using habsent, rfl⟩
    · exact .inl h

theorem Spool.opened_keeps {spool : Spool} {request : PrivacyRequest} {id : String} {row : ExportRow}
    (h : spool.requests.get? id = some row) : (spool.opened request).requests.get? id = some row := by
  unfold opened
  split
  · exact h
  · rename_i habsent
    have hne : id ≠ request.requestId := by
      rintro rfl
      simp [Dict.contains, h] at habsent
    exact (Dict.get?_set_ne _ _ hne).trans h

structure Staged (spool spool' : Spool) (request : PrivacyRequest) (part : PartRow) : Prop where
  requests : spool'.requests = (spool.opened request).requests
  kept : ∀ x row, spool.parts.get? x = some row → spool'.parts.get? x = some row
  new : ∀ x row, spool'.parts.get? x = some row → spool.parts.get? x = some row ∨ row = part
  admitted : ∀ old, spool.requests.get? request.requestId = some old → old.state ≠ .revoked

theorem stagePart_ok {artifact : String} {request : PrivacyRequest} {part : PartRow}
    {spool spool' : Spool} {u : Unit} (h : stagePart artifact request part spool = .ok (u, spool')) :
    Staged spool spool' request part := by
  unfold stagePart at h
  rw [get_bind, raiseIf_bind_ok, set_bind] at h
  obtain ⟨hadmitted, h⟩ := h
  have hopen : ∀ old, spool.requests.get? request.requestId = some old → old.state ≠ .revoked :=
    fun old hold hrevoked => hadmitted ⟨old, hold, .inr hrevoked⟩
  cases hold : spool.parts.get? artifact with
  | some old =>
    simp only [hold] at h
    obtain ⟨-, hpair⟩ := raiseIf_ok.mp h
    cases hpair
    have hparts := Spool.opened_parts spool request
    exact ⟨rfl, fun _ _ h => hparts ▸ h, fun _ _ h => .inl (hparts ▸ h), hopen⟩
  | none =>
    simp only [hold] at h
    cases modify_ok.mp h
    refine ⟨rfl, fun x row hrow => ?_, fun x row hrow => ?_, hopen⟩
    · have hne : x ≠ artifact := by
        rintro rfl
        simp [hold] at hrow
      show ((spool.opened request).parts.set _ _).get? x = _
      rw [Spool.opened_parts, Dict.get?_set_ne _ _ hne, hrow]
    · rw [show ((spool.opened request).parts.set _ _).get? x = _ from Dict.get?_set ..] at hrow
      split at hrow
      · exact .inr (Option.some.inj hrow).symm
      · rw [Spool.opened_parts] at hrow
        exact .inl hrow

inductive Advance (host : ExportHost) (spool : Spool) (op : ExportOp) : Spool → ExportPhase → Prop
  | quiet {phase : ExportPhase} (hphase : ∀ requestId, phase ≠ .erasing requestId) :
      Advance host spool op spool phase
  | found {revision : ContentRevision} {part : PartRow} (hcall : op.call = .erase revision)
      (hpart : spool.parts.get? revision.artifactId = some part) :
      Advance host spool op spool (.erasing part.requestId)
  | staged {request : PrivacyRequest} {part : PartRow} {spool' : Spool}
      (hstaged : Staged spool spool' request part) (hpart : part.erased = false)
      (hrequest : part.requestId = request.requestId) :
      Advance host spool op spool' .succeeded
  | inserted {request : PrivacyRequest} (hnew : spool.requests.get? request.requestId = none) :
      Advance host spool op { spool with
        requests := spool.requests.set request.requestId { request := request, state := .ready } }
        .succeeded
  | sealed {request : PrivacyRequest} (hcall : op.call = .seal request)
      (hphase : op.phase = .updating) :
      Advance host spool op (spool.seal request.requestId) .succeeded
  | erased {revision : ContentRevision} {requestId : String} (hcall : op.call = .erase revision)
      (hphase : op.phase = .erasing requestId) :
      Advance host spool op (spool.erase revision.artifactId requestId) .succeeded
  | issued {requestId : String} (hash : Digest) :
      Advance host spool op (spool.issue requestId hash) .succeeded
  | acknowledged {requestId : String} :
      Advance host spool op (spool.acknowledge requestId) .succeeded

theorem exportStart_ne_erasing (host : ExportHost) (request : PrivacyRequest)
    (revision : ContentRevision) (payload : List UInt8) (requestId : String) :
    exportStart host request revision payload ≠ .erasing requestId := by
  unfold exportStart
  split
  · exact nofun
  · split
    · exact nofun
    · split
      · exact nofun
      · split
        · exact nofun
        · exact nofun

theorem ExportCall.phase_ne_erasing (host : ExportHost) (call : ExportCall) (requestId : String) :
    call.phase host ≠ .erasing requestId := by
  cases call with
  | stage request revision payload => exact exportStart_ne_erasing host request revision payload requestId
  | copy request revision =>
    rw [phase]
    split
    · exact nofun
    · exact nofun
  | erase revision =>
    rw [phase]
    split
    · exact nofun
    · exact nofun
  | «seal» request =>
    rw [phase]
    split
    · exact nofun
    · exact nofun
  | download requestId => exact nofun
  | acknowledge requestId token => exact nofun

theorem Advance.of_quiet {host : ExportHost} {spool spool' : Spool} {op : ExportOp}
    {phase phase' : ExportPhase} (h : some (spool, phase) = some (spool', phase'))
    (hphase : ∀ requestId, phase ≠ .erasing requestId) : Advance host spool op spool' phase' := by
  cases h
  exact .quiet hphase

theorem advance_cases {host : ExportHost} {spool spool' : Spool} {op : ExportOp} {a : ExportAction}
    {phase : ExportPhase} (h : op.advance host spool a = some (spool', phase)) :
    Advance host spool op spool' phase := by
  have hstage : ∀ {request : PrivacyRequest} {revision : ContentRevision} {payload : List UInt8}
      {recorded published : Bool} {ciphertext : List UInt8},
      (if recorded && published then
        match atomically (stagePart (host.staged request revision payload).artifactId request
            (host.partRow request revision payload ciphertext)) spool with
        | (.ok _, spool') => some (spool', ExportPhase.succeeded)
        | (.error _, spool') => some (spool', ExportPhase.failed)
      else some (spool, ExportPhase.failed)) = some (spool', phase) →
      Advance host spool op spool' phase := by
    intro request revision payload recorded published ciphertext h
    split at h
    · split at h
      · rename_i hstage
        cases h
        exact .staged (stagePart_ok (atomically_ok.mp hstage)) rfl rfl
      · rename_i hstage
        cases h
        rw [atomically_error hstage]
        exact .quiet nofun
    · exact .of_quiet h nofun
  cases a with
  | call call => cases h
  | stage i recorded ciphertext published =>
    simp only [ExportOp.advance] at h
    split at h
    · exact hstage h
    · exact hstage h
    · cases h
  | read i =>
    simp only [ExportOp.advance] at h
    split at h
    · refine .of_quiet h fun requestId => ?_
      cases host.copied spool _ with
      | none => exact nofun
      | some payload => exact exportStart_ne_erasing _ _ _ _ _
    · cases h
  | check i complete =>
    simp only [ExportOp.advance] at h
    split at h
    · split at h
      · exact .of_quiet h nofun
      · split at h
        · exact .of_quiet h nofun
        · split at h
          · exact .of_quiet h nofun
          · exact .of_quiet h nofun
    · cases h
  | lookup i =>
    simp only [ExportOp.advance] at h
    split at h
    · rename_i revision hcall hphase
      split at h
      · exact .of_quiet h nofun
      · rename_i part hpart
        split at h
        · exact .of_quiet h nofun
        · cases h
          exact .found hcall hpart
    · cases h
  | load i =>
    simp only [ExportOp.advance] at h
    split at h
    · split at h
      · split at h
        · exact .of_quiet h nofun
        · exact .of_quiet h nofun
      · exact .of_quiet h nofun
    · cases h
  | list i authorized =>
    simp only [ExportOp.advance] at h
    split at h
    · split at h
      · exact .of_quiet h nofun
      · exact .of_quiet h nofun
    · cases h
  | clear i authorized =>
    simp only [ExportOp.advance] at h
    split at h
    · split at h
      · exact .of_quiet h nofun
      · exact .of_quiet h nofun
    · cases h
  | disclose i published =>
    simp only [ExportOp.advance] at h
    split at h
    · split at h
      · exact .of_quiet h nofun
      · exact .of_quiet h nofun
    · cases h
  | compare i =>
    simp only [ExportOp.advance] at h
    split at h
    · split at h
      · exact .of_quiet h nofun
      · split at h
        · exact .of_quiet h nofun
        · exact .of_quiet h nofun
    · cases h
  | write i token =>
    simp only [ExportOp.advance] at h
    split at h
    · split at h
      · exact .of_quiet h nofun
      · rename_i habsent
        cases h
        exact .inserted (by simpa [Dict.contains] using habsent)
    · rename_i hcall hphase
      cases h
      exact .sealed hcall hphase
    · rename_i hcall hphase
      cases h
      exact .erased hcall hphase
    · cases h
      exact .issued _
    · cases h
      exact .acknowledged
    · cases h
  | abort i =>
    simp only [ExportOp.advance] at h
    split at h
    · cases h
    · exact .of_quiet h nofun

theorem exportStep_cases {host : ExportHost} {s s' : Exports} {a : ExportAction}
    (h : exportStep host s a = some s') :
    (∃ call, a = .call call ∧ s' = { s with
      ops := s.ops ++ [⟨call, (call.receives.map s.spool.lost).getD false, call.phase host⟩] }) ∨
    ∃ i op spool phase, a.of = some i ∧ s.ops[i]? = some op ∧
      op.advance host s.spool a = some (spool, phase) ∧ s' = { s.setPhase i op phase with spool := spool } := by
  unfold exportStep at h
  split at h
  · rename_i call
    exact .inl ⟨call, rfl, (Option.some.inj h).symm⟩
  · obtain ⟨i, hi, h⟩ := Option.bind_eq_some_iff.mp h
    obtain ⟨op, hop, h⟩ := Option.bind_eq_some_iff.mp h
    obtain ⟨⟨spool, phase⟩, hadvance, h⟩ := Option.bind_eq_some_iff.mp h
    exact .inr ⟨i, op, spool, phase, hi, hop, hadvance, (Option.some.inj h).symm⟩

end OpenAgent.Privacy
