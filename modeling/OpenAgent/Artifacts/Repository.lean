import OpenAgent.Artifacts.Access

/-!
# The attachment repository

Bytes are kept once by digest and an artifact row belongs to who brought them first. Links lead from an artifact to a session,
directly or through a message or a tool invocation of it, and may be written before the session is. An ingest resolves the
artifacts its attachments name, copies the files they bring and links both to its session; it rolls the tables back where an
attachment fails, though not the bytes it has copied. A file is known by the digest of its bytes.
-/

namespace OpenAgent.Artifacts

open Lib

inductive Direction
  | input
  | output
deriving DecidableEq

/-- A row of `artifacts`; an `owner` that is absent is empty. -/
structure Artifact where
  tenantId : String
  owner : String
  originalFilename : String
  sha256 : String
  deleted : Bool
  available : Bool
deriving DecidableEq

inductive Resource
  | session (id : String)
  | message (id : String)
  | toolInvocation (id : String)
deriving DecidableEq

/-- A row of `artifact_links`, whose relation is the attachment of a direction. -/
structure Link where
  id : Nat
  tenantId : String
  artifactId : Nat
  resource : Resource
  relation : Direction
  ordinal : Nat
  displayName : String
deriving DecidableEq

/-- A row of `session_messages`. -/
structure Message where
  tenantId : String
  sessionId : String
  role : String
  userVisible : Bool
  sequence : Int
deriving DecidableEq

/-- A row of `tool_invocations`. -/
structure ToolInvocation where
  tenantId : String
  sessionId : String
deriving DecidableEq

/-- Messages are in the order of their sequence, links in that of their creation; `cas` has the digests whose bytes are intact. -/
structure Tables where
  networkId : String
  sessions : Dict String SessionRow
  acl : List Grant
  artifacts : Dict Nat Artifact
  links : List Link
  messages : Dict String Message
  toolInvocations : Dict String ToolInvocation
  cas : List String
  minted : Nat

inductive Refusal
  | artifactNotFound
  | artifactIntegrity
  | untrustedPath
  | unreadable
  | unmaterialized
  | permissionDenied
deriving DecidableEq

namespace Tables

variable (T : Tables)

def liveArtifact (id : Nat) : Option Artifact :=
  (T.artifacts.get? id).filter fun artifact => !artifact.deleted && artifact.available

def liveSession (tenantId sessionId : String) : Option (String × SessionRow) :=
  ((T.sessions.get? sessionId).filter fun row => row.tenantId = tenantId && !row.deleted).map (sessionId, ·)

def parent (tenantId : String) : Resource → Option (String × SessionRow)
  | .session id => T.liveSession tenantId id
  | .message id =>
    ((T.messages.get? id).filter fun message => message.tenantId = tenantId).bind fun message =>
      T.liveSession tenantId message.sessionId
  | .toolInvocation id =>
    ((T.toolInvocations.get? id).filter fun tool => tool.tenantId = tenantId).bind fun tool =>
      T.liveSession tenantId tool.sessionId

def candidate (access : AccessContext) (link : Link) : Option (Nat × String) :=
  (T.parent link.tenantId link.resource).bind fun (sessionId, row) =>
    if resourceIsVisible T.acl sessionId row access "view" then
      some (if row.owner.getD "" ∈ access.principalIds then 2 else 1, link.displayName)
    else none

end Tables

def better : Option (Nat × String) → Nat × String → Option (Nat × String)
  | none, candidate => some candidate
  | some found, candidate => if candidate.1 > found.1 then some candidate else some found

def best (candidates : List (Nat × String)) : Option (Nat × String) := candidates.foldl better none

/-- `_artifact_access_on_connection`: nothing where the artifact is not visible, else the name it goes by. -/
def Tables.artifactAccess (T : Tables) (id : Nat) (artifact : Artifact) (access : AccessContext) : Option (Option String) :=
  if artifact.tenantId ≠ access.tenantId then none
  else if artifact.owner ≠ "" ∧ artifact.owner ∈ access.principalIds then some (present artifact.originalFilename)
  else
    (best ((T.links.filter fun link => link.tenantId = artifact.tenantId && link.artifactId = id).filterMap
      (T.candidate access))).map fun found => present found.2

/-- `artifact_authorized_row`: the row and the name it is presented under. -/
def Tables.artifactAuthorizedRow (T : Tables) (id : Nat) (principal : Principal) : Except Refusal (Artifact × Option String) :=
  match principal.accessContext, T.liveArtifact id with
  | some access, some artifact =>
    match T.artifactAccess id artifact access with
    | none => .error .artifactNotFound
    | some displayName =>
      if artifact.sha256 ∈ T.cas then .ok (artifact, displayName.or (present artifact.originalFilename))
      else .error .artifactIntegrity
  | _, _ => .error .artifactNotFound

/-- `artifact_for_legacy_path`, for a path that is the place of `sha256` in the store. -/
def Tables.artifactForLegacyPath (T : Tables) (sha256 : String) (principal : Principal) :
    Except Refusal (Artifact × Option String) :=
  match principal.accessContext with
  | none => .error .artifactNotFound
  | some access =>
    match T.artifacts.entries.find? fun (_, artifact) =>
      artifact.tenantId = access.tenantId && artifact.sha256 = sha256 && !artifact.deleted && artifact.available with
    | none => .error .artifactNotFound
    | some (id, artifact) =>
      match T.artifactAccess id artifact access with
      | none => .error .artifactNotFound
      | some displayName =>
        if sha256 ∈ T.cas then .ok (artifact, displayName.or (present artifact.originalFilename))
        else .error .artifactIntegrity

/-- `_ownership`: the tenant and the owner of what an ingest brings. -/
def Tables.ownership (T : Tables) (sessionId : String) (principal : Principal) (direction : Direction) :
    Except Refusal (String × String) :=
  let row := if sessionId = "" then none else (T.sessions.get? sessionId).filter fun row => !row.deleted
  let orLocal := fun (owner : Option String) => owner.getD (if direction = .output then "agent:openagent" else "user:local")
  match row with
  | none => .ok (principal.fields.1.getD T.networkId, orLocal principal.fields.2)
  | some row =>
    if principal.fields.1.any (· ≠ row.tenantId) then .error .artifactNotFound
    else if principal.accessContext.any fun access => !resourceIsVisible T.acl sessionId row access "view" then
      .error .artifactNotFound
    else .ok (row.tenantId, orLocal ((row.owner.bind present).or principal.fields.2))

/-- `_copy_into_cas` -/
def Tables.copyIntoCas (T : Tables) (sha256 : String) : Tables := { T with cas := sha256 :: T.cas }

/-- `_ensure_artifact_row`; the insertion fails where the id or the place of the bytes is taken. -/
def Tables.ensureArtifactRow (T : Tables) (tenantId owner sha256 filename : String) : Tables × Option (Nat × Artifact) :=
  let placed := fun (entry : Nat × Artifact) => decide (entry.2.tenantId = tenantId ∧ entry.2.sha256 = sha256)
  match T.artifacts.entries.find? fun entry => placed entry && !entry.2.deleted && entry.2.available with
  | some entry => (T, some entry)
  | none =>
    let T := { T with minted := T.minted + 1
                      artifacts :=
                        if T.artifacts.contains T.minted || T.artifacts.entries.any placed then T.artifacts
                        else T.artifacts.set T.minted ⟨tenantId, owner, filename, sha256, false, true⟩ }
    (T, T.artifacts.entries.find? fun entry => placed entry && !entry.2.deleted)

/-- `_ensure_link` -/
def Tables.ensureLink (T : Tables) (id : Nat) (artifact : Artifact) (sessionId : String) (relation : Direction)
    (displayName : String) (existingLinkId : Option Nat) : Tables × Option Nat :=
  if sessionId = "" then (T, none)
  else
    match T.links.find? fun link => existingLinkId = some link.id && link.tenantId = artifact.tenantId &&
      link.artifactId = id && link.resource = .session sessionId && link.relation = relation with
    | some link => (T, some link.id)
    | none =>
      let ordinal := ((T.links.filter fun link => link.tenantId = artifact.tenantId && link.resource = .session sessionId &&
        link.relation = relation).map fun link => link.ordinal + 1).foldr max 0
      ({ T with minted := T.minted + 1
                links := T.links ++ [⟨T.minted, artifact.tenantId, id, .session sessionId, relation, ordinal, displayName⟩] },
        some T.minted)

/-- What a client sends for an attachment; `file` is its path, by the digest of what is there to be copied. -/
structure Raw where
  file : Option (Option String) := none
  artifactId : Option Nat := none
  linkId : Option Nat := none
  filename : String := ""
deriving DecidableEq

/-- `_attachment_ref` -/
structure AttachmentRef where
  artifactId : Nat
  sha256 : String
  filename : String
  linkId : Option Nat
deriving DecidableEq

structure IngestRequest where
  sessionId : String
  direction : Direction
  allowLocalPaths : Bool
  attachments : List Raw
deriving DecidableEq

/-- One turn of the loop of `_persist_attachments`; the tables stand as they are when it raises. -/
def Tables.persistOne (T : Tables) (principal : Principal) (request : IngestRequest) (tenantId owner : String) (raw : Raw) :
    Tables × Except Refusal (Option AttachmentRef) :=
  match raw.artifactId.bind fun id => (T.liveArtifact id).filter (·.tenantId = tenantId) |>.map (id, ·) with
  | some (id, existing) =>
    -- Without an access context the visibility of the artifact is not asked for.
    if principal.accessContext.any fun access => (T.artifactAccess id existing access).isNone then
      (T, .error .artifactNotFound)
    else if existing.sha256 ∉ T.cas then (T, .error .artifactIntegrity)
    else
      let filename := if raw.filename = "" then existing.originalFilename else raw.filename
      let (T, linkId) := T.ensureLink id existing request.sessionId request.direction filename raw.linkId
      (T, .ok (some ⟨id, existing.sha256, filename, linkId⟩))
  | none =>
    match raw.file with
    | none => (T, if raw.artifactId.isSome then .error .artifactNotFound else .ok none)
    | some file =>
      if request.allowLocalPaths = false then (T, .error .untrustedPath)
      else
        match file with
        | none => (T, .error .unreadable)
        | some sha256 =>
          let (T, row) := (T.copyIntoCas sha256).ensureArtifactRow tenantId owner sha256 raw.filename
          match row with
          | none => (T, .error .unmaterialized)
          | some (id, artifact) =>
            let (T, linkId) := T.ensureLink id artifact request.sessionId request.direction raw.filename none
            (T, .ok (some ⟨id, sha256, raw.filename, linkId⟩))

def Tables.persistEach (T : Tables) (principal : Principal) (request : IngestRequest) (tenantId owner : String) :
    List Raw → Tables × Except Refusal (List AttachmentRef)
  | [] => (T, .ok [])
  | raw :: rest =>
    match T.persistOne principal request tenantId owner raw with
    | (T, .error refusal) => (T, .error refusal)
    | (T, .ok reference) =>
      match T.persistEach principal request tenantId owner rest with
      | (T, .error refusal) => (T, .error refusal)
      | (T, .ok references) => (T, .ok (reference.toList ++ references))

/-- `rollback` gives back the tables; the bytes that were copied stay. -/
def Tables.settle {α : Type} (T : Tables) : Tables × Except Refusal α → Tables × Except Refusal α
  | (after, .error refusal) => ({ T with cas := after.cas }, .error refusal)
  | (after, .ok value) => (after, .ok value)

/-- `_persist_attachments` -/
def Tables.persistAttachments (T : Tables) (principal : Principal) (request : IngestRequest) :
    Tables × Except Refusal (List AttachmentRef) :=
  if request.attachments = [] then (T, .ok [])
  else
    match T.ownership request.sessionId principal request.direction with
    | .error refusal => (T, .error refusal)
    | .ok (tenantId, owner) => T.settle (T.persistEach principal request tenantId owner request.attachments)

structure LinkRequest where
  sessionId : String
  role : String
  afterSequence : Int
  attachments : List Raw
deriving DecidableEq

def LinkRequest.relation (request : LinkRequest) : Direction := if request.role = "user" then .input else .output

def Tables.latestMessage (T : Tables) (request : LinkRequest) : Option (String × Message) :=
  T.messages.entries.reverse.find? fun (_, message) =>
    message.sessionId = request.sessionId && message.role = request.role && message.userVisible &&
      decide (message.sequence > request.afterSequence)

def Tables.linkMessage (T : Tables) (relation : Direction) (messageId tenantId : String) (ordinal id : Nat)
    (displayName : String) : Tables :=
  if T.links.any fun link => link.tenantId = tenantId && link.resource = .message messageId && link.relation = relation &&
    link.ordinal = ordinal then T
  else { T with minted := T.minted + 1
                links := T.links ++ [⟨T.minted, tenantId, id, .message messageId, relation, ordinal, displayName⟩] }

/-- One turn of the loop of `link_attachments_to_latest_message`. -/
def Tables.linkOne (T : Tables) (principal : Principal) (request : LinkRequest) (messageId tenantId : String) (ordinal : Nat)
    (raw : Raw) : Tables :=
  match raw.artifactId.bind fun id => (T.liveArtifact id).filter (·.tenantId = tenantId) |>.map (id, ·) with
  | none => T
  | some (id, artifact) =>
    if principal.accessContext.any fun access => (T.artifactAccess id artifact access).isNone then T
    else
      let filename := if raw.filename = "" then artifact.originalFilename else raw.filename
      let inherited := T.links.any fun link =>
        link.tenantId = tenantId && link.artifactId = id && link.resource = .session request.sessionId
      let T := if inherited then T else (T.ensureLink id artifact request.sessionId request.relation filename none).1
      T.linkMessage request.relation messageId tenantId ordinal id filename

def Tables.linkEach (T : Tables) (principal : Principal) (request : LinkRequest) (messageId tenantId : String) :
    Nat → List Raw → Tables
  | _, [] => T
  | ordinal, raw :: rest =>
    (T.linkOne principal request messageId tenantId ordinal raw).linkEach principal request messageId tenantId (ordinal + 1) rest

/-- `link_attachments_to_latest_message`, with the message the attachments went to. -/
def Tables.linkAttachments (T : Tables) (principal : Principal) (request : LinkRequest) : Tables × Option String :=
  if request.attachments = [] ∨ request.role ∉ ["user", "assistant"] then (T, none)
  else
    match T.latestMessage request with
    | none => (T, none)
    | some (messageId, message) =>
      match T.liveSession message.tenantId request.sessionId with
      | none => (T, none)
      | some (_, row) =>
        if principal.accessContext.any fun access => !resourceIsVisible T.acl request.sessionId row access "view" then (T, none)
        else (T.linkEach principal request messageId message.tenantId 0 request.attachments, some messageId)

/-- What the host hands to `upload`; its authorizer is asked about the agent and the session before and after the copying. -/
structure UploadRequest where
  tenantId : String
  key : String
  sha256 : String
  filename : String
  sessionId : String
  authorized : Bool
  stillAuthorized : Bool
deriving DecidableEq

/-- The transaction of `ArtifactRepository.upload`. -/
def Tables.register (T : Tables) (request : UploadRequest) : Tables × Except Refusal AttachmentRef :=
  let (T, row) := T.ensureArtifactRow request.tenantId request.key request.sha256 request.filename
  match row with
  | none => (T, .error .unmaterialized)
  | some (id, artifact) =>
    if request.sessionId = "" ∧ artifact.owner ≠ request.key then (T, .error .permissionDenied)
    else
      let (T, linkId) := T.ensureLink id artifact request.sessionId .input request.filename none
      (T, .ok ⟨id, request.sha256, request.filename, linkId⟩)

/-- `ArtifactRepository.upload` -/
def Tables.upload (T : Tables) (request : UploadRequest) : Tables × Except Refusal AttachmentRef :=
  if request.authorized = false then (T, .error .permissionDenied)
  else
    let copied := T.copyIntoCas request.sha256
    if request.stillAuthorized = false then (copied, .error .permissionDenied) else copied.settle (copied.register request)

end OpenAgent.Artifacts
