import OpenAgent.Lib.Transition
import Mathlib.Data.List.MinMax

/-!
# Content of messages

The messages of a turn appear in their table some time after the turn. What a turn brought along is stored
on the newest message above the boundary that the turn captured when it began, whichever turn that message
is of.
-/

namespace OpenAgent.Messages

open Lib

inductive Role
  | user | assistant | tool | compaction
deriving DecidableEq

/-- A row of `session_messages` of the session; `turn` is the history of the turn it was projected from. -/
structure Message where
  id : String
  turn : Nat
  role : Role
  sequence : Nat
  userVisible : Bool
deriving DecidableEq

/-- A turn of the session with its `sequence_floor`. -/
structure Turn where
  userFloor : Int := -1
  assistantFloor : Int := -1
  done : Bool := false

def Turn.floor (turn : Turn) : Role → Int
  | .user => turn.userFloor
  | .assistant => turn.assistantFloor
  | .tool | .compaction => -1

/-- A row of `artifact_links` with `resource_type='message'`. The role of its message is the relation;
`turn` is the history of the turn that stored it. -/
structure Link where
  message : String
  role : Role
  ordinal : Nat
  artifact : String
  turn : Nat

inductive Content
  | text (text : String)
  | attachment (artifact : String)
  | uiView (view : String) (revision : Int)
deriving DecidableEq

/-- A row of `session_message_parts`; `role` and `turn` are the history of who stored it. -/
structure Part where
  message : String
  ordinal : Nat
  content : Content
  role : Role
  turn : Nat

structure Session where
  messages : List Message := []
  turns : List Turn := []
  /-- The artifacts that are linked to the session itself. -/
  sessionLinks : List String := []
  links : List Link := []
  parts : List Part := []

structure Access where
  sessionVisible : Bool
  available : String → Bool
  artifactVisible : String → Bool
  /-- The revision of the inline view is of this session and visible. -/
  viewVisible : String → Int → Bool

inductive RawPart
  | text (text : String)
  | attachment (artifact : String)
  | uiView (view : String) (revision : Int)
  | other

def maxMessageParts : Nat := 512

def maxTextPartBytes : Nat := 2 * 1024 * 1024

/-! ### Finding the message -/

/-- `SELECT COALESCE(MAX(sequence), -1)` -/
def Session.latestMessageSequence (s : Session) (role : Role) : Int :=
  ((s.messages.filter (·.role = role)).map fun m => (m.sequence : Int)).foldl max (-1)

def Session.candidates (s : Session) (role : Role) (floor : Int) : List Message :=
  s.messages.filter fun m => m.role = role ∧ m.userVisible ∧ floor < m.sequence

/-- `ORDER BY sequence DESC LIMIT 1`; no two rows of a session have one sequence. -/
def Session.latest (s : Session) (role : Role) (floor : Int) : Option Message :=
  (s.candidates role floor).argmax Message.sequence

def Session.message? (s : Session) (id : String) : Option Message := s.messages.find? (·.id = id)

/-! ### Storing content -/

def Session.linkAt? (s : Session) (message : String) (role : Role) (ordinal : Nat) : Option Link :=
  s.links.find? fun l => l.message = message ∧ l.role = role ∧ l.ordinal = ordinal

def Session.addLink (s : Session) (l : Link) : Session := { s with links := s.links ++ [l] }

/-- One attachment of `link_attachments_to_latest_message`. -/
def Session.linkOne (access : Access) (turn : Nat) (role : Role) (message : String) (s : Session)
    (ordinal : Nat) (artifact : String) : Session :=
  if artifact = "" then s
  else if !access.available artifact || !access.artifactVisible artifact then s
  else
    -- `_ensure_link`
    let s := if artifact ∈ s.sessionLinks then s else { s with sessionLinks := s.sessionLinks ++ [artifact] }
    match s.linkAt? message role ordinal with
    | some _ => s
    | none => s.addLink ⟨message, role, ordinal, artifact, turn⟩

/-- `link_attachments_to_latest_message`, at the time it finds a message or gives up. -/
def Session.linkAttachments (access : Access) (turn : Nat) (role : Role) (floor : Int) (s : Session)
    (attachments : List String) : Session :=
  if attachments = [] ∨ role ∉ [.user, .assistant] then s
  else
    match s.latest role floor with
    | none => s
    | some message =>
      if !access.sessionVisible then s
      else
        attachments.zipIdx.foldl
          (fun s entry => s.linkOne access turn role message.id entry.2 entry.1) s

/-- `_attachment_link`: the artifact of the link that it finds or makes. -/
def Session.attachmentLink (access : Access) (turn : Nat) (role : Role) (message : String) (s : Session)
    (ordinal : Nat) (artifact : String) : Session × Option String :=
  match s.linkAt? message role ordinal with
  | some l => (s, if artifact = "" ∨ l.artifact = artifact then some l.artifact else none)
  | none =>
    if artifact ≠ "" ∧ access.available artifact ∧ artifact ∈ s.sessionLinks then
      (s.addLink ⟨message, role, ordinal, artifact, turn⟩, some artifact)
    else (s, none)

structure Draft where
  session : Session
  rows : List Content := []
  attachmentOrdinal : Nat := 0

/-- One part of `persist_parts_for_latest_message`, `none` if it raises. -/
def Draft.collect (access : Access) (turn : Nat) (role : Role) (message : String) (d : Draft) :
    RawPart → Option Draft
  | .text text =>
    if text = "" then some d
    else if maxTextPartBytes < text.utf8ByteSize then none
    else some { d with rows := d.rows ++ [.text text] }
  | .attachment artifact =>
    let (session, link) := d.session.attachmentLink access turn role message d.attachmentOrdinal artifact
    some { session, rows := d.rows ++ link.toList.map .attachment, attachmentOrdinal := d.attachmentOrdinal + 1 }
  | .uiView view revision =>
    if role = .assistant ∧ view ≠ "" ∧ 0 < revision ∧ access.viewVisible view revision then
      some { d with rows := d.rows ++ [.uiView view revision] }
    else some d
  | .other => some d

/-- `persist_parts_for_latest_message`, at the time it finds a message or gives up. What raises is rolled
back. -/
def Session.persistParts (access : Access) (turn : Nat) (role : Role) (floor : Int) (s : Session)
    (parts : List RawPart) : Session :=
  if role ∉ [.user, .assistant] ∨ maxMessageParts < parts.length then s
  else
    match s.latest role floor with
    | none => s
    | some message =>
      if !access.sessionVisible then s
      -- the parts of a message are written once; a second set is compared with them, or raises
      else if s.parts.any (·.message = message.id) then s
      else
        match parts.foldlM (fun d part => d.collect access turn role message.id part) { session := s : Draft } with
        | none => s
        | some d =>
          { d.session with
            parts := d.session.parts ++
              d.rows.zipIdx.map fun row => ⟨message.id, row.2, row.1, role, turn⟩ }

/-! ### Turns and projections -/

inductive Event
  /-- A turn captures its boundary, or cannot read it. -/
  | begins (captured : Bool)
  /-- A message of a turn appears. -/
  | project (m : Message)
  | link (turn : Nat) (role : Role) (access : Access) (attachments : List String)
  | persist (turn : Nat) (role : Role) (access : Access) (parts : List RawPart)
  /-- The runner of a turn is done with its content. -/
  | finish (turn : Nat)

/-- `sequence_floor` -/
def Session.capture (s : Session) (captured : Bool) : Turn :=
  if captured then
    { userFloor := s.latestMessageSequence .user, assistantFloor := s.latestMessageSequence .assistant }
  else {}

def step (s : Session) : Event → Option Session
  | .begins captured => some { s with turns := s.turns ++ [s.capture captured] }
  | .project m =>
    if m.turn < s.turns.length ∧ s.messages.all (fun row => row.id ≠ m.id ∧ row.sequence ≠ m.sequence) then
      some { s with messages := s.messages ++ [m] }
    else none
  | .link turn role access attachments =>
    match s.turns[turn]? with
    | some t => if t.done then none else some (s.linkAttachments access turn role (t.floor role) attachments)
    | none => none
  | .persist turn role access parts =>
    match s.turns[turn]? with
    | some t => if t.done then none else some (s.persistParts access turn role (t.floor role) parts)
    | none => none
  | .finish turn => some { s with turns := s.turns.modify turn fun t => { t with done := true } }

end OpenAgent.Messages
