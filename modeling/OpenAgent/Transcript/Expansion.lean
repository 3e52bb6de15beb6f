import Mathlib.Data.List.Basic

/-!
# Expanding a run into its transcript

`expand_run_messages` turns a stored run into the messages that a client shows: its own messages one after another, with
the run of a team member spliced in behind the delegation that it answers. How a message is presented (its text without
markers, its author, attachments and parts) is left out; an entry keeps the message that it shows and what is shown
with it.
-/

namespace OpenAgent.Transcript

/-- `a or b`, where an absent value and an empty text are both false. -/
def either (a b : Option String) : Option String :=
  match a with
  | some text => if text = "" then b else a
  | none => b

def given (a : Option String) : Option String := either a none

/-- An entry of `run["tools"]`; `memberId` is the argument of that name, where the arguments are a dictionary. -/
structure Tool where
  toolName : Option String := none
  name : Option String := none
  toolCallId : Option String := none
  toolUseId : Option String := none
  id : Option String := none
  memberId : Option String := none
  childRunId : Option String := none
  childSessionId : Option String := none
deriving DecidableEq

/-- A message of a run. `empty` says that its content is false. -/
structure Message where
  role : String := "user"
  text : String := ""
  empty : Bool := false
  fromHistory : Bool := false
  toolCallId : Option String := none
  toolUseId : Option String := none
  name : Option String := none
  toolName : Option String := none
deriving DecidableEq

/-- What a stored run holds beside its member responses. A message that is not a dictionary is `none`. -/
structure RunInfo where
  agentId : Option String := none
  teamId : Option String := none
  runId : Option String := none
  sessionId : Option String := none
  model : Option String := none
  compaction : Bool := false
  images : Bool := false
  messages : List (Option Message) := []
  tools : List Tool := []
deriving DecidableEq

inductive Run
  | mk (info : RunInfo) (memberResponses : List Run)

def Run.info : Run → RunInfo
  | .mk info _ => info

/-- What the caller passes down to every nested run. `canonical` says whether the canonical message of a run at an
ordinal under a role has parts or attachments, where there is one. -/
structure Context where
  parentSessionId : Option String := none
  childByRunId : String → Option String := fun _ => none
  authorizedChildSessions : List String := []
  canonicalInput : String → Option String := fun _ => none
  canonical : String → Nat → String → Option Bool := fun _ _ _ => none

structure Entry where
  id : Nat
  role : String
  message : Option Message := none
  toolInfo : Option Tool := none
  model : Option String := none
  images : Bool := false
  original : Bool := false
  runId : Option String := none
deriving DecidableEq

/-! ### Tools and delegations -/

/-- `stored_tool_to_wire` -/
def storedToolToWire (tool : Tool) : Option Tool := if (given tool.toolName).isSome then some tool else none

/-- `run_tools_by_id.get(id)`: the last tool with the id. -/
def toolById (tools : List Tool) (id : String) : Option Tool :=
  (tools.reverse.filterMap storedToolToWire).find? fun t =>
    decide (either t.toolCallId (either t.toolUseId (given t.id)) = some id)

/-- `run_tools_by_name.get(name)`: the first tool with the name. -/
def toolByName (tools : List Tool) (name : String) : Option Tool :=
  (tools.filterMap storedToolToWire).find? fun t => decide (given t.toolName = some name)

def toolCallIdOf (m : Message) : Option String := either m.toolCallId (given m.toolUseId)

def toolInfoOf (info : RunInfo) (m : Message) : Option Tool :=
  match (toolCallIdOf m).bind (toolById info.tools) with
  | some tool => some tool
  | none => (either m.name (given m.toolName)).bind (toolByName info.tools)

def isDelegate (tool : Option Tool) : Bool := tool.any fun t => decide (t.toolName = some "delegate_task_to_member")

/-- `members_by_id.get(id)`: the first response of the member. -/
def memberById (members : List RunInfo) (id : String) : Option Nat :=
  members.findIdx? fun r => decide (either r.agentId (given r.teamId) = some id)

def memberByRunId (members : List RunInfo) (id : String) : Option Nat :=
  members.findIdx? fun r => decide (given r.runId = some id)

def childRunOf (info : RunInfo) (m : Message) : Option String :=
  match toolCallIdOf m with
  | none => none
  | some id =>
    ((info.tools.find? fun t => decide (either t.toolCallId (given t.toolUseId) = some id)).bind Tool.childRunId).bind
      fun r => given (some r)

def nextUnspliced (members : List RunInfo) (spliced : List Nat) : Option Nat :=
  (List.range members.length).find? fun i => decide (i ∉ spliced)

/-- The response that a delegation is matched to: by the member it names, by the child run of its tool, or the next one
that has not been spliced. -/
def memberIndex (info : RunInfo) (members : List RunInfo) (spliced : List Nat) (m : Message) : Option Nat :=
  let tool := toolInfoOf info m
  if isDelegate tool then
    match ((tool.bind Tool.memberId).bind fun id => given (some id)).bind (memberById members) with
    | some i => some i
    | none =>
      match (childRunOf info m).bind (memberByRunId members) with
      | some i => some i
      | none => nextUnspliced members spliced
  else none

variable (ctx : Context)

def ranApart (r : RunInfo) : Bool := (given r.sessionId).any fun id => decide (some id ≠ ctx.parentSessionId)

def childSession (members : List RunInfo) (tool : Option Tool) (index : Option Nat) : Option String :=
  match ((tool.bind Tool.childRunId).bind fun id => given (some id)).bind ctx.childByRunId with
  | some id => some id
  | none =>
    match index.bind fun i => members[i]? with
    | some r => if ranApart ctx r then given r.sessionId else none
    | none => none

def runsAsChild (members : List RunInfo) (tool : Option Tool) (index : Option Nat) : Bool :=
  (given (childSession ctx members tool index)).any fun id => decide (some id ≠ ctx.parentSessionId)

def shownTool (members : List RunInfo) (tool : Option Tool) (index : Option Nat) : Option Tool :=
  match tool with
  | none => none
  | some t =>
    let child := childSession ctx members tool index
    let authorized : Option String → Bool := fun id => id.any fun s => decide (s ∈ ctx.authorizedChildSessions)
    let filled :=
      if runsAsChild ctx members tool index && authorized child && (given t.childSessionId).isNone then
        { t with childSessionId := child }
      else t
    if authorized filled.childSessionId then some filled else some { filled with childSessionId := none }

/-! ### The walk -/

def shown (info : RunInfo) (isMember : Bool) (ordinal : Nat) (m : Message) : Bool :=
  if m.role = "system" ∨ m.fromHistory = true then false
  else if isMember = true ∧ m.role = "user" then false
  else if m.role = "tool" then true
  else
    let canonical := if isMember then none else ctx.canonical (info.runId.getD "") ordinal m.role
    !(m.empty && decide (m.role = "assistant") && !(canonical.getD false))

structure Walk where
  out : List Entry := []
  counter : Nat
  spliced : List Nat := []
  images : Bool
  original : Bool

def entryOf (info : RunInfo) (members : List RunInfo) (model : Option String) (isMember : Bool) (w : Walk)
    (m : Message) : Entry where
  id := w.counter + 1
  role := m.role
  message := some m
  toolInfo :=
    if m.role = "tool" then
      shownTool ctx members (toolInfoOf info m) (memberIndex info members w.spliced m)
    else none
  model := if m.role = "assistant" then given model else none
  images := decide (m.role = "assistant") && w.images
  original := decide (m.role = "user") && w.original
  runId := if isMember then none else given (ctx.canonicalInput (info.runId.getD ""))

def expandMessage (info : RunInfo) (members : List RunInfo) (expansions : List (Nat → List Entry × Nat))
    (model : Option String) (isMember : Bool) (w : Walk) (message : Option Message × Nat) : Walk :=
  match message with
  | (none, _) => w
  | (some m, ordinal) =>
    if shown ctx info isMember ordinal m then
      let w' := { w with
        out := w.out ++ [entryOf ctx info members model isMember w m]
        counter := w.counter + 1
        images := w.images && decide (m.role ≠ "assistant")
        original := w.original && decide (m.role ≠ "user") }
      if m.role = "tool" then
        match memberIndex info members w.spliced m with
        | none => w'
        | some i =>
          let w' := { w' with spliced := w.spliced ++ [i] }
          if runsAsChild ctx members (toolInfoOf info m) (some i) then w'
          else
            match expansions[i]? with
            | none => w'
            | some expand =>
              let (entries, counter) := expand w'.counter
              { w' with out := w'.out ++ entries, counter := counter }
      else w'
    else w

def expandLeft (members : List RunInfo) (expansions : List (Nat → List Entry × Nat)) (spliced : List Nat)
    (out : List Entry × Nat) (i : Nat) : List Entry × Nat :=
  if i ∈ spliced then out
  else
    match members[i]?, expansions[i]? with
    | some r, some expand =>
      if ranApart ctx r then out
      else
        let (entries, counter) := expand out.2
        (out.1 ++ entries, counter)
    | _, _ => out

def expandInfo (info : RunInfo) (members : List RunInfo) (expansions : List (Nat → List Entry × Nat))
    (model : Option String) (isMember : Bool) (counter : Nat) : List Entry × Nat :=
  if info.compaction then ([{ id := counter + 1, role := "compaction" }], counter + 1)
  else
    let original := !isMember && (ctx.canonicalInput (info.runId.getD "")).isSome
    let w := info.messages.zipIdx.foldl (expandMessage ctx info members expansions model isMember)
      { counter := counter, images := info.images, original := original }
    (List.range members.length).foldl (expandLeft ctx members expansions w.spliced) (w.out, w.counter)

mutual

/-- `expand_run_messages` -/
def expandRun (parentModel : Option String) (isMember : Bool) : Run → Nat → List Entry × Nat
  | .mk info members =>
    let model := either info.model parentModel
    expandInfo ctx info (members.map Run.info) (expandMembers model members) model isMember

def expandMembers (model : Option String) : List Run → List (Nat → List Entry × Nat)
  | [] => []
  | r :: rest => expandRun model true r :: expandMembers model rest

end

end OpenAgent.Transcript
