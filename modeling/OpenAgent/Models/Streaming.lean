import OpenAgent.Contracts

/-!
# Streaming a run of the runtime

`_arun_runtime_stream` reads the events of a run, of its members and of their tools, and yields text, markers of media
and notices. It keeps what it holds back: the text of members that run in sessions of their own, the text of the last
completion, and the media that only a completion has. What to make of these is decided after the last event.
-/

namespace OpenAgent.Models.Streaming

/-! ### Events -/

inductive MediaKind
  | image | video | audio | file
deriving DecidableEq

/-- An output of the runtime. `address` is `id(media)`. -/
structure Media where
  id : Option String := none
  filepath : Option String := none
  url : Option String := none
  address : Nat

def given (text : Option String) : Option String := text.filter (· ≠ "")

def Media.stableId (media : Media) : String :=
  ((given media.id).or <| (given media.filepath).or <| given media.url).getD ("object:" ++ toString media.address)

abbrev Key := MediaKind × String

def keyOf (item : MediaKind × Media) : Key := (item.1, item.2.stableId)

/-- A tool call; `memberId` is the `member_id` among its arguments, if it is a text. -/
structure Tool where
  toolName : String
  memberId : Option String := none

/-- The classes of events. Those of an agent and of a team have the same names and are treated alike, but the
intermediate content is a team's. -/
inductive Kind
  | content | intermediate | toolStarted | toolCompleted | toolError | completed | failed | cancelled | other
deriving DecidableEq

/-- An event of the runtime. `source` is its `team_id` or `agent_id`, and `media` has its images, videos, audio and files
one after another. The `speaker` is whose text it is, the run's own or a member's, and nothing reads it. -/
structure Event where
  kind : Kind
  session : Option String := none
  run : Option String := none
  source : Option String := none
  content : Option String := none
  image : Option Media := none
  media : List (MediaKind × Media) := []
  tool : Option Tool := none
  error : Option String := none
  errorType : Option String := none
  reason : Option String := none
  metrics : Nat × Nat × Nat := (0, 0, 0)
  finalAnswer : Option String := none
  speaker : Nat := 0

/-- `event.content or ""` -/
def Event.text (e : Event) : String := e.content.getD ""

/-- What the stream is given: its session, whether members run in sessions of their own, the identity of the runtime, the
id of the run, and what `_save_agno_output_media` makes of an output. -/
structure Config where
  session : String
  memberSessions : Bool
  runtimeId : Option String
  run : Option String
  save : MediaKind → Media → Option String

def Config.ownSession (cfg : Config) (e : Event) : Bool :=
  match e.session with
  | none => true
  | some session => session == cfg.session

def Config.isMember (cfg : Config) (e : Event) : Bool := e.kind == .intermediate || !cfg.ownSession e

/-- `is_parent_run_event` -/
def Config.isParentRunEvent (cfg : Config) (e : Event) : Bool :=
  match given cfg.runtimeId with
  | none => false
  | some identity => e.session == some cfg.session && given e.source == some identity

/-! ### The stream -/

inductive Out
  | text (text : String)
  | marker (key : Key) (text : String)
  | status (tool : Tool) (error : Option String) (started : Bool)
  | traced (tool : Option Tool)
  | delegate (memberId : String)
  | usage (metrics : Nat × Nat × Nat)
  | runId (run : String)

def Out.text? : Out → Option String
  | .text piece => some piece
  | _ => none

def Out.key? : Out → Option Key
  | .marker shown _ => some shown
  | _ => none

inductive Terminal
  | cancelled (reason : String)
  | failed (content : Option String) (errorType : Option String)

structure State where
  out : List Out := []
  yieldedText : Bool := false
  emittedMedia : List Key := []
  completionMedia : List Out := []
  suppressedContent : List String := []
  completedContent : Option String := none
  completedAnswer : Option String := none
  parentRun : Option String
  reported : Bool := false
  terminalError : Option (Option String × Option String) := none
  terminalCancel : Option String := none

def outputMediaFailure : MediaKind → String
  | .image => "\n(Output image could not be saved as an attachment.)\n"
  | .video => "\n(Output video could not be saved as an attachment.)\n"
  | .audio => "\n(Output audio could not be saved as an attachment.)\n"
  | .file => "\n(Output file could not be saved as an attachment.)\n"

/-- `_output_media_markers`: what has been emitted afterwards, and a marker for every output that had not been. -/
def outputMediaMarkers (cfg : Config) : List Key → List (MediaKind × Media) → List Key × List Out
  | emitted, [] => (emitted, [])
  | emitted, item :: rest =>
    if keyOf item ∈ emitted then outputMediaMarkers cfg emitted rest
    else
      let later := outputMediaMarkers cfg (keyOf item :: emitted) rest
      (later.1, .marker (keyOf item) ((cfg.save item.1 item.2).getD (outputMediaFailure item.1)) :: later.2)

/-- `_emit_status`, which says nothing of a tool without a name. -/
def emitStatus (tool : Option Tool) (error : Option String) (started : Bool) : List Out :=
  match tool with
  | none => []
  | some tool => if tool.toolName = "" then [] else [.status tool error started]

/-- `_extract_delegated_member_id` -/
def delegatedMember (tool : Option Tool) : Option String :=
  tool.bind fun tool => if tool.toolName = "delegate_task_to_member" then given tool.memberId else none

def Event.shown (e : Event) : List (MediaKind × Media) :=
  match e.kind with
  | .content | .intermediate => e.image.toList.map (.image, ·)
  | .toolCompleted | .completed => e.media
  | _ => []

def State.reportRun (s : State) (e : Event) : State :=
  match given e.run with
  | none => s
  | some run => if s.reported then s else { s with reported := true, out := s.out ++ [.runId run] }

def State.adoptRun (cfg : Config) (s : State) (e : Event) : State :=
  if cfg.isParentRunEvent e && s.parentRun.isNone then { s with parentRun := e.run } else s

def State.record (cfg : Config) (s : State) (e : Event) : State :=
  if !cfg.ownSession e then s
  else
    match e.kind with
    | .completed => {
        s with
        out := s.out ++ [.usage e.metrics]
        completedAnswer :=
          if cfg.isParentRunEvent e && (given s.parentRun).isSome && e.run == s.parentRun then e.finalAnswer
          else s.completedAnswer
        completedContent := if present e.text then some e.text else s.completedContent }
    | .failed => { s with terminalError := some (e.content, e.errorType) }
    | .cancelled => { s with terminalCancel := some ((given e.reason).getD "Runtime stream was cancelled") }
    | _ => s

def State.forward (cfg : Config) (s : State) (e : Event) : State :=
  let shown := outputMediaMarkers cfg s.emittedMedia e.shown
  match e.kind with
  | .content | .intermediate => {
      s with
      yieldedText := s.yieldedText || e.text != ""
      emittedMedia := shown.1
      out := s.out ++ (if e.text = "" then [] else [.text e.text]) ++ shown.2 }
  | .toolStarted => {
      s with
      out := s.out ++ (delegatedMember e.tool).toList.map .delegate ++ emitStatus e.tool none true }
  | .toolCompleted => {
      s with
      emittedMedia := shown.1
      out := s.out ++ .traced e.tool :: emitStatus e.tool none false ++ shown.2 }
  | .toolError => { s with out := s.out ++ .traced e.tool :: emitStatus e.tool e.error false }
  | .completed => { s with emittedMedia := shown.1, completionMedia := s.completionMedia ++ shown.2 }
  | _ => s

def Config.suppresses (cfg : Config) (e : Event) : Bool := cfg.memberSessions && cfg.isMember e

def State.step (cfg : Config) (s : State) (e : Event) : State :=
  let s := ((s.reportRun e).adoptRun cfg e).record cfg e
  if cfg.suppresses e then { s with suppressedContent := s.suppressedContent ++ (given e.content).toList }
  else s.forward cfg e

/-- What is yielded after the last event: the text of the members if the run has yielded none, then the text of the
last completion, then the media that only a completion had. -/
def State.rest (cfg : Config) (s : State) : List Out :=
  let ofMembers := cfg.memberSessions && !s.yieldedText && !s.suppressedContent.isEmpty
  (if ofMembers then [.text (String.join s.suppressedContent)] else []) ++
    (if s.yieldedText || ofMembers then [] else (given s.completedContent).toList.map .text) ++ s.completionMedia

def State.finish (cfg : Config) (s : State) : Except Terminal (List Out) :=
  match s.terminalCancel, s.terminalError with
  | some reason, _ => .error (.cancelled reason)
  | none, some (content, errorType) => .error (.failed content errorType)
  | none, none => .ok (s.out ++ s.rest cfg)

def drain (cfg : Config) (events : List Event) : State := events.foldl (State.step cfg) { parentRun := cfg.run }

/-- `_arun_runtime_stream` -/
def arunRuntimeStream (cfg : Config) (events : List Event) : Except Terminal (List Out) := (drain cfg events).finish cfg

def piecesOf (out : List Out) : List String := out.filterMap Out.text?

def textOf (out : List Out) : String := String.join (piecesOf out)

def markersOf (out : List Out) : List Key := out.filterMap Out.key?

end OpenAgent.Models.Streaming
