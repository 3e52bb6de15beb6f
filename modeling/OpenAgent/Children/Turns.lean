import OpenAgent.Deliveries.Failures

/-!
# The turns of child sessions

A turn that dies does not raise: what went wrong is rendered as the answer's text, and a context variable
marks the turn. The variable belongs to a task. A nested child that runs in the task of its parent's turn
writes the same variable, and what is written in a task of its own never comes back.
-/

namespace OpenAgent.Children

open Lib

/-- An exception in a turn: `text` is `str(e)`, `shown` is `repr(e)`, and `provider` says that it is a
`NativeProviderError`. -/
structure TurnError where
  typeName : String
  text : String
  shown : String
  provider : Bool

/-- `str(e) or repr(e)` -/
def TurnError.message (e : TurnError) : String := if e.text = "" then e.shown else e.text

/-- What `_format_run_error` leaves in `_run_failure_var`. -/
def TurnError.mark (e : TurnError) : String := clip 500 (e.typeName ++ ": " ++ e.message)

/-- What `_format_run_error` returns. -/
def formatRunError (e : TurnError) : String :=
  if e.provider then "⚠️ Model provider error\n\n" ++ e.text
  else if e.message = "" then "⚠️ " ++ e.typeName
  else "⚠️ " ++ e.typeName ++ ": " ++ e.message

/-- What `mark_run_failure` leaves in `_run_failure_var`. -/
def markRunFailure (detail : String) : String := clip 500 (if detail = "" then "unknown" else detail)

/-- How the agent's turn ends. An exception of the run is rendered, one from outside of it is raised. -/
inductive Ending
  | answered (text : String)
  | died (e : TurnError)
  | raised
  | cancelled

def Ending.isAnswer : Ending → Bool
  | .answered _ => true
  | _ => false

/-- How `_run` runs the child: by `run_stream`, by `run`, or as a run of the public runtime, whose `spawn`
raises unless it accepts the run. -/
inductive Mode
  | streamed
  | plain
  | publicRun (accepted : Bool)

/-- A call of `run_child_session` that is not refused: `root` is the chain that it belongs to. -/
structure Call where
  root : Option String
  mode : Mode

/-- A turn: it marks itself, it runs nested children, and it ends. Each of this happens in the task of the
turn, or in another task. -/
inductive Turn
  | ends (deltas : List String) (ending : Ending)
  | mark (sameTask : Bool) (detail : String) (rest : Turn)
  | spawn (sameTask : Bool) (call : Call) (child : Turn) (rest : Turn)

def Turn.ending : Turn → Ending
  | .ends _ ending => ending
  | .mark _ _ rest | .spawn _ _ _ rest => rest.ending

def Turn.deltas : Turn → List String
  | .ends deltas _ => deltas
  | .mark _ _ rest | .spawn _ _ _ rest => rest.deltas

def Turn.failed : Turn → Bool
  | .ends _ ending => !ending.isAnswer
  | .mark _ _ _ => true
  | .spawn _ _ _ rest => rest.failed

/-- The text of the `done` event, or what `run` returns. -/
def Ending.text : Ending → Option String
  | .answered text => some text
  | .died e => some (formatRunError e)
  | .raised | .cancelled => none

/-- `_run_streamed`. The text of the `done` event counts only if no delta had any. -/
def Turn.streamedText (turn : Turn) : Option String :=
  turn.ending.text.map fun tail =>
    let parts := turn.deltas.filter (· ≠ "")
    String.join (if parts.isEmpty then [tail] else parts)

/-- `ChildSessionResult` -/
structure ChildSessionResult where
  text : String
  failed : Bool
  error : Option String
deriving DecidableEq

/-- `_chain_semaphore` returns a semaphore. -/
def Call.capped (limit : Int) (call : Call) : Bool :=
  decide (call.root.getD "" ≠ "" ∧ 0 < limit)

structure RunRecord where
  status : String
  output : Option String

/-- `_execute` of the engine, as a run: `after` is the marker at the end of the turn. -/
def Turn.execute (turn : Turn) (after : Option String) : RunRecord :=
  match turn.ending with
  | .answered text =>
    -- `if failure:`
    if after.getD "" = "" then ⟨"success", some text⟩ else ⟨"failed", none⟩
  | .died _ | .raised => ⟨"failed", none⟩
  | .cancelled => ⟨"cancelled", none⟩

/-- `_run`: its text, unless it raises, and the marker afterwards. `after` is what the agent's turn makes of
the marker. -/
def Call.run (call : Call) (turn : Turn) (after : Option String → Option String) (marker : Option String) :
    Option String × Option String :=
  match call.mode with
  | .streamed => (turn.streamedText, after marker)
  | .plain => (turn.ending.text, after marker)
  | .publicRun false => (none, marker)
  | .publicRun true =>
    -- the run has a task of its own, and starts by clearing the marker
    let record := turn.execute (after none)
    (some (record.output.getD ""),
      if record.status ≠ "success" then some (markRunFailure record.status) else marker)

/-- `run_child_session` from where it has its semaphores: the result, unless it raises, and the marker
afterwards. -/
def Call.perform (limit : Int) (call : Call) (turn : Turn) (after : Option String → Option String)
    (marker : Option String) : Option ChildSessionResult × Option String :=
  if call.capped limit then
    -- `clear_run_failure`, and `take_run_failure` once there is a text
    match call.run turn after none with
    | (some text, failure) => (some ⟨text, failure.isSome, failure⟩, none)
    | (none, marker) => (none, marker)
  else
    match call.run turn after marker with
    | (some text, marker) => (some ⟨text, false, none⟩, marker)
    | (none, marker) => (none, marker)

def Turn.after (limit : Int) : Turn → Option String → Option String
  | .ends _ (.died e), _ => some e.mark
  | .ends _ _, marker => marker
  | .mark sameTask detail rest, marker =>
    rest.after limit (if sameTask then some (markRunFailure detail) else marker)
  | .spawn sameTask call child rest, marker =>
    rest.after limit (if sameTask then (call.perform limit child (child.after limit) marker).2 else marker)

def runChildSession (limit : Int) (call : Call) (turn : Turn) (marker : Option String) :
    Option ChildSessionResult :=
  (call.perform limit turn (turn.after limit) marker).1

/-! ### Who awaits the child -/

/-- `_dispatch_prompt`, from the child's result on. -/
def dispatchPrompt (config : Deliveries.Config) (L : LowerCase) (result : ChildSessionResult) :
    Deliveries.Result :=
  if result.failed then Deliveries.dispatchPromptFailed config L result.error result.text
  else { status := some .success, output := some (config.retainOutput result.text) }

structure AiPromptConfig where
  prompt : String
  system : Option String
  /-- There is an execution context. -/
  authorized : Bool

/-- What an `ai-prompt` block gives to its child. -/
def AiPromptConfig.seed (strip : String → String) (cfg : AiPromptConfig) : String :=
  match cfg.system with
  | none | some "" => cfg.prompt
  | some system => "[Workflow node instructions]\n" ++ strip system ++ "\n\n" ++ cfg.prompt

inductive NodeError
  | promptRequired | permission | childRaised
deriving DecidableEq

/-- `_h_ai_prompt`; `run` is the child session for a seed. The output is the child's text. -/
def hAiPrompt (strip : String → String) (cfg : AiPromptConfig)
    (run : String → Option ChildSessionResult) : Except NodeError String :=
  if cfg.prompt = "" then .error .promptRequired
  else if !cfg.authorized then .error .permission
  else
    match run (cfg.seed strip) with
    | none => .error .childRaised
    | some result => .ok result.text

inductive NodeStatus
  | success | failed
deriving DecidableEq

/-- The trace entry that `_run_node` leaves. -/
structure TraceEntry where
  status : NodeStatus
  output : Option String
  error : Option NodeError

/-- `_run_node`, from what its handler comes to. -/
def runNode : Except NodeError String → TraceEntry
  | .ok output => ⟨.success, some output, none⟩
  | .error e => ⟨.failed, none, some e⟩

end OpenAgent.Children
