import OpenAgent.Mcp.State
import OpenAgent.Lib.Transition
import OpenAgent.Lib.Place

/-!
# The steps of an MCP stdio provider

Each step is what one task does from one `await` to the next, or what the server, the operating system
or a caller does to the provider. A cancelled task is resumed with its `CancelledError` at once. The
write lock and the spawn lock may pass to any task that asks for them.
-/

namespace OpenAgent.Mcp

open Lib

inductive Step where
  /-- A call of `_request`, with the process it is meant for if it names one. -/
  | request (target : Option Nat)
  /-- The request takes the write lock and writes. -/
  | write (id : Int)
  | drained (id : Int)
  /-- `drain()` raises a connection error. -/
  | broken (id : Int)
  /-- The request resumes with its future done. -/
  | resume (id : Int)
  /-- The caller of the request is cancelled, by itself or by a timeout. -/
  | cancel (id : Int)
  /-- The notification that the request is cancelled takes the write lock. -/
  | notify (id : Int)
  | notified (id : Int)
  | line (k : Nat) (line : Line)
  /-- A line crosses the limit of the reader. -/
  | overlong (k : Nat)
  | endOfFile (k : Nat)
  | exit (k : Nat)
  /-- `_watch_process` resumes. -/
  | watch (k : Nat)
  /-- The observer that the watcher told of a death returns. -/
  | told (k : Nat)
  | start
  | superviseInitialFailure
  /-- The task takes the spawn lock. -/
  | enter (t : Launcher)
  | spawned (ok : Bool)
  | handshaken (ok : Bool)
  /-- What `_stop_process` awaits in a launch that failed is there. -/
  | launchStopped
  | launchExpired
  /-- The restart task runs for the first time or has slept. -/
  | wake (l : Nat)
  /-- The observer that the restart task told of a launch returns. -/
  | observed (l : Nat)
  | yielded (l : Nat)
  | close
  /-- What a call of `close` awaits is there. -/
  | closed (c : Nat)
  | closeExpired (c : Nat)
  /-- The catalogue task goes on; `ok` if the listing it awaited succeeded. -/
  | catalog (c : Nat) (ok : Bool)

namespace MCPStdioServer

/-! ### Requests -/

/-- `_request` up to its first `await`. -/
def request (s : MCPStdioServer) (target : Option Nat) : MCPStdioServer :=
  match target <|> s.process with
  | none => s
  | some k =>
    if s.process ≠ some k then s
    else
      let id : Int := s.nextId + 1
      let s := { s with nextId := s.nextId + 1 }
      if s.alive k then { s with pending := s.pending.set id { process := k } }
      else { s with completed := s.completed ++ [⟨id, k, .disconnected⟩] }

/-- The check of `_send`: the process is the current one and runs. -/
def connected (s : MCPStdioServer) (k : Nat) : Bool := decide (s.process = some k) && s.alive k

def write (s : MCPStdioServer) (id : Int) : Option MCPStdioServer :=
  match s.pending.get? id with
  | some r =>
    if r.stage = .queued && s.writeLock.isNone then
      if s.connected r.process then some { s.setStage id .draining with writeLock := some id }
      else some (s.leave id .disconnected)
    else none
  | none => none

def drained (s : MCPStdioServer) (id : Int) : Option MCPStdioServer :=
  match s.pending.get? id with
  | some r =>
    if r.stage = .draining then some { s.setStage id .waiting with writeLock := none } else none
  | none => none

def broken (s : MCPStdioServer) (id : Int) : Option MCPStdioServer :=
  match s.pending.get? id with
  | some r => if r.stage = .draining then some { s.leave id .lost with writeLock := none } else none
  | none => none

def resume (s : MCPStdioServer) (id : Int) : Option MCPStdioServer :=
  match s.pending.get? id with
  | some r =>
    match r.future with
    | some how => if r.stage = .waiting then some (s.leave id how) else none
    | none => none
  | none => none

/-- The `except CancelledError` of `_request`: at `await future` the future is cancelled too. -/
def cancel (s : MCPStdioServer) (id : Int) : Option MCPStdioServer :=
  match s.pending.get? id with
  | some r =>
    let s := { s with withdrawn := s.withdrawn ++ [id] }
    match r.stage with
    | .queued | .draining | .waiting =>
      let s := if r.stage = .draining then { s with writeLock := none } else s
      let s := if r.stage = .waiting then s.complete id .cancelled else s
      if s.connected r.process then some (s.setStage id .cancelling) else some (s.leave id .cancelled)
    | .cancelling => some (s.leave id .cancelled)
    | .notifying => some { s.leave id .cancelled with writeLock := none }
  | none => none

def notify (s : MCPStdioServer) (id : Int) : Option MCPStdioServer :=
  match s.pending.get? id with
  | some r =>
    if r.stage = .cancelling && s.writeLock.isNone then
      if s.connected r.process then some { s.setStage id .notifying with writeLock := some id }
      else some (s.leave id .cancelled)
    else none
  | none => none

def notified (s : MCPStdioServer) (id : Int) : Option MCPStdioServer :=
  match s.pending.get? id with
  | some r =>
    if r.stage = .notifying then some { s.leave id .cancelled with writeLock := none } else none
  | none => none

/-! ### The reader -/

def reply (fields : List (String × Value)) : Reply :=
  match fields.lookup "error" with
  | some (.obj error) =>
    let message := get error "message"
    .pluginError (if message.truthy then message else .str "MCP request failed") (get error "code")
      (get error "data")
  | some _ => .protocolError "MCP error must be an object"
  | none =>
    match get fields "result" with
    | .obj result => .result result
    | _ => .protocolError "MCP result must be an object"

/-- One round of `_read_loop`. -/
def readLine (s : MCPStdioServer) (k : Nat) : Line → MCPStdioServer
  | .raised => s.stopReading k
  | .malformed => s
  | .value (.obj fields) =>
    match get fields "id" with
    | .null =>
      match get fields "method" with
      | .str method =>
        if method = "notifications/tools/list_changed" then s.scheduleCatalogRefresh k else s
      | _ => s
    | .int id =>
      match s.pending.get? id with
      | none => s
      | some r =>
        if r.future.isSome || r.process ≠ k then s else s.complete id (.reply k id (reply fields))
    | _ => s
  | .value _ => s

def reads (s : MCPStdioServer) (k : Nat) : Bool := s.processes[k]?.any (·.reading)

/-- The `except ValueError` of `_read_loop`: the process is told to stop. -/
def overlong (s : MCPStdioServer) (k : Nat) : MCPStdioServer :=
  let s := if s.alive k then s.modifyProcess k fun p => { p with told := true } else s
  s.stopReading k

/-! ### The watcher -/

/-- `_watch_process` up to the observer. -/
def watchProcess (s : MCPStdioServer) (k : Nat) : Option MCPStdioServer :=
  match s.processes[k]? with
  | some p =>
    if p.exited && p.watcher = .waiting then
      let ended := p.expected || s.closing || !p.ready
      some (failPending { s with
        process := if s.process = some k then none else s.process
        processes := s.processes.modify k fun p => { p with
          expected := false, ready := false, watcher := if ended then .ended else .telling } } (some k))
    else none
  | none => none

def told (settings : Settings) (s : MCPStdioServer) (k : Nat) : Option MCPStdioServer :=
  if s.processes[k]?.any (·.watcher = .telling) then
    some ((s.scheduleRestart settings).modifyProcess k fun p => { p with watcher := .ended })
  else none

def superviseInitialFailure (settings : Settings) (s : MCPStdioServer) : MCPStdioServer :=
  if s.closing then s else s.scheduleRestart settings

/-! ### Launches -/

def setStart (s : MCPStdioServer) (i : Nat) (phase : StartPhase) : MCPStdioServer :=
  { s with starts := s.starts.set i phase }

/-- The task enters `async with self._spawn_lock`. -/
def enter (s : MCPStdioServer) (t : Launcher) : Option MCPStdioServer :=
  if s.spawnLock.isSome then none
  else match t with
    | .start i =>
      if s.starts[i]? = some .queued then
        if s.running then some (s.setStart i .ended)
        else some { s.setStart i .launching with
          closing := false
          restartAttempts := 0
          restartRequested := false
          spawnLock := some (t, .spawning)
          launches := 1
          served := false
          resets := s.resets + 1 }
      else none
    | .restart l =>
      if s.restarts[l]? = some .queued then
        if s.closing || s.running then some (s.endRestart l)
        else some { s.setRestart l .launching with
          spawnLock := some (t, .spawning)
          launches := s.launches + 1 }
      else none

/-- The launch has raised: what `start` and `_restart_loop` do with it. -/
def launchFailed (s : MCPStdioServer) (t : Launcher) (cancelled : Bool) : MCPStdioServer :=
  let s := { s with spawnLock := none }
  match t with
  | .start i => s.setStart i .ended
  | .restart l => if cancelled then s.endRestart l else s.setRestart l .failed

def launchReturned (s : MCPStdioServer) (t : Launcher) : MCPStdioServer :=
  let s := { s with spawnLock := none }
  match t with
  | .start i => s.setStart i .ended
  | .restart l => s.setRestart l .launched

def spawned (s : MCPStdioServer) (ok : Bool) : Option MCPStdioServer :=
  match s.spawnLock with
  | some (t, .spawning) =>
    if ok then
      let k := s.processes.length
      some { s with
        processes := s.processes ++ [{}]
        process := some k
        tasks := some k
        catalogDirty := false
        spawnLock := some (t, .handshaking k) }
    else some (s.launchFailed t false)
  | _ => none

/-- The `except BaseException` of `_launch`. -/
def abandon (s : MCPStdioServer) (t : Launcher) (k : Nat) (cancelled : Bool) : MCPStdioServer :=
  let (s, stop) := s.stopProcess k
  { s with spawnLock := some (t, .stopping stop cancelled) }

def handshaken (s : MCPStdioServer) (ok : Bool) : Option MCPStdioServer :=
  match s.spawnLock with
  | some (t, .handshaking k) =>
    if !ok || !s.connected k then some (s.abandon t k false)
    else
      let s := { s.modifyProcess k fun p => { p with ready := true } with served := true }
      let s := if s.catalogDirty then s.scheduleCatalogRefresh k else s
      some (s.launchReturned t)
  | _ => none

def launchStopped (s : MCPStdioServer) : Option MCPStdioServer :=
  match s.spawnLock with
  | some (t, .stopping stop cancelled) =>
    match s.resumeStop stop with
    | some (s, some stop) => some { s with spawnLock := some (t, .stopping stop cancelled) }
    | some (s, none) => some (s.launchFailed t cancelled)
    | none => none
  | _ => none

def launchExpired (s : MCPStdioServer) : Option MCPStdioServer :=
  match s.spawnLock with
  | some (t, .stopping stop cancelled) =>
    (expireStop stop).map fun stop => { s with spawnLock := some (t, .stopping stop cancelled) }
  | _ => none

/-! ### The restart task -/

def wake (settings : Settings) (s : MCPStdioServer) (l : Nat) : Option MCPStdioServer :=
  match s.restarts[l]? with
  | some .created => some (s.restartLoop settings l)
  | some (.sleeping attempt) =>
    if s.closing then some (s.endRestart l)
    else some { s.setRestart l .queued with restartAttempts := attempt, restartRequested := false }
  | _ => none

def observed (settings : Settings) (s : MCPStdioServer) (l : Nat) : Option MCPStdioServer :=
  match s.restarts[l]? with
  | some .failed => some (s.restartLoop settings l)
  | some .launched => some (s.setRestart l .yielding)
  | _ => none

def yielded (settings : Settings) (s : MCPStdioServer) (l : Nat) : Option MCPStdioServer :=
  match s.restarts[l]? with
  | some .yielding =>
    if s.restartRequested || s.process.isNone then some (s.restartLoop settings l)
    else some (s.endRestart l)
  | _ => none

/-- The restart task is resumed with a `CancelledError`. -/
def cancelRestart (s : MCPStdioServer) (l : Nat) : MCPStdioServer :=
  match s.restarts[l]? with
  | some .created => s.setRestart l .ended
  | some .launching =>
    match s.spawnLock with
    | some (t, .handshaking k) => s.abandon t k true
    | _ => { s.endRestart l with spawnLock := none }
  | some .ended | none => s
  | some _ => s.endRestart l

/-! ### `close` -/

def setClose (s : MCPStdioServer) (c : Nat) (phase : ClosePhase) : MCPStdioServer :=
  { s with closes := s.closes.modify c fun t => { t with phase } }

/-- The end of `close`: the reader and the watcher are cancelled. -/
def closeTasks (s : MCPStdioServer) (c : Nat) : MCPStdioServer :=
  match s.tasks with
  | none => s.setClose c .gathering
  | some k =>
    let s := if s.reads k then s.stopReading k else s
    (s.modifyProcess k fun p => { p with watcher := .ended }).setClose c .gathering

def closeProcess (s : MCPStdioServer) (c : Nat) : MCPStdioServer :=
  let s := { s with restartTask := none }
  match s.process with
  | some k =>
    let (s, stop) := s.stopProcess k
    s.setClose c (.stopping stop)
  | none => (s.failPending none).closeTasks c

def closeRestart (s : MCPStdioServer) (c : Nat) : MCPStdioServer :=
  let s := { s with catalogTask := none, catalogProcess := none }
  match s.restartTask with
  | some l => (s.cancelRestart l).setClose c (.restart l)
  | none => s.closeProcess c

/-- `close` up to its first `await`; the phase that the new call is given here is set at once. -/
def close (s : MCPStdioServer) : MCPStdioServer :=
  let c := s.closes.length
  let s := { s with
    closing := true
    served := false
    closes := s.closes ++ [Close.mk (.catalog 0) s.resets] }
  match s.catalogTask with
  | some t =>
    (if s.catalogActive t then s.setCatalog t .cancelled else s).setClose c (.catalog t)
  | none => s.closeRestart c

def closed (s : MCPStdioServer) (c : Nat) : Option MCPStdioServer :=
  match s.closes[c]? with
  | none => none
  | some call =>
    match call.phase with
    | .catalog t => if s.catalogActive t then none else some (s.closeRestart c)
    | .restart l => if s.restartActive l then none else some (s.closeProcess c)
    | .stopping stop =>
      match s.resumeStop stop with
      | some (s, some stop) => some (s.setClose c (.stopping stop))
      | some (s, none) => some (s.closeTasks c)
      | none => none
    | .gathering => some { s.setClose c .returned with tasks := none }
    | .returned => none

def closeExpired (s : MCPStdioServer) (c : Nat) : Option MCPStdioServer :=
  match s.closes[c]? with
  | none => none
  | some call =>
    match call.phase with
    | .stopping stop => (expireStop stop).map fun stop => s.setClose c (.stopping stop)
    | _ => none

/-! ### The catalogue task -/

/-- The head of the loop in `_refresh_catalog`. -/
def refreshLoop (s : MCPStdioServer) (c k : Nat) : MCPStdioServer :=
  if s.catalogDirty && decide (s.process = some k) && !s.closing then
    { s.setCatalog c .listing with catalogDirty := false }
  else s.endCatalog c

def catalog (s : MCPStdioServer) (c : Nat) (ok : Bool) : Option MCPStdioServer :=
  match s.catalogs[c]? with
  | none => none
  | some task =>
    match task.phase with
    | .created | .telling => some (s.refreshLoop c task.process)
    | .listing =>
      let current := if ok then s.connected task.process else decide (s.process = some task.process)
      if s.closing || !current then some (s.endCatalog c) else some (s.setCatalog c .telling)
    | .cancelled => some (s.endCatalog c)
    | .ended => none

end MCPStdioServer

open MCPStdioServer

def step (settings : Settings) (s : MCPStdioServer) : Step → Option MCPStdioServer
  | .request target => some (s.request target)
  | .write id => s.write id
  | .drained id => s.drained id
  | .broken id => s.broken id
  | .resume id => s.resume id
  | .cancel id => s.cancel id
  | .notify id => s.notify id
  | .notified id => s.notified id
  | .line k line => if s.reads k then some (s.readLine k line) else none
  | .overlong k => if s.reads k then some (s.overlong k) else none
  | .endOfFile k => if s.reads k then some (s.stopReading k) else none
  | .exit k => if s.alive k then some (s.modifyProcess k fun p => { p with exited := true }) else none
  | .watch k => s.watchProcess k
  | .told k => s.told settings k
  | .start => some { s with starts := s.starts ++ [.queued] }
  | .superviseInitialFailure => some (s.superviseInitialFailure settings)
  | .enter t => s.enter t
  | .spawned ok => s.spawned ok
  | .handshaken ok => s.handshaken ok
  | .launchStopped => s.launchStopped
  | .launchExpired => s.launchExpired
  | .wake l => s.wake settings l
  | .observed l => s.observed settings l
  | .yielded l => s.yielded settings l
  | .close => some s.close
  | .closed c => s.closed c
  | .closeExpired c => s.closeExpired c
  | .catalog c ok => s.catalog c ok

/-! ### What the operations do -/

namespace MCPStdioServer

theorem alive_eq_true {s : MCPStdioServer} {k : Nat} :
    s.alive k = true ↔ ∃ p, s.processes[k]? = some p ∧ p.exited = false := by
  simp [alive, Option.any_eq_true]

theorem alive_modifyProcess {s : MCPStdioServer} {f : Process → Process} (hf : ∀ p, (f p).exited = p.exited)
    (k j : Nat) : (s.modifyProcess k f).alive j = s.alive j := by
  rw [Bool.eq_iff_iff, alive_eq_true, alive_eq_true]
  simp only [modifyProcess, getElem?_modify_eq_some]
  constructor
  · rintro ⟨_, ⟨p, hp, rfl⟩, hexited⟩
    refine ⟨p, hp, ?_⟩
    split at hexited
    · rwa [hf] at hexited
    · exact hexited
  · rintro ⟨p, hp, hexited⟩
    refine ⟨_, ⟨p, hp, rfl⟩, ?_⟩
    split
    · rwa [hf]
    · exact hexited

end MCPStdioServer

end OpenAgent.Mcp
