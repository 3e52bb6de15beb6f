import OpenAgent.Lib.Dict

/-!
# The state of an MCP stdio provider

One object serves one configured server command. It starts the process, keeps a table of the requests
that await a response, reads the process's standard output line by line, and starts the process anew
when it dies. The requests, the readers, the watchers of successive processes, the task that restarts
and the calls of `start` and `close` all share its attributes and take turns at every `await`.

`completed`, `withdrawn`, `launches`, `served` and `resets` are not in the source: they record what
became of the requests and what happened since the last start. The manifest, the error texts and the
contents of the catalogue are left out; when a call is made, and whether a handshake succeeds, is up to
the callers and to the server.
-/

namespace OpenAgent.Mcp

open Lib

/-- What `json.loads` returns. -/
inductive Value where
  | null
  | bool (b : Bool)
  | int (n : Int)
  | float (text : String)
  | str (text : String)
  | arr (items : List Value)
  | obj (fields : List (String × Value))

/-- `value.get(key)` -/
def get (fields : List (String × Value)) (key : String) : Value := (fields.lookup key).getD .null

def Value.truthy : Value → Bool
  | .null => false
  | .bool b => b
  | .int n => n ≠ 0
  | .float text => text ∉ ["0.0", "-0.0"]
  | .str text => text ≠ ""
  | .arr items => !items.isEmpty
  | .obj fields => !fields.isEmpty

/-- A line of standard output under `json.loads`. -/
inductive Line where
  /-- An error other than `JSONDecodeError`: bytes that are not UTF-8, a number of too many digits, a
  nesting that is too deep. -/
  | raised
  /-- `JSONDecodeError` -/
  | malformed
  | value (v : Value)

inductive Reply where
  | result (fields : List (String × Value))
  | pluginError (message code data : Value)
  | protocolError (text : String)

inductive Completion where
  /-- A response with this id, read from this process. -/
  | reply (process : Nat) (id : Int) (reply : Reply)
  /-- `HostError("plugin_disconnected", …)` -/
  | disconnected
  /-- The pipe to the process broke while the request was written. -/
  | lost
  | cancelled

inductive Stage where
  /-- Before the write lock. -/
  | queued
  /-- In `drain()`, with the write lock. -/
  | draining
  /-- At `await future`. -/
  | waiting
  /-- Cancelled, with `notifications/cancelled` before the write lock. -/
  | cancelling
  /-- Cancelled, with the notification in `drain()`. -/
  | notifying
  deriving DecidableEq

/-- An entry of `_pending` and `_pending_process`. -/
structure Request where
  process : Nat
  stage : Stage := .queued
  /-- `None` while the future is not done. -/
  future : Option Completion := none

structure Completed where
  id : Int
  process : Nat
  how : Completion

/-- The `_watch_process` task of a process. -/
inductive Watcher where
  /-- At `process.wait()`. -/
  | waiting
  /-- At `_notify_state_change`, before `_schedule_restart`. -/
  | telling
  | ended
  deriving DecidableEq

structure Process where
  /-- `returncode is not None` -/
  exited : Bool := false
  /-- It was sent `terminate()`. -/
  told : Bool := false
  /-- Its `_read_loop` still reads. -/
  reading : Bool := true
  watcher : Watcher := .waiting
  /-- It is in `_ready_processes`. -/
  ready : Bool := false
  /-- It is in `_expected_exits`. -/
  expected : Bool := false

inductive StopStage where
  /-- At `wait_for(process.wait(), timeout=3)`. -/
  | terminating
  /-- At `process.wait()` after `kill()`. -/
  | killing
  /-- At `gather(watcher)`. -/
  | gathering (watcher : Option Nat)

/-- A call of `_stop_process`. -/
structure Stop where
  process : Nat
  stage : StopStage

inductive Launcher where
  | start (i : Nat)
  | restart (l : Nat)
  deriving DecidableEq

/-- Where `_launch` stands. -/
inductive Launch where
  /-- At `create_subprocess_exec`. -/
  | spawning
  /-- Between the launch of the process and the end of `tools/list`. -/
  | handshaking (process : Nat)
  /-- In the `except` branch; `cancelled` if it re-raises a cancellation. -/
  | stopping (stop : Stop) (cancelled : Bool)

inductive StartPhase where
  | queued
  | launching
  | ended
  deriving DecidableEq

/-- Where a `_restart_loop` stands. -/
inductive RestartPhase where
  | created
  | sleeping (attempt : Nat)
  /-- At the spawn lock. -/
  | queued
  | launching
  /-- At `_notify_state_change` after a failed launch. -/
  | failed
  /-- At `_notify_state_change` after a launch. -/
  | launched
  /-- At `sleep(0)`. -/
  | yielding
  | ended
  deriving DecidableEq

inductive ClosePhase where
  /-- At `gather(catalog)`. -/
  | catalog (c : Nat)
  /-- At `gather(restart)`. -/
  | restart (l : Nat)
  | stopping (stop : Stop)
  /-- At `gather` of the reader and the watcher. -/
  | gathering
  | returned

structure Close where
  phase : ClosePhase
  /-- The starts that had taken effect when it was called. -/
  resets : Nat

inductive CatalogPhase where
  | created
  | listing
  | telling
  | cancelled
  | ended
  deriving DecidableEq

/-- A `_refresh_catalog` task. -/
structure Catalog where
  process : Nat
  phase : CatalogPhase := .created

structure MCPStdioServer where
  /-- Every process in the order of launch. -/
  processes : List Process := []
  process : Option Nat := none
  /-- The process whose tasks `_reader` and `_watcher` are. -/
  tasks : Option Nat := none
  pending : Dict Int Request := .empty
  /-- The request that holds the write lock. -/
  writeLock : Option Int := none
  nextId : Nat := 0
  closing : Bool := false
  restartAttempts : Nat := 0
  restartRequested : Bool := false
  restartTask : Option Nat := none
  restarts : List RestartPhase := []
  starts : List StartPhase := []
  closes : List Close := []
  /-- The holder of the spawn lock and where its launch stands. -/
  spawnLock : Option (Launcher × Launch) := none
  catalogTask : Option Nat := none
  catalogProcess : Option Nat := none
  catalogDirty : Bool := false
  catalogs : List Catalog := []
  completed : List Completed := []
  /-- The requests whose callers were cancelled. -/
  withdrawn : List Int := []
  /-- The launches since the last start. -/
  launches : Nat := 0
  /-- A process has become ready since the last start or close. -/
  served : Bool := false
  /-- The starts that took effect. -/
  resets : Nat := 0

structure Settings where
  restartLimit : Nat

namespace MCPStdioServer

def alive (s : MCPStdioServer) (k : Nat) : Bool := s.processes[k]?.any (!·.exited)

/-- `self.process is not None and self.process.returncode is None` -/
def running (s : MCPStdioServer) : Bool := s.process.any s.alive

def modifyProcess (s : MCPStdioServer) (k : Nat) (f : Process → Process) : MCPStdioServer :=
  { s with processes := s.processes.modify k f }

/-! ### Requests -/

def complete (s : MCPStdioServer) (id : Int) (how : Completion) : MCPStdioServer :=
  match s.pending.get? id with
  | none => s
  | some r =>
    if r.future.isSome then s
    else { s with
      pending := s.pending.set id { r with future := some how }
      completed := s.completed ++ [⟨id, r.process, how⟩] }

/-- The `finally` of `_request`. -/
def leave (s : MCPStdioServer) (id : Int) (how : Completion) : MCPStdioServer :=
  let s := s.complete id how
  { s with pending := s.pending.pop id }

def setStage (s : MCPStdioServer) (id : Int) (stage : Stage) : MCPStdioServer :=
  { s with pending := s.pending.update id fun r => { r with stage } }

def concerns (process : Option Nat) (r : Request) : Bool :=
  r.future.isNone && process.all (r.process = ·)

/-- `_fail_pending`, for one process or for all. -/
def failPending (s : MCPStdioServer) (process : Option Nat) : MCPStdioServer :=
  { s with
    pending := s.pending.map fun _ r =>
      if concerns process r then { r with future := some .disconnected } else r
    completed := s.completed ++ (s.pending.entries.filter fun e => concerns process e.2).map
      fun e => ⟨e.1, e.2.process, .disconnected⟩ }

/-- The `_read_loop` of a process ends. -/
def stopReading (s : MCPStdioServer) (k : Nat) : MCPStdioServer :=
  (s.modifyProcess k fun p => { p with reading := false }).failPending (some k)

/-! ### The catalogue -/

def catalogActive (s : MCPStdioServer) (c : Nat) : Bool := s.catalogs[c]?.any (·.phase ≠ .ended)

def setCatalog (s : MCPStdioServer) (c : Nat) (phase : CatalogPhase) : MCPStdioServer :=
  { s with catalogs := s.catalogs.modify c fun t => { t with phase } }

/-- The `finally` of `_refresh_catalog`. -/
def endCatalog (s : MCPStdioServer) (c : Nat) : MCPStdioServer :=
  let s := s.setCatalog c .ended
  if s.catalogTask = some c then { s with catalogTask := none, catalogProcess := none } else s

def newCatalog (s : MCPStdioServer) (k : Nat) : MCPStdioServer :=
  { s with
    catalogProcess := some k
    catalogTask := some s.catalogs.length
    catalogs := s.catalogs ++ [{ process := k }] }

/-- `_schedule_catalog_refresh` -/
def scheduleCatalogRefresh (s : MCPStdioServer) (k : Nat) : MCPStdioServer :=
  if s.closing || s.process ≠ some k then s
  else
    let s := { s with catalogDirty := true }
    if !s.processes[k]?.any (·.ready) then s
    else match s.catalogTask with
      | none => s.newCatalog k
      | some c =>
        if !s.catalogActive c then s.newCatalog k
        else if s.catalogProcess = some k then s
        else (s.setCatalog c .cancelled).newCatalog k

/-! ### The supervisor -/

def restartActive (s : MCPStdioServer) (l : Nat) : Bool := s.restarts[l]?.any (· ≠ .ended)

/-- `_schedule_restart` -/
def scheduleRestart (settings : Settings) (s : MCPStdioServer) : MCPStdioServer :=
  if s.closing || settings.restartLimit ≤ s.restartAttempts then s
  else if s.restartTask.any s.restartActive then { s with restartRequested := true }
  else { s with
    restartTask := some s.restarts.length
    restarts := s.restarts ++ [.created] }

def setRestart (s : MCPStdioServer) (l : Nat) (phase : RestartPhase) : MCPStdioServer :=
  { s with restarts := s.restarts.set l phase }

/-- The `finally` of `_restart_loop`. -/
def endRestart (s : MCPStdioServer) (l : Nat) : MCPStdioServer :=
  let s := s.setRestart l .ended
  if s.restartTask = some l then { s with restartTask := none } else s

/-- The head of the loop in `_restart_loop`. -/
def restartLoop (settings : Settings) (s : MCPStdioServer) (l : Nat) : MCPStdioServer :=
  if s.restartAttempts < settings.restartLimit then s.setRestart l (.sleeping (s.restartAttempts + 1))
  else s.endRestart l

/-- `_stop_process` up to its first `await`: a process that runs is sent `terminate()`. -/
def stopProcess (s : MCPStdioServer) (k : Nat) : MCPStdioServer × Stop :=
  ({ s with
      process := if s.process = some k then none else s.process
      processes := s.processes.modify k fun p =>
        { p with expected := true, ready := false, told := p.told || !p.exited } },
    ⟨k, if s.alive k then .terminating else .gathering s.tasks⟩)

/-- `_stop_process` goes on: `none` while what it awaits is not there. -/
def resumeStop (s : MCPStdioServer) (stop : Stop) : Option (MCPStdioServer × Option Stop) :=
  match stop.stage with
  | .terminating | .killing =>
    if s.alive stop.process then none else some (s, some ⟨stop.process, .gathering s.tasks⟩)
  | .gathering watcher =>
    if watcher.all fun k => s.processes[k]?.all (·.watcher = .ended) then
      some ((s.modifyProcess stop.process fun p => { p with expected := false }).failPending
        (some stop.process), none)
    else none

def expireStop (stop : Stop) : Option Stop :=
  match stop.stage with
  | .terminating => some { stop with stage := .killing }
  | _ => none

end MCPStdioServer

end OpenAgent.Mcp
