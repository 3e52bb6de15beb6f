import OpenAgent.Lib.Dict
import OpenAgent.Lib.Transition

/-!
# The runtimes of a provider

A provider caches one runtime for each session. A runtime that is replaced or dropped is retired, and the
retired ones are closed together once no call is active. Every `await` ends a step; what a task is waiting for
is its stage. Ghost records tell which runtimes were ever retired, and what became of each closing.
-/

namespace OpenAgent.Models.Resources

open Lib

/-- A `_release_retired` at work: the runtime it is closing, the rest of its batch, and how many runtimes had
been retired when it took the batch. -/
structure Release where
  current : Nat
  rest : List Nat
  upTo : Nat
deriving DecidableEq

def Release.batch (r : Release) : List Nat := r.current :: r.rest

inductive Kind
  | call
  | close
  | invalidation (session : String)
  | shutdown
deriving DecidableEq

inductive Stage
  /-- a call before `_context_ready` -/
  | waiting (woken : Bool)
  /-- a call inside its scope, with the runtimes it obtained -/
  | running (held : List Nat)
  /-- an invalidation before its lock -/
  | locking
  /-- an invalidation or a shutdown before `_idle` -/
  | draining (woken : Bool)
  | releasing (release : Release)
  | ended
deriving DecidableEq

structure Task where
  kind : Kind
  stage : Stage
deriving DecidableEq

structure Cached (Shape : Type) where
  runtime : Nat
  shape : Shape

structure Ledger (Shape : Type) where
  sessions : Dict String (Cached Shape) := .empty
  retired : List Nat := []
  /-- how many runtimes were built -/
  built : Nat := 0
  /-- what was ever retired, in order -/
  ever : List Nat := []
  /-- the closings that were begun -/
  begun : List Nat := []
  closed : List Nat := []
  /-- the closings that raised, with what their release had taken its batch of -/
  failures : List (Nat × Nat) := []
  /-- what a release that raised left of its batch -/
  lost : List Nat := []
  /-- for each invalidation that returned, how many runtimes had been retired when it dropped its session -/
  receipts : List Nat := []

/-- `ProviderResources`, and the tasks that use it. -/
structure Provider (Shape : Type) extends Ledger Shape where
  activeCalls : Nat := 0
  closing : Bool := false
  idle : Bool := true
  contextReady : Bool := true
  /-- `_context_invalidation` is held -/
  invalidating : Bool := false
  tasks : List Task := []
  /-- a shutdown has taken what was left -/
  shut : Bool := false

inductive Event (Shape : Type)
  | call
  | enter (i : Nat)
  | obtain (i : Nat) (session : String) (shape : Shape) (builds : Bool)
  | leave (i : Nat)
  | closed (i : Nat)
  | raised (i : Nat)
  /-- `close_session` or `forget_session` -/
  | closeSession (session : String)
  /-- a new database, tool pool or catalogue -/
  | rebuild
  | invalidate (session : String)
  | lock (i : Nat)
  | proceed (i : Nat)
  | shutdown
  /-- a task is cancelled where it waits -/
  | abandon (i : Nat)

/-! ### Tasks and events -/

def Task.wakeReady : Task → Task
  | ⟨kind, .waiting _⟩ => ⟨kind, .waiting true⟩
  | task => task

def Task.wakeIdle : Task → Task
  | ⟨kind, .draining _⟩ => ⟨kind, .draining true⟩
  | task => task

variable {Shape : Type}

namespace Provider

def setTask (s : Provider Shape) (i : Nat) (task : Task) : Provider Shape :=
  { s with tasks := s.tasks.set i task }

def addTask (s : Provider Shape) (task : Task) : Provider Shape := { s with tasks := s.tasks ++ [task] }

/-- `_context_ready.set()` -/
def setReady (s : Provider Shape) : Provider Shape :=
  { s with contextReady := true, tasks := s.tasks.map Task.wakeReady }

/-- `_idle.set()` -/
def setIdle (s : Provider Shape) : Provider Shape :=
  { s with idle := true, tasks := s.tasks.map Task.wakeIdle }

end Provider

/-! ### Retirement -/

namespace Ledger

/-- `_retire_runtime` -/
def retire (l : Ledger Shape) (runtime : Nat) : Ledger Shape :=
  { l with retired := l.retired ++ [runtime], ever := l.ever ++ [runtime] }

def replace (l : Ledger Shape) (session : String) : Ledger Shape :=
  match l.sessions.get? session with
  | none => l
  | some cached => retire { l with sessions := l.sessions.pop session } cached.runtime

/-- `_drop_session_state` -/
def dropSessionState (l : Ledger Shape) (session : String) : Ledger Shape :=
  if session = "" then l else l.replace session

/-- `_invalidate_session_cache` -/
def invalidateSessionCache (l : Ledger Shape) : Ledger Shape :=
  let dropped := l.sessions.values.map Cached.runtime
  { l with sessions := .empty, retired := l.retired ++ dropped, ever := l.ever ++ dropped }

def build (l : Ledger Shape) (session : String) (shape : Shape) (builds : Bool) : Ledger Shape × Option Nat :=
  if builds then
    ({ l with sessions := l.sessions.set session ⟨l.built, shape⟩, built := l.built + 1 }, some l.built)
  else (l, none)

variable [DecidableEq Shape] in
/-- `_ensure_runtime`: the cached runtime if it was built for the same, else a new one. -/
def ensureRuntime (l : Ledger Shape) (session : String) (shape : Shape) (builds : Bool) :
    Ledger Shape × Option Nat :=
  match l.sessions.get? session with
  | none => l.build session shape builds
  | some cached =>
    if cached.shape = shape then (l, some cached.runtime)
    else (l.replace session).build session shape builds

def takeRetired (l : Ledger Shape) : Ledger Shape × Option Release :=
  match l.retired.eraseDups with
  | [] => ({ l with retired := [] }, none)
  | runtime :: rest =>
    ({ l with retired := [], begun := l.begun ++ [runtime] }, some ⟨runtime, rest, l.ever.length⟩)

def closedOne (l : Ledger Shape) (release : Release) : Ledger Shape × Option Release :=
  let l := { l with closed := l.closed ++ [release.current] }
  match release.rest with
  | [] => (l, none)
  | runtime :: rest => ({ l with begun := l.begun ++ [runtime] }, some ⟨runtime, rest, release.upTo⟩)

def raisedOne (l : Ledger Shape) (release : Release) : Ledger Shape :=
  { l with
    failures := l.failures ++ [(release.current, release.upTo)]
    lost := l.lost ++ release.rest }

def receipt (l : Ledger Shape) (upTo : Nat) : Ledger Shape := { l with receipts := l.receipts ++ [upTo] }

end Ledger

namespace Provider

/-! ### Scopes and releases -/

def conclude (s : Provider Shape) (i : Nat) (kind : Kind) (upTo : Nat) (returns : Bool) : Provider Shape :=
  match kind with
  | .call => if s.activeCalls = 0 then (s.setTask i ⟨kind, .ended⟩).setIdle else s.setTask i ⟨kind, .ended⟩
  | .close | .shutdown => s.setTask i ⟨kind, .ended⟩
  | .invalidation _ =>
    let s := { s with toLedger := if returns then s.receipt upTo else s.toLedger, invalidating := false }
    (s.setTask i ⟨kind, .ended⟩).setReady

def goOn (s : Provider Shape) (i : Nat) (kind : Kind) (upTo : Nat) : Option Release → Provider Shape
  | none => s.conclude i kind upTo true
  | some release => s.setTask i ⟨kind, .releasing release⟩

/-- `_release_retired` -/
def releaseRetired (s : Provider Shape) (i : Nat) (kind : Kind) : Provider Shape :=
  if s.activeCalls ≠ 0 then s.conclude i kind s.ever.length true
  else { s with toLedger := s.takeRetired.1 }.goOn i kind s.ever.length s.takeRetired.2

def enterScope (s : Provider Shape) (i : Nat) : Provider Shape :=
  if s.closing then s.setTask i ⟨.call, .ended⟩
  else { s.setTask i ⟨.call, .running []⟩ with activeCalls := s.activeCalls + 1, idle := false }

def leaveScope (s : Provider Shape) (i : Nat) : Provider Shape :=
  let s := { s with activeCalls := s.activeCalls - 1 }
  if s.activeCalls = 0 then s.releaseRetired i .call else s.setTask i ⟨.call, .ended⟩

/-- An invalidation or a shutdown goes on after `_idle`. -/
def drained (s : Provider Shape) (i : Nat) : Kind → Option (Provider Shape)
  | .invalidation session =>
    some ({ s with toLedger := s.dropSessionState session }.releaseRetired i (.invalidation session))
  | .shutdown =>
    some { { s with toLedger := s.invalidateSessionCache }.releaseRetired i .shutdown with shut := true }
  | .call | .close => none

def drain (s : Provider Shape) (i : Nat) (kind : Kind) : Option (Provider Shape) :=
  if s.idle then s.drained i kind else some (s.setTask i ⟨kind, .draining false⟩)

/-- A task is cancelled at an `await` of an event or of the lock. -/
def abandon (s : Provider Shape) (i : Nat) : Task → Option (Provider Shape)
  | ⟨.invalidation session, .draining _⟩ =>
    some ({ s with invalidating := false }.setTask i ⟨.invalidation session, .ended⟩).setReady
  | ⟨kind, .waiting _⟩ | ⟨kind, .locking⟩ | ⟨kind, .draining _⟩ => some (s.setTask i ⟨kind, .ended⟩)
  | ⟨_, .running _⟩ | ⟨_, .releasing _⟩ | ⟨_, .ended⟩ => none

variable [DecidableEq Shape] in
def step (s : Provider Shape) : Event Shape → Option (Provider Shape)
  | .call =>
    some (if s.contextReady then (s.addTask ⟨.call, .waiting true⟩).enterScope s.tasks.length
      else s.addTask ⟨.call, .waiting false⟩)
  | .enter i =>
    match s.tasks[i]? with
    | some ⟨.call, .waiting true⟩ => some (s.enterScope i)
    | _ => none
  | .obtain i session shape builds =>
    match s.tasks[i]? with
    | some ⟨.call, .running held⟩ =>
      let ensured := s.ensureRuntime (if session = "" then "default" else session) shape builds
      some ({ s with toLedger := ensured.1 }.setTask i ⟨.call, .running (held ++ ensured.2.toList)⟩)
    | _ => none
  | .leave i =>
    match s.tasks[i]? with
    | some ⟨.call, .running _⟩ => some (s.leaveScope i)
    | _ => none
  | .closed i =>
    match s.tasks[i]? with
    | some ⟨kind, .releasing release⟩ =>
      some ({ s with toLedger := (s.closedOne release).1 }.goOn i kind release.upTo (s.closedOne release).2)
    | _ => none
  | .raised i =>
    match s.tasks[i]? with
    | some ⟨kind, .releasing release⟩ =>
      some ({ s with toLedger := s.raisedOne release }.conclude i kind release.upTo false)
    | _ => none
  | .closeSession session =>
    some (({ s with toLedger := s.dropSessionState session }.addTask ⟨.close, .ended⟩).releaseRetired
      s.tasks.length .close)
  | .rebuild => some { s with toLedger := s.invalidateSessionCache }
  | .invalidate session =>
    if session = "" then none else some (s.addTask ⟨.invalidation session, .locking⟩)
  | .lock i =>
    match s.tasks[i]? with
    | some ⟨.invalidation session, .locking⟩ =>
      if s.invalidating then none
      else { s with invalidating := true, contextReady := false }.drain i (.invalidation session)
    | _ => none
  | .proceed i =>
    match s.tasks[i]? with
    | some ⟨kind, .draining true⟩ => s.drained i kind
    | _ => none
  | .shutdown =>
    ({ s with closing := true }.addTask ⟨.shutdown, .draining false⟩).drain s.tasks.length .shutdown
  | .abandon i =>
    match s.tasks[i]? with
    | some task => s.abandon i task
    | none => none

end Provider

end OpenAgent.Models.Resources
