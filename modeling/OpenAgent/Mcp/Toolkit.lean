import OpenAgent.Lib.Transition

/-!
# A toolkit and its supervisor

A supervisor task holds the session of a toolkit and replaces it, on request or when its transport is lost. Callers and
the supervisor share a mailbox: the waiter of the reconnect that is going on, the event that wakes the supervisor, and
flags that say what it is to do and how far it has come. A state is one between two suspensions of the supervisor; what
it awaits is its phase, and the environment says how that ends.
-/

namespace OpenAgent.Mcp.Toolkits

open Lib

/-- Why the supervisor closes a stack: to enter the toolkit again, because that has failed, or to exit. -/
inductive Closing
  | reenter | failed | exit
deriving DecidableEq

/-- What the supervisor awaits: the stop event, the end of `_close`, or that of `_enter`. -/
inductive Phase
  | waiting
  | closing (next : Closing)
  | entering
  | done
deriving DecidableEq

/-- Why a session was given up: at the report of a session that is dead, because its transport was lost, because the pool
stopped the supervisor, or for the replacement of the toolkit that a report asked for. -/
inductive Cause
  | report (dead : Option Nat)
  | lost
  | stopped
  | replaced (dead : Option Nat)
deriving DecidableEq

/-- A caller of `reconnect_toolkit` that waits: it has reported the session `dead`. -/
structure Caller where
  dead : Option Nat
  waiter : Nat
deriving DecidableEq

/-- An answer `True` of `reconnect_toolkit`, with what the toolkit held then: its session, and whether the handshake of
that was completed. -/
structure Answer where
  dead : Option Nat
  held : Option Nat
  completed : Bool
deriving DecidableEq

/-- The supervisor of a toolkit, the toolkit, the mailbox, and those who wait. Sessions are numbered as they are opened,
those that are opened for a single run too. -/
structure Supervisor where
  session : Option Nat
  initialized : Bool
  sessions : Nat
  stack : Bool := true
  phase : Phase := .waiting
  stopEvent : Bool := false
  closing : Bool := false
  pending : Option Nat := none
  ready : Bool := true
  transportLost : Bool := false
  autoReconnect : Bool := false
  registered : Bool := true
  /-- The waiters that were published, and what they were resolved with. -/
  waiters : List (Option Bool) := []
  callers : List Caller := []
  /-- The report for which a replacement was asked, until it starts. -/
  replacement : Option (Option Nat) := none
  replaced : Bool := false
  /-- The report for which the pending reconnect was asked, if one was. -/
  requester : Option (Option Nat) := none
  /-- Why the supervisor is to close. -/
  closedFor : Cause := .stopped
  torn : List (Nat × Cause) := []
  answers : List Answer := []
deriving DecidableEq

/-- A toolkit whose supervisor was just registered. `MCPTools.initialize` swallows its failures, so that its handshake
need not have been completed. -/
def Supervisor.start (completed : Bool) : Supervisor := { session := some 0, initialized := completed, sessions := 1 }

/-! ### The supervisor -/

/-- `_resolve_pending` -/
def Supervisor.resolvePending (s : Supervisor) (ok : Bool) : Supervisor := {
  s with
  autoReconnect := s.autoReconnect && ok
  pending := none
  requester := none
  waiters := match s.pending with
    | none => s.waiters
    | some waiter => s.waiters.set waiter (some ok) }

/-- `_forget_session` -/
def Supervisor.forgetSession (s : Supervisor) : Supervisor := { s with session := none, initialized := false }

def Supervisor.giveUp (s : Supervisor) (cause : Cause) : Supervisor := {
  s with
  ready := false
  torn := match s.session with
    | none => s.torn
    | some session => if s.ready then s.torn ++ [(session, cause)] else s.torn }

/-- The `finally` of the supervisor. `MCPTools.__aexit__` forgets the session before it awaits anything. -/
def Supervisor.leave (s : Supervisor) : Supervisor :=
  let s := { s with ready := false }.resolvePending false
  if s.stack then { s.forgetSession with phase := .closing .exit } else { s.forgetSession with phase := .done }

/-- `_close` has ended. -/
def Supervisor.closed (s : Supervisor) (next : Closing) : Supervisor :=
  let s := { s.forgetSession with transportLost := false, stack := false }
  match next with
  | .reenter => if s.closing then s.leave else { s with phase := .entering }
  | .failed => { s.resolvePending false with phase := .waiting }
  | .exit => { s with phase := .done }

/-- `_close(stack)`, which awaits nothing if there is no stack. -/
def Supervisor.close (s : Supervisor) (next : Closing) : Supervisor :=
  if s.stack then { s.forgetSession with phase := .closing next } else s.closed next

def Supervisor.wakes (s : Supervisor) : Supervisor :=
  if s.closing then (s.giveUp s.closedFor).leave
  else ({ s with stopEvent := false }.giveUp (.report (s.requester.getD none))).close .reenter

def Supervisor.publish (s : Supervisor) (requester : Option (Option Nat)) : Supervisor := {
  s with
  pending := some s.waiters.length
  waiters := s.waiters ++ [none]
  requester := requester }

def Supervisor.transportCancel (s : Supervisor) : Option Supervisor :=
  match s.phase with
  | .waiting =>
    if !s.stack then none
    else if s.closing then some (s.giveUp s.closedFor).leave
    else
      let s := { s with transportLost := true, stopEvent := false }.giveUp .lost
      let s := if s.pending.isSome then s else { s.publish none with autoReconnect := true }
      some (s.close .reenter)
  | .closing _ => if s.closing then some { s with stack := false }.leave else some s
  | .entering => if s.closing then some s.leave else some (s.close .failed)
  | .done => none

def Supervisor.foreignCancel (s : Supervisor) : Option Supervisor :=
  match s.phase with
  | .waiting =>
    let s := if s.closing then s else { s with closing := true, closedFor := .stopped }
    some (s.giveUp s.closedFor).leave
  | .closing _ => some { s with stack := false }.leave
  | .entering => some s.leave
  | .done => none

/-- `_enter` has returned, with a session whose handshake was completed or not. -/
def Supervisor.entered (s : Supervisor) (completed : Bool) : Supervisor :=
  let s := { s with stack := true, initialized := completed }
  if !completed then s.close .failed
  else if s.closing then s.leave
  else { { s with ready := true, autoReconnect := false }.resolvePending true with phase := .waiting }

/-! ### Callers -/

/-- `_replace_wedged_toolkit`: one replacement is made for a supervisor. -/
def Supervisor.replaceWedged (s : Supervisor) (dead : Option Nat) : Supervisor :=
  if s.replaced then s else { s with replaced := true, replacement := some dead }

def Supervisor.answer (s : Supervisor) (dead : Option Nat) : Supervisor :=
  { s with answers := s.answers ++ [⟨dead, s.session, s.ready && s.initialized⟩] }

def Supervisor.alreadyReplaced (s : Supervisor) (dead : Option Nat) : Bool :=
  dead.isSome && s.session.isSome && s.session != dead && s.ready

/-- `reconnect_toolkit` up to where it awaits the waiter. `stuck` says that the pending reconnect has taken too long, and
`connected` that the pool is connected. -/
def Supervisor.reconnect (s : Supervisor) (dead : Option Nat) (stuck connected : Bool) : Supervisor :=
  if !s.registered then s
  else if s.closing || s.phase == .done then
    if connected && !s.replaced then s.replaceWedged dead else s
  else
    match s.pending with
    | some waiter => if stuck then s.replaceWedged dead else { s with callers := s.callers ++ [⟨dead, waiter⟩] }
    | none =>
      if s.alreadyReplaced dead then s.answer dead
      else { s.publish (some dead) with stopEvent := true, callers := s.callers ++ [⟨dead, s.waiters.length⟩] }

/-- `await_toolkit_ready` up to where it awaits the waiter: it changes something only if the pending reconnect has taken
too long. -/
def Supervisor.awaitReady (s : Supervisor) (stuck : Bool) : Supervisor :=
  if s.registered && s.pending.isSome && stuck then s.replaceWedged none else s

def Supervisor.drop (s : Supervisor) (i : Nat) : Supervisor := { s with callers := s.callers.eraseIdx i }

def Supervisor.resume (s : Supervisor) (i : Nat) : Option Supervisor :=
  s.callers[i]?.bind fun caller =>
    match s.waiters[caller.waiter]? with
    | some (some ok) => some (if ok then (s.answer caller.dead).drop i else s.drop i)
    | _ => none

/-! ### Steps -/

inductive Event
  | wakes
  | transportCancel
  | foreignCancel
  | closed
  /-- `_connect` publishes the session whose handshake is to come. -/
  | opens
  | entered (completed : Bool)
  | failsToEnter
  | reconnect (dead : Option Nat) (stuck connected : Bool)
  | awaitReady (stuck : Bool)
  | resume (i : Nat)
  /-- A caller has waited for too long, or is cancelled. -/
  | leaves (i : Nat)
  /-- A session is opened for a single run. -/
  | runSession
  | unregister
  /-- `_shutdown_supervisor` tells the supervisor to exit. -/
  | shutdown
  /-- The task of a replacement starts; `current` says whether it finds the pool as it was. -/
  | replace (current : Bool)

def step (s : Supervisor) : Event → Option Supervisor
  | .wakes => if s.phase = .waiting ∧ s.stopEvent = true then some s.wakes else none
  | .transportCancel => s.transportCancel
  | .foreignCancel => s.foreignCancel
  | .closed =>
    match s.phase with
    | .closing next => some (s.closed next)
    | _ => none
  | .opens =>
    if s.phase = .entering ∧ s.session = none then some { s with session := some s.sessions, sessions := s.sessions + 1 }
    else none
  | .entered completed => if s.phase = .entering ∧ s.session.isSome = true then some (s.entered completed) else none
  | .failsToEnter => if s.phase = .entering then some (s.close .failed) else none
  | .reconnect dead stuck connected => if dead.all (· < s.sessions) then some (s.reconnect dead stuck connected) else none
  | .awaitReady stuck => some (s.awaitReady stuck)
  | .resume i => s.resume i
  | .leaves i => if i < s.callers.length then some (s.drop i) else none
  | .runSession => some { s with sessions := s.sessions + 1 }
  | .unregister => some { s with registered := false }
  | .shutdown =>
    some { s with closing := true, stopEvent := true, closedFor := if s.closing then s.closedFor else .stopped }
  | .replace current =>
    s.replacement.map fun dead => {
      s with
      replacement := none
      closing := true
      stopEvent := true
      closedFor := if s.closing then s.closedFor else .replaced dead
      registered := s.registered && !current }

def Event.own : Event → Bool
  | .wakes | .closed | .opens | .entered _ | .failsToEnter => true
  | _ => false

/-! ### What callers rely on -/

structure Kept (s : Supervisor) : Prop where
  /-- One reconnect is going on at a time. -/
  one : ∀ f g : Nat, s.waiters[f]? = some none → s.waiters[g]? = some none → f = g
  /-- A report of an earlier session does not bring down one that was ready. -/
  torn : ∀ entry ∈ s.torn, ∀ dead, entry.2 = .report (some dead) ∨ entry.2 = .replaced (some dead) → ¬ dead < entry.1
  /-- Whoever is told that the toolkit was reconnected, finds another session than the one reported, and a complete one. -/
  answers : ∀ answer ∈ s.answers, ∃ session, answer.held = some session ∧ answer.completed = true ∧
    answer.dead ≠ some session
  /-- A waiter that is not resolved is that of an attempt that is going on or about to begin. -/
  resolved : ∀ f : Nat, s.waiters[f]? = some none → s.pending = some f ∧ s.phase ≠ .done ∧
    (s.phase = .waiting → s.stopEvent = true)
  /-- A supervisor that goes on is at a reconnect, or about to begin one, or it waits for a request. -/
  serves : s.registered = true → s.closing = false → s.phase ≠ .done →
    (s.pending = none ∧ s.phase = .waiting ∧ s.stopEvent = false) ∨
      (s.pending.isSome = true ∧ (s.phase = .waiting → s.stopEvent = true))
  /-- A reconnect is brought to its end in at most five steps of the supervisor, and it is never at a loss for one. -/
  ends : s.closing = false → s.pending.isSome = true → ∀ own : List Event, (∀ e ∈ own, e.own = true) →
    ∀ t, run step s own = some t →
      own.length ≤ 5 ∧ (t.pending.isSome = true → ∃ e : Event, e.own = true ∧ (step t e).isSome = true)

def Supervisor.told (s : Supervisor) : Bool := s.callers.any fun caller => s.waiters[caller.waiter]? == some (some true)

/-- The session is not given up while a caller that was told of it has not gone on; a caller does not report the session
whose handshake it would wait for, and none while the toolkit's own handshake was not completed; and a replacement does
not start once the reconnect that took too long has succeeded. -/
def Supervisor.orderly (s : Supervisor) : Event → Bool
  | .wakes | .transportCancel | .foreignCancel => !(s.ready && s.told)
  | .reconnect dead _ _ => (s.pending.isNone || dead.isNone || s.session != dead) && (!s.ready || s.initialized)
  | .replace _ => !s.ready || s.closing
  | _ => true

end OpenAgent.Mcp.Toolkits
