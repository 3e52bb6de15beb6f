import OpenAgent.Lib.Place
import OpenAgent.Lib.Transition
import Mathlib.Data.List.Count

/-!
# Compaction of a session's history

The history of a session is one column, which a turn reads and writes back with its own run at the end, and
which a compaction reads, summarises and writes back with a recap in place of the older runs. A lock, a count
of active turns and a mark for the pass in the background keep the two apart. The lock is an object in a
table: it is made on first use and dropped when the session is idle.
-/

namespace OpenAgent.Compaction

open Lib

/-- An entry of `sessions.runs`: the runs of turns that it stands for, which are many for a recap. -/
structure Run where
  isRecap : Bool := false
  stands : List Nat
  deriving DecidableEq

/-- An `asyncio.Lock`, with the party that holds it and those that wait, the first of which has been woken
when nobody holds it. -/
structure SessionLock where
  holder : Option Nat := none
  waiters : List Nat := []

/-- `locked()` -/
def SessionLock.locked (k : SessionLock) : Bool := k.holder.isSome

/-- What uses the lock: a turn, `SessionControl.compact`, or a pass in the background. -/
inductive Kind
  | turn
  | manual
  | background
  deriving DecidableEq

inductive Phase
  | called
  /-- The lock has been looked up and not been asked for. -/
  | inHand (lock : Nat)
  | waiting (lock : Nat)
  | holding (lock : Nat)
  /-- `compact` has read the history and waits for its summary. -/
  | folding (lock : Nat) (snapshot : List Run) (keep : Nat)
  /-- `compact` is over and the lock is still held. -/
  | folded (lock : Nat)
  /-- A turn after its start, with the history that it has read. -/
  | working (history : Option (List Run))
  /-- The task of a pass in the background is done, and its callback is to come. -/
  | ended
  | gone

def Phase.lock? : Phase → Option Nat
  | .inHand l | .waiting l | .holding l | .folding l _ _ | .folded l => some l
  | .called | .working _ | .ended | .gone => none

def Phase.inside? : Phase → Option Nat
  | .holding l | .folding l _ _ | .folded l => some l
  | _ => none

def Phase.atWork : Phase → Bool
  | .working _ => true
  | _ => false

structure Party where
  kind : Kind
  phase : Phase := .called
  /-- `mark_turn_active` has been called. -/
  registered : Bool := false
  /-- The turn has cancelled a pass in the background. -/
  preempted : Bool := false

/-- `_keep_runs()`, and whether the runtime has an `EngineContentPrivacyWriter`. -/
structure Settings where
  keepRuns : Nat
  privacyWriter : Bool

/-- One session: its column, the tables of `compaction` for it, and whoever takes part. What the turns have
ever appended is written down beside. -/
structure Session where
  runs : List Run
  lock : Option Nat := none
  locks : List SessionLock := []
  activeTurns : Nat := 0
  inflight : Bool := false
  backgroundTask : Option Nat := none
  parties : List Party := []
  appended : List Nat

inductive CompactionEvent
  | begin (kind : Kind)
  /-- `session_lock`, up to the first wait. -/
  | reach (party : Nat)
  /-- A turn that found the lock taken asks for it. -/
  | enter (party : Nat)
  /-- A waiter that was woken goes on. -/
  | resume (party : Nat)
  /-- `mark_turn_active` -/
  | register (party : Nat)
  /-- The start of a turn raises before it is registered. -/
  | fail (party : Nat)
  /-- `compact` up to the call of the summariser, where the check of the threshold says so. -/
  | read (party : Nat) (should : Bool)
  /-- `_save_runs` -/
  | save (party : Nat) (through : Bool)
  /-- The summary is empty, or the summariser raises. -/
  | abort (party : Nat)
  | release (party : Nat)
  /-- A turn reads its history. -/
  | load (party : Nat)
  /-- A turn writes its history back, with a new run or with what it has. -/
  | store (party : Nat) (new : Bool)
  /-- A turn is over; `compact_after_turn` is called where it was completed. -/
  | finish (party : Nat) (completed : Bool)
  /-- `_background_task_done` -/
  | callback (party : Nat)
  | cancel (party : Nat)

/-! ### The lock and the tables -/

def Session.put (s : Session) (p : Nat) (v : Party) : Session := { s with parties := s.parties.set p v }

/-- `session_lock` -/
def sessionLock (s : Session) : Session × Nat :=
  match s.lock with
  | some l => (s, l)
  | none => ({ s with lock := some s.locks.length, locks := s.locks ++ [{}] }, s.locks.length)

/-- `async with lock` of a party, which waits where the lock is held or others wait. -/
def acquire (s : Session) (l p : Nat) (v : Party) : Session :=
  match s.locks[l]? with
  | none => s
  | some k =>
    if k.holder.isNone && k.waiters.isEmpty then
      { s with locks := s.locks.set l { k with holder := some p } }.put p { v with phase := .holding l }
    else
      { s with locks := s.locks.set l { k with waiters := k.waiters ++ [p] } }.put p
        { v with phase := .waiting l }

def SessionLock.drop (k : SessionLock) (p : Nat) : SessionLock :=
  { holder := if k.holder = some p then none else k.holder, waiters := k.waiters.filter (· ≠ p) }

/-- `async with lock` is left by a party that goes on to another phase. -/
def leave (s : Session) (l p : Nat) (v : Party) : Session :=
  { s with locks := s.locks.modify l fun k => k.drop p }.put p v

def Party.over (v : Party) : Party := { v with phase := if v.kind = .background then .ended else .gone }

/-- A cancellation is delivered; the `finally` of a pass that has begun drops its mark. -/
def cancelAt (s : Session) (p : Nat) : Session :=
  match s.parties[p]? with
  | none => s
  | some v =>
    match v.phase with
    | .called => s.put p v.over
    | .inHand _ => s.put p v.over
    | .waiting l | .holding l | .folding l _ _ | .folded l =>
      let s := leave s l p v.over
      if v.kind = .background then { s with inflight := false } else s
    | .working _ | .ended | .gone => s

/-- `_preempt_background_compaction` -/
def preempt (s : Session) : Session × Bool :=
  match s.backgroundTask with
  | none => (s, false)
  | some b =>
    match s.parties[b]? with
    | none => (s, false)
    | some v =>
      match v.phase with
      | .ended | .gone => (s, false)
      | _ => (cancelAt s b, true)

/-- `mark_turn_done` drops the lock of a session with no turn, no pass and nobody inside the lock. -/
def prunes (s : Session) : Bool :=
  decide (s.activeTurns ≤ 1) && !s.inflight &&
    match s.lock with
    | none => false
    | some l => (s.locks[l]?).any fun k => !k.locked

/-- `mark_turn_done` -/
def markTurnDone (s : Session) : Session :=
  { s with activeTurns := s.activeTurns - 1, lock := if prunes s then none else s.lock }

/-- `compact_after_turn` -/
def compactAfterTurn (s : Session) : Session :=
  if s.inflight then s
  else
    { s with
      inflight := true
      parties := s.parties ++ [{ kind := .background }]
      backgroundTask := some s.parties.length }

/-! ### Compaction -/

def Settings.keepFor (c : Settings) : Kind → Nat
  | .manual => 0
  | _ => c.keepRuns

/-- `runs[:-keep]`, or all of them for 0 -/
def oldRuns (runs : List Run) (keep : Nat) : List Run := runs.take (runs.length - keep)

/-- `runs[-keep:]`, or none of them for 0 -/
def keptRuns (runs : List Run) (keep : Nat) : List Run := runs.drop (runs.length - keep)

def recap (old : List Run) : Run := { isRecap := true, stands := old.flatMap (·.stands) }

/-- `[recap_run, *kept]` -/
def compacted (runs : List Run) (keep : Nat) : List Run := recap (oldRuns runs keep) :: keptRuns runs keep

/-- The checks that come before `compact`: `_turn_active`, `preempted` and `should_compact`. -/
def mayCompact (c : Settings) (s : Session) (v : Party) (should : Bool) : Bool :=
  match v.kind with
  | .manual => true
  | .background => decide (s.activeTurns = 0) && should && decide (c.keepRuns < s.runs.length)
  | .turn => v.registered && !v.preempted && should && decide (c.keepRuns < s.runs.length)

/-- `compact` up to the summariser; it is over at once where there is nothing but recaps to fold. -/
def readRuns (c : Settings) (s : Session) (l : Nat) (v : Party) : Party :=
  let keep := c.keepFor v.kind
  if (oldRuns s.runs keep).all (·.isRecap) then { v with phase := .folded l }
  else { v with phase := .folding l s.runs keep }

/-- `_save_runs`: with a privacy writer, the column is compared with what was read. -/
def saveRuns (c : Settings) (s : Session) (snapshot : List Run) (keep : Nat) (through : Bool) : Session :=
  if through && (!c.privacyWriter || decide (s.runs = snapshot)) then
    { s with runs := compacted snapshot keep }
  else s

def releaseStep (s : Session) (l p : Nat) (v : Party) : Option Session :=
  match v.kind with
  | .turn => if v.registered then some (leave s l p { v with phase := .working none }) else none
  | .manual => some (leave s l p v.over)
  | .background => some { leave s l p v.over with inflight := false }

def storeStep (s : Session) (p : Nat) (v : Party) (history : List Run) (new : Bool) : Session :=
  let runs := if new then history ++ [{ stands := [s.appended.length] }] else history
  { s with
    runs
    appended := if new then s.appended ++ [s.appended.length] else s.appended }.put p
      { v with phase := .working (some runs) }

def partyStep (c : Settings) (s : Session) (p : Nat) (v : Party) : CompactionEvent → Option Session
  | .begin _ => none
  | .reach _ =>
    match v.phase with
    | .called =>
      let (s, l) := sessionLock s
      if v.kind = .turn && (s.locks[l]?).any (·.locked) then
        let (s, preempted) := preempt s
        some (s.put p { v with phase := .inHand l, preempted })
      else some (acquire s l p v)
    | _ => none
  | .enter _ =>
    match v.phase with
    | .inHand l => some (acquire s l p v)
    | _ => none
  | .resume _ =>
    match v.phase with
    | .waiting l =>
      match s.locks[l]? with
      | none => none
      | some k =>
        if k.holder = none ∧ k.waiters.head? = some p then
          some ({ s with locks := s.locks.set l { holder := some p, waiters := k.waiters.tail } }.put p
            { v with phase := .holding l })
        else none
    | _ => none
  | .register _ =>
    match v.phase with
    | .holding _ =>
      if v.kind = .turn ∧ v.registered = false then
        some ({ s with activeTurns := s.activeTurns + 1 }.put p { v with registered := true })
      else none
    | _ => none
  | .fail _ =>
    match v.phase with
    | .holding l =>
      if v.kind = .turn ∧ v.registered = false then some (leave s l p { v with phase := .working none })
      else none
    | _ => none
  | .read _ should =>
    match v.phase with
    | .holding l => if mayCompact c s v should then some (s.put p (readRuns c s l v)) else none
    | _ => none
  | .save _ through =>
    match v.phase with
    | .folding l snapshot keep => some ((saveRuns c s snapshot keep through).put p { v with phase := .folded l })
    | _ => none
  | .abort _ =>
    match v.phase with
    | .folding l _ _ => some (s.put p { v with phase := .folded l })
    | _ => none
  | .release _ =>
    match v.phase with
    | .holding l | .folded l => releaseStep s l p v
    | _ => none
  | .load _ =>
    match v.phase with
    | .working _ => some (s.put p { v with phase := .working (some s.runs) })
    | _ => none
  | .store _ new =>
    match v.phase with
    | .working (some history) => some (storeStep s p v history new)
    | _ => none
  | .finish _ completed =>
    match v.phase with
    | .working _ =>
      let s := if v.registered then markTurnDone s else s
      let s := s.put p { v with phase := .gone }
      some (if completed then compactAfterTurn s else s)
    | _ => none
  | .callback _ =>
    match v.phase with
    | .ended =>
      some ({ s with
        inflight := false
        backgroundTask := if s.backgroundTask = some p then none else s.backgroundTask }.put p
          { v with phase := .gone })
    | _ => none
  | .cancel _ => some (cancelAt s p)

def CompactionEvent.party : CompactionEvent → Nat
  | .begin _ => 0
  | .reach p | .enter p | .resume p | .register p | .fail p | .read p _ | .save p _ | .abort p | .release p
  | .load p | .store p _ | .finish p _ | .callback p | .cancel p => p

def compactionStep (c : Settings) (s : Session) (e : CompactionEvent) : Option Session :=
  match e with
  | .begin kind => if kind = .background then none else some { s with parties := s.parties ++ [{ kind }] }
  | e => s.parties[e.party]?.bind fun v => partyStep c s e.party v e

/-! ### What compaction is to keep -/

def LosesNoTurn (s : Session) : Prop := ∀ run ∈ s.appended, ∃ r ∈ s.runs, run ∈ r.stands

def SavesOverSnapshot (c : Settings) (s : Session) : Prop :=
  ∀ p through s', compactionStep c s (.save p through) = some s' →
    s'.runs = s.runs ∨ ∃ v l keep, s.parties[p]? = some v ∧ v.phase = .folding l s.runs keep

/-- A turn writes back a history that nobody has written since; and, where no privacy writer compares the
history before a save, a compaction reads it only while no turn is at work (for a pass in the background the
count sees to that, but for turns that are not registered), and the lock is dropped only when nobody has
got hold of it. -/
def exclusive (c : Settings) (s : Session) (e : CompactionEvent) : Bool :=
  match s.parties[e.party]?, e with
  | some v, .store _ _ =>
    match v.phase with
    | .working (some history) => decide (history = s.runs)
    | _ => true
  | some v, .read _ _ =>
    c.privacyWriter || s.parties.all fun w => !w.phase.atWork || decide (v.kind = .background) && w.registered
  | some v, .finish _ _ =>
    c.privacyWriter || !v.registered || !prunes s || s.parties.all fun w => w.phase.lock?.isNone
  | _, _ => true

end OpenAgent.Compaction
