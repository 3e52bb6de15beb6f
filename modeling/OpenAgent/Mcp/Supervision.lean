import OpenAgent.Mcp.Correlation

/-!
# A provider runs one process and restarts it a bounded number of times

A launch happens under the spawn lock and only where no process runs. Every attempt of the restart task
is counted before it is made, a start sets the count back, and a process that dies after it was ready
is either the current one still, or its watcher is about to ask for a restart, or the restart task is at
work. `close` ends whatever runs. All of this needs that a start and a `close` do not overtake one
another, and that `close` does not come while a launch that failed is being stopped: the cancellation
leaves a process that was told to stop and that nobody kills.
-/

namespace OpenAgent.Mcp

open Lib MCPStdioServer Option List

variable {settings : Settings} {s s' s'' : MCPStdioServer}

/-! ### Steps that leave the supervisor alone -/

structure Process.Milder (p p' : Process) : Prop where
  exited : p.exited = true → p'.exited = true
  told : p.told = true → p'.told = true
  watcher : p'.watcher = p.watcher
  ready : p'.ready = p.ready
  expected : p'.expected = true → p.expected = true

structure Same (s s' : MCPStdioServer) : Prop where
  length : s'.processes.length = s.processes.length
  processes : ∀ (k : Nat) (p' : Process), s'.processes[k]? = some p' →
    ∃ p : Process, s.processes[k]? = some p ∧ p.Milder p'
  process : s'.process = s.process
  tasks : s'.tasks = s.tasks
  closing : s'.closing = s.closing
  restartAttempts : s'.restartAttempts = s.restartAttempts
  restartTask : s'.restartTask = s.restartTask
  restarts : s'.restarts = s.restarts
  closes : s'.closes = s.closes
  spawnLock : s'.spawnLock = s.spawnLock
  launches : s'.launches = s.launches
  served : s'.served = s.served
  resets : s'.resets = s.resets

theorem Process.Milder.refl (p : Process) : p.Milder p := ⟨fun h => h, fun h => h, rfl, rfl, fun h => h⟩

theorem Process.Milder.trans {p p' p'' : Process} (h : p.Milder p') (h' : p'.Milder p'') : p.Milder p'' :=
  ⟨fun hexited => h'.exited (h.exited hexited), fun htold => h'.told (h.told htold),
    h'.watcher.trans h.watcher, h'.ready.trans h.ready, fun hexpected => h.expected (h'.expected hexpected)⟩

theorem Same.refl (s : MCPStdioServer) : Same s s :=
  ⟨rfl, fun _ p hp => ⟨p, hp, .refl p⟩, rfl, rfl, rfl, rfl, rfl, rfl, rfl, rfl, rfl, rfl, rfl⟩

theorem Same.trans (h : Same s s') (h' : Same s' s'') : Same s s'' where
  length := h'.length.trans h.length
  processes k p'' hp'' := by
    obtain ⟨p', hp', hmilder'⟩ := h'.processes k p'' hp''
    obtain ⟨p, hp, hmilder⟩ := h.processes k p' hp'
    exact ⟨p, hp, hmilder.trans hmilder'⟩
  process := h'.process.trans h.process
  tasks := h'.tasks.trans h.tasks
  closing := h'.closing.trans h.closing
  restartAttempts := h'.restartAttempts.trans h.restartAttempts
  restartTask := h'.restartTask.trans h.restartTask
  restarts := h'.restarts.trans h.restarts
  closes := h'.closes.trans h.closes
  spawnLock := h'.spawnLock.trans h.spawnLock
  launches := h'.launches.trans h.launches
  served := h'.served.trans h.served
  resets := h'.resets.trans h.resets

theorem same_requests (pending : Dict Int Request) (lock : Option Int) (nextId : Nat)
    (completed : List Completed) (withdrawn : List Int) :
    Same s { s with pending, writeLock := lock, nextId, completed, withdrawn } := { Same.refl s with }

theorem same_catalogs (task process : Option Nat) (dirty : Bool) (catalogs : List Catalog) :
    Same s { s with catalogTask := task, catalogProcess := process, catalogDirty := dirty, catalogs } :=
  { Same.refl s with }

theorem same_modifyProcess {f : Process → Process} (hf : ∀ p : Process, p.Milder (f p)) (k : Nat) :
    Same s (s.modifyProcess k f) := by
  refine { Same.refl s with length := length_modify .., processes := ?_ }
  intro j p' hp'
  obtain ⟨p, hp, rfl⟩ := getElem?_modify_eq_some.mp hp'
  refine ⟨p, hp, ?_⟩
  split
  · exact hf p
  · exact .refl p

theorem same_complete (id : Int) (how : Completion) : Same s (s.complete id how) := by
  unfold MCPStdioServer.complete
  split
  · exact .refl s
  · split
    · exact .refl s
    · exact same_requests _ _ _ _ _

theorem same_leave (id : Int) (how : Completion) : Same s (s.leave id how) :=
  (same_complete id how).trans (same_requests _ _ _ _ _)

theorem same_setStage (id : Int) (stage : Stage) : Same s (s.setStage id stage) :=
  same_requests _ _ _ _ _

theorem same_failPending (process : Option Nat) : Same s (s.failPending process) :=
  same_requests _ _ _ _ _

theorem same_stopReading (k : Nat) : Same s (s.stopReading k) := by
  have hsilent : Same s (s.modifyProcess k fun p => { p with reading := false }) :=
    same_modifyProcess (fun _ => by exact ⟨fun h => h, fun h => h, rfl, rfl, fun h => h⟩) k
  exact hsilent.trans (same_failPending _)

theorem same_lock (lock : Option Int) : Same s { s with writeLock := lock } := same_requests _ _ _ _ _

theorem same_request (target : Option Nat) : Same s (s.request target) := by
  unfold MCPStdioServer.request
  split
  · exact .refl s
  · split
    · exact .refl s
    · dsimp only
      split
      · exact same_requests _ _ _ _ _
      · exact same_requests _ _ _ _ _

variable {id : Int}

theorem same_write (hstep : s.write id = some s') : Same s s' := by
  unfold MCPStdioServer.write at hstep
  split at hstep
  · split at hstep
    · split at hstep
      · cases hstep
        exact (same_setStage id .draining).trans (same_lock _)
      · cases hstep
        exact same_leave id .disconnected
    · cases hstep
  · cases hstep

theorem same_drained (hstep : s.drained id = some s') : Same s s' := by
  unfold MCPStdioServer.drained at hstep
  split at hstep
  · split at hstep
    · cases hstep
      exact (same_setStage id .waiting).trans (same_lock _)
    · cases hstep
  · cases hstep

theorem same_broken (hstep : s.broken id = some s') : Same s s' := by
  unfold MCPStdioServer.broken at hstep
  split at hstep
  · split at hstep
    · cases hstep
      exact (same_leave id .lost).trans (same_lock _)
    · cases hstep
  · cases hstep

theorem same_resume (hstep : s.resume id = some s') : Same s s' := by
  unfold MCPStdioServer.resume at hstep
  split at hstep
  · split at hstep
    · split at hstep
      · cases hstep
        exact same_leave id _
      · cases hstep
    · cases hstep
  · cases hstep

theorem same_cancel (hstep : s.cancel id = some s') : Same s s' := by
  have hwithdraw : Same s { s with withdrawn := s.withdrawn ++ [id] } := same_requests _ _ _ _ _
  have hnotify (m : MCPStdioServer) (k : Nat) (h : Same s m)
      (hstep : (if m.connected k then some (m.setStage id .cancelling)
        else some (m.leave id .cancelled)) = some s') : Same s s' := by
    split at hstep
    · cases hstep
      exact h.trans (same_setStage id .cancelling)
    · cases hstep
      exact h.trans (same_leave id .cancelled)
  unfold MCPStdioServer.cancel at hstep
  split at hstep
  · rename_i r _
    have hleave : Same s (leave { s with withdrawn := s.withdrawn ++ [id] } id .cancelled) :=
      hwithdraw.trans (same_leave id .cancelled)
    cases hstage : r.stage with
    | queued =>
      simp only [hstage, reduceCtorEq, if_false] at hstep
      exact hnotify _ _ hwithdraw hstep
    | draining =>
      simp only [hstage, reduceCtorEq, if_false, if_true] at hstep
      exact hnotify _ _ (hwithdraw.trans (same_lock none)) hstep
    | waiting =>
      simp only [hstage, reduceCtorEq, if_false, if_true] at hstep
      exact hnotify _ _ (hwithdraw.trans (same_complete id .cancelled)) hstep
    | cancelling =>
      simp only [hstage] at hstep
      cases hstep
      exact hleave
    | notifying =>
      simp only [hstage] at hstep
      cases hstep
      exact hleave.trans (same_lock none)
  · cases hstep

theorem same_notify (hstep : s.notify id = some s') : Same s s' := by
  unfold MCPStdioServer.notify at hstep
  split at hstep
  · split at hstep
    · split at hstep
      · cases hstep
        exact (same_setStage id .notifying).trans (same_lock _)
      · cases hstep
        exact same_leave id .cancelled
    · cases hstep
  · cases hstep

theorem same_notified (hstep : s.notified id = some s') : Same s s' := by
  unfold MCPStdioServer.notified at hstep
  split at hstep
  · split at hstep
    · cases hstep
      exact (same_leave id .cancelled).trans (same_lock _)
    · cases hstep
  · cases hstep

theorem same_scheduleCatalogRefresh (k : Nat) : Same s (s.scheduleCatalogRefresh k) := by
  unfold scheduleCatalogRefresh
  dsimp only
  split
  · exact .refl s
  · split
    · exact same_catalogs _ _ _ _
    · split
      · exact same_catalogs _ _ _ _
      · split
        · exact same_catalogs _ _ _ _
        · split
          · exact same_catalogs _ _ _ _
          · exact same_catalogs _ _ _ _

theorem same_endCatalog (c : Nat) : Same s (s.endCatalog c) := by
  unfold endCatalog
  dsimp only
  split
  · exact same_catalogs _ _ _ _
  · exact same_catalogs _ _ _ _

variable {c j k l : Nat}

theorem same_catalog {ok : Bool} (hstep : s.catalog c ok = some s') : Same s s' := by
  have hset (phase : CatalogPhase) : Same s (s.setCatalog c phase) := same_catalogs _ _ _ _
  have hloop (k : Nat) : Same s (s.refreshLoop c k) := by
    unfold refreshLoop
    split
    · exact same_catalogs _ _ _ _
    · exact same_endCatalog c
  have hlisted (current : Bool) (h : (if s.closing || !current then some (s.endCatalog c)
      else some (s.setCatalog c .telling)) = some s') : Same s s' := by
    split at h
    · cases h
      exact same_endCatalog c
    · cases h
      exact hset _
  unfold MCPStdioServer.catalog at hstep
  split at hstep
  · cases hstep
  · split at hstep
    · cases hstep
      exact hloop _
    · cases hstep
      exact hloop _
    · exact hlisted _ hstep
    · cases hstep
      exact same_endCatalog c
    · cases hstep

theorem same_readLine (k : Nat) (line : Line) : Same s (s.readLine k line) := by
  unfold readLine
  split
  · exact same_stopReading k
  · exact .refl s
  · split
    · split
      · split
        · exact same_scheduleCatalogRefresh k
        · exact .refl s
      · exact .refl s
    · split
      · exact .refl s
      · split
        · exact .refl s
        · exact same_complete _ _
    · exact .refl s
  · exact .refl s

theorem same_told (k : Nat) : Same s (s.modifyProcess k fun p => { p with told := true }) :=
  same_modifyProcess (fun _ => by exact ⟨fun h => h, fun _ => rfl, rfl, rfl, fun h => h⟩) k

theorem same_overlong (k : Nat) : Same s (s.overlong k) := by
  unfold overlong
  dsimp only
  split
  · exact (same_told k).trans (same_stopReading k)
  · exact same_stopReading k

theorem same_exit (k : Nat) : Same s (s.modifyProcess k fun p => { p with exited := true }) :=
  same_modifyProcess (fun _ => by exact ⟨fun _ => rfl, fun h => h, rfl, rfl, fun h => h⟩) k

/-! ### What holds in every state -/

/-- The processes: at most one is the current one, it is ready or in its handshake, and nothing else runs
that was not told to stop. -/
structure Alone (s : MCPStdioServer) : Prop where
  known : ∀ k, s.process = some k → k < s.processes.length
  alone : ∀ (k : Nat) (p : Process), s.processes[k]? = some p → p.exited = false →
    s.process = some k ∨ p.told = true
  spawning : ∀ t, s.spawnLock = some (t, .spawning) → s.running = false
  current : ∀ (k : Nat) (p : Process), s.process = some k → s.processes[k]? = some p →
    p.expected = false ∧ (p.ready = true ∨ ∃ t, s.spawnLock = some (t, .handshaking k))
  unready : ∀ t k (p : Process), s.spawnLock = some (t, .handshaking k) → s.processes[k]? = some p →
    p.ready = false
  watched : s.closing = false → ∀ (k : Nat) (p : Process), s.process = some k → s.processes[k]? = some p →
    (s.served = true ∧ p.ready = true ∨ ∃ t, s.spawnLock = some (t, .handshaking k)) → p.watcher = .waiting
  starting : ∀ i launch, s.spawnLock = some (.start i, launch) → s.served = false
  interrupted : ∀ t stop, s.spawnLock = some (t, .stopping stop true) → s.closing = true

structure Counted (settings : Settings) (s : MCPStdioServer) : Prop where
  restarting : ∀ (l : Nat) (launch : Launch), s.spawnLock = some (.restart l, launch) → s.restarts[l]? = some .launching
  sole : ∀ (l : Nat) (phase : RestartPhase), s.restarts[l]? = some phase → phase ≠ .ended → s.restartTask = some l
  sleeping : ∀ l attempt : Nat, s.restarts[l]? = some (.sleeping attempt) →
    s.restartAttempts < attempt ∧ attempt ≤ settings.restartLimit
  queued : ∀ l : Nat, s.restarts[l]? = some .queued → s.launches ≤ s.restartAttempts
  attempts : s.restartAttempts ≤ settings.restartLimit
  launches : s.launches ≤ s.restartAttempts + 1

/-- What a call of `close` has brought about. -/
def Ends (s : MCPStdioServer) : ClosePhase → Prop
  | .catalog _ => True
  | .restart l => ∀ (l' : Nat) (phase : RestartPhase), s.restarts[l']? = some phase → phase ≠ .ended → l' = l
  | .stopping stop => ∀ k, s.alive k = true → k = stop.process ∧ ∀ watcher, stop.stage ≠ .gathering watcher
  | .gathering | .returned => ∀ k, s.alive k = false

/-- A call of `close` after which no start took effect. -/
def Closing (s : MCPStdioServer) : Prop :=
  ∀ (c : Nat) (call : Close), s.closes[c]? = some call →
    call.resets ≤ s.resets ∧ (call.resets = s.resets → s.closing = true ∧ Ends s call.phase)

def Attended (s : MCPStdioServer) : Prop :=
  (∃ (k : Nat) (p : Process), s.process = some k ∧ s.processes[k]? = some p ∧ p.ready = true ∧
    p.watcher = .waiting) ∨
  ∃ (k : Nat) (p : Process), s.processes[k]? = some p ∧ p.watcher = .telling

def Restarting (s : MCPStdioServer) : Prop :=
  ∃ (l : Nat) (phase : RestartPhase), s.restarts[l]? = some phase ∧ phase ≠ .ended

def Supervised (settings : Settings) (s : MCPStdioServer) : Prop :=
  s.served = true → s.closing = false → s.restartAttempts < settings.restartLimit →
    Attended s ∨ Restarting s

structure Sound (settings : Settings) (s : MCPStdioServer) : Prop where
  processes : Alone s
  counted : Counted settings s
  closes : Closing s
  supervised : Supervised settings s

theorem sound_empty : Sound settings {} where
  processes := by
    refine ⟨?_, ?_, ?_, ?_, ?_, ?_, ?_, ?_⟩ <;> simp
  counted := by
    refine ⟨?_, ?_, ?_, ?_, Nat.zero_le _, Nat.zero_le _⟩ <;> simp
  closes c call hcall := by simp at hcall
  supervised hserved := by cases hserved

theorem Same.alive (h : Same s s') (halive : s'.alive k = true) : s.alive k = true := by
  obtain ⟨p', hp', hexited⟩ := alive_eq_true.mp halive
  obtain ⟨p, hp, hmilder⟩ := h.processes k p' hp'
  refine alive_eq_true.mpr ⟨p, hp, ?_⟩
  by_contra hgone
  simp [hmilder.exited (by simpa using hgone)] at hexited

theorem Same.forward (h : Same s s') {p : Process} (hp : s.processes[k]? = some p) :
    ∃ p' : Process, s'.processes[k]? = some p' ∧ p.Milder p' := by
  have hlt : k < s'.processes.length := by
    rw [h.length]
    exact (List.getElem?_eq_some_iff.mp hp).1
  have hp' : s'.processes[k]? = some s'.processes[k] := getElem?_eq_getElem hlt
  obtain ⟨q, hq, hmilder⟩ := h.processes k _ hp'
  rw [← some.inj (hp.symm.trans hq)] at hmilder
  exact ⟨_, hp', hmilder⟩

theorem Same.ends (h : Same s s') {phase : ClosePhase} (hends : Ends s phase) : Ends s' phase := by
  have hdead (hall : ∀ k, s.alive k = false) (k : Nat) : s'.alive k = false := by
    by_contra halive
    have hold : s.alive k = true := h.alive (by simpa using halive)
    simp [hall k] at hold
  cases phase with
  | catalog c => trivial
  | restart l =>
    intro l' phase hphase
    exact hends l' phase (h.restarts ▸ hphase)
  | stopping stop => exact fun k halive => hends k (h.alive halive)
  | gathering => exact hdead hends
  | returned => exact hdead hends

theorem Same.running (h : Same s s') (hrunning : s.running = false) : s'.running = false := by
  rw [MCPStdioServer.running, h.process]
  rw [MCPStdioServer.running] at hrunning
  cases hprocess : s.process with
  | none => rfl
  | some k =>
    rw [hprocess] at hrunning
    by_contra halive
    have hold : s.alive k = true := h.alive (by simpa using halive)
    exact absurd (hold.symm.trans hrunning) (by decide)

theorem Sound.same (h : Sound settings s) (hsame : Same s s') : Sound settings s' where
  processes := by
    refine ⟨?_, ?_, ?_, ?_, ?_, ?_, ?_, ?_⟩
    · rw [hsame.process, hsame.length]
      exact h.processes.known
    · intro k p' hp' hexited
      obtain ⟨p, hp, hmilder⟩ := hsame.processes k p' hp'
      have hrunning : p.exited = false := by
        by_contra hgone
        simp [hmilder.exited (by simpa using hgone)] at hexited
      rw [hsame.process]
      exact (h.processes.alone k p hp hrunning).imp_right hmilder.told
    · intro t hlock
      exact hsame.running (h.processes.spawning t (hsame.spawnLock ▸ hlock))
    · intro k p' hprocess hp'
      obtain ⟨p, hp, hmilder⟩ := hsame.processes k p' hp'
      obtain ⟨hexpected, hready⟩ := h.processes.current k p (hsame.process ▸ hprocess) hp
      rw [hmilder.ready, hsame.spawnLock]
      refine ⟨?_, hready⟩
      by_contra hagain
      simp [hmilder.expected (by simpa using hagain)] at hexpected
    · intro t k p' hlock hp'
      obtain ⟨p, hp, hmilder⟩ := hsame.processes k p' hp'
      rw [hmilder.ready]
      exact h.processes.unready t k p (hsame.spawnLock ▸ hlock) hp
    · intro hclosing k p' hprocess hp'
      obtain ⟨p, hp, hmilder⟩ := hsame.processes k p' hp'
      rw [hmilder.watcher, hmilder.ready, hsame.spawnLock, hsame.served]
      exact h.processes.watched (hsame.closing ▸ hclosing) k p (hsame.process ▸ hprocess) hp
    · rw [hsame.spawnLock, hsame.served]
      exact h.processes.starting
    · rw [hsame.spawnLock, hsame.closing]
      exact h.processes.interrupted
  counted := by
    obtain ⟨hrestarting, hsole, hsleeping, hqueued, hattempts, hlaunches⟩ := h.counted
    refine ⟨?_, ?_, ?_, ?_, ?_, ?_⟩
    · rw [hsame.spawnLock, hsame.restarts]
      exact hrestarting
    · rw [hsame.restarts, hsame.restartTask]
      exact hsole
    · rw [hsame.restarts, hsame.restartAttempts]
      exact hsleeping
    · rw [hsame.restarts, hsame.restartAttempts, hsame.launches]
      exact hqueued
    · rw [hsame.restartAttempts]
      exact hattempts
    · rw [hsame.restartAttempts, hsame.launches]
      exact hlaunches
  closes c call hcall := by
    rw [hsame.closes] at hcall
    rw [hsame.resets, hsame.closing]
    exact (h.closes c call hcall).imp_right fun hnow heq => (hnow heq).imp_right hsame.ends
  supervised := by
    unfold Supervised
    rw [hsame.served, hsame.closing, hsame.restartAttempts]
    intro hserved hclosing hlimit
    obtain (⟨k, p, hprocess, hp, hready, hwaiting⟩ | ⟨k, p, hp, htelling⟩) | hrestarting :=
      h.supervised hserved hclosing hlimit
    · obtain ⟨p', hp', hmilder⟩ := hsame.forward hp
      exact .inl (.inl ⟨k, p', hsame.process ▸ hprocess, hp', hmilder.ready ▸ hready, hmilder.watcher ▸ hwaiting⟩)
    · obtain ⟨p', hp', hmilder⟩ := hsame.forward hp
      exact .inl (.inr ⟨k, p', hp', hmilder.watcher ▸ htelling⟩)
    · rw [Restarting, hsame.restarts]
      exact .inr hrestarting

/-! ### The restart task -/

def Fewer (s s' : MCPStdioServer) : Prop :=
  ∀ (l : Nat) (phase : RestartPhase), s'.restarts[l]? = some phase → phase ≠ .ended →
    ∃ phase' : RestartPhase, s.restarts[l]? = some phase' ∧ phase' ≠ .ended

theorem Ends.mono {phase : ClosePhase} (h : Ends s phase) (hfewer : Fewer s s')
    (halive : ∀ k, s'.alive k = true → s.alive k = true) : Ends s' phase := by
  have hdead (hall : ∀ k, s.alive k = false) (k : Nat) : s'.alive k = false := by
    by_contra hrunning
    have hold : s.alive k = true := halive k (by simpa using hrunning)
    simp [hall k] at hold
  cases phase with
  | catalog c => trivial
  | restart l =>
    intro l' phase hphase hactive
    obtain ⟨phase', hphase', hactive'⟩ := hfewer l' phase hphase hactive
    exact h l' phase' hphase' hactive'
  | stopping stop => exact fun k hrunning => h k (halive k hrunning)
  | gathering => exact hdead h
  | returned => exact hdead h

theorem Closing.mono (h : Closing s) (hcloses : s'.closes = s.closes) (hresets : s'.resets = s.resets)
    (hclosing : s'.closing = s.closing) (hfewer : Fewer s s')
    (halive : ∀ k, s'.alive k = true → s.alive k = true) : Closing s' := by
  intro c call hcall
  rw [hcloses] at hcall
  rw [hresets, hclosing]
  refine (h c call hcall).imp_right fun hnow heq => (hnow heq).imp_right ?_
  exact fun hends => hends.mono hfewer halive

/-- A start that takes effect leaves every call of `close` behind. -/
theorem Closing.reset (h : Closing s) (hcloses : s'.closes = s.closes) (hresets : s.resets < s'.resets) :
    Closing s' := by
  intro c call hcall
  rw [hcloses] at hcall
  obtain ⟨hle, -⟩ := h c call hcall
  exact ⟨by omega, fun heq => by omega⟩

/-- While the provider is not closing, every call of `close` has been left behind. -/
theorem Closing.opened (h : Closing s) (hclosing : s.closing = false) (hcloses : s'.closes = s.closes)
    (hresets : s'.resets = s.resets) : Closing s' := by
  intro c call hcall
  rw [hcloses] at hcall
  obtain ⟨hle, hnow⟩ := h c call hcall
  refine ⟨by omega, fun heq => ?_⟩
  have hclosed := (hnow (heq.trans hresets)).1
  simp [hclosing] at hclosed

variable {old phase : RestartPhase}

theorem fewer_setRestart (hl : s.restarts[l]? = some old) (hold : old ≠ .ended)
    : Fewer s (s.setRestart l phase) := by
  intro l' phase' hphase' hactive
  obtain ⟨rfl, -⟩ | ⟨-, hphase'⟩ := (getElem?_set_eq_some hl).mp hphase'
  · exact ⟨old, hl, hold⟩
  · exact ⟨phase', hphase', hactive⟩

theorem Counted.setRestart (h : Counted settings s) (hl : s.restarts[l]? = some old) (hold : old ≠ .ended)
    (hlock : ∀ launch, s.spawnLock ≠ some (.restart l, launch))
    (hsleeping : ∀ attempt, phase = .sleeping attempt →
      s.restartAttempts < attempt ∧ attempt ≤ settings.restartLimit)
    (hqueued : phase = .queued → s.launches ≤ s.restartAttempts) :
    Counted settings (s.setRestart l phase) where
  restarting l' launch hlock' := by
    have hne : l ≠ l' := fun heq => hlock launch (heq ▸ hlock')
    exact (getElem?_set_eq_some hl).mpr (.inr ⟨hne, h.restarting l' launch hlock'⟩)
  sole l' phase' hphase' hactive := by
    obtain ⟨phase'', hphase'', hactive''⟩ := fewer_setRestart hl hold l' phase' hphase' hactive
    exact h.sole l' phase'' hphase'' hactive''
  sleeping l' attempt hphase' := by
    obtain ⟨-, heq⟩ | ⟨-, hphase'⟩ := (getElem?_set_eq_some hl).mp hphase'
    · exact hsleeping attempt heq
    · exact h.sleeping l' attempt hphase'
  queued l' hphase' := by
    obtain ⟨-, heq⟩ | ⟨-, hphase'⟩ := (getElem?_set_eq_some hl).mp hphase'
    · exact hqueued heq
    · exact h.queued l' hphase'
  attempts := h.attempts
  launches := h.launches

theorem Counted.endRestart (h : Counted settings s) (hl : s.restarts[l]? = some old) (hold : old ≠ .ended)
    (hlock : ∀ launch, s.spawnLock ≠ some (.restart l, launch)) : Counted settings (s.endRestart l) := by
  have hset : Counted settings (s.setRestart l .ended) :=
    h.setRestart hl hold hlock (nofun) nofun
  unfold MCPStdioServer.endRestart
  dsimp only
  split
  · refine { hset with sole := fun l' phase hphase hactive => ?_ }
    obtain ⟨-, heq⟩ | ⟨hne, hphase⟩ := (getElem?_set_eq_some hl).mp hphase
    · exact absurd heq.symm hactive
    · have hsole := (h.sole l old hl hold).symm.trans (h.sole l' phase hphase hactive)
      exact absurd (some.inj hsole) hne
  · exact hset

theorem fewer_endRestart (hl : s.restarts[l]? = some old) (hold : old ≠ .ended)
    : Fewer s (s.endRestart l) := by
  unfold MCPStdioServer.endRestart
  dsimp only
  split
  · exact fewer_setRestart hl hold
  · exact fewer_setRestart hl hold

theorem restarting_setRestart (hl : s.restarts[l]? = some old) (hactive : phase ≠ .ended)
    : Restarting (s.setRestart l phase) :=
  ⟨l, phase, (getElem?_set_eq_some hl).mpr (.inl ⟨rfl, rfl⟩), hactive⟩

theorem Sound.setRestart (h : Sound settings s) (hl : s.restarts[l]? = some old) (hold : old ≠ .ended)
    (hlock : ∀ launch, s.spawnLock ≠ some (.restart l, launch)) (hactive : phase ≠ .ended)
    (hsleeping : ∀ attempt, phase = .sleeping attempt →
      s.restartAttempts < attempt ∧ attempt ≤ settings.restartLimit)
    (hqueued : phase = .queued → s.launches ≤ s.restartAttempts) : Sound settings (s.setRestart l phase) where
  processes := { h.processes with }
  counted := h.counted.setRestart hl hold hlock hsleeping hqueued
  closes := h.closes.mono rfl rfl rfl (fewer_setRestart hl hold) fun _ halive => halive
  supervised _ _ _ := .inr (restarting_setRestart hl hactive)

theorem Sound.endRestart (h : Sound settings s) (hl : s.restarts[l]? = some old) (hold : old ≠ .ended)
    (hlock : ∀ launch, s.spawnLock ≠ some (.restart l, launch))
    (hattended : s.served = true → s.closing = false → s.restartAttempts < settings.restartLimit → Attended s)
    :
    Sound settings (s.endRestart l) := by
  have hclosing : Closing (s.endRestart l) ∧ Alone (s.endRestart l) ∧ Supervised settings (s.endRestart l) := by
    have hfewer := fewer_endRestart hl hold
    unfold MCPStdioServer.endRestart at hfewer ⊢
    dsimp only at hfewer ⊢
    split
    · rename_i htask
      rw [if_pos htask] at hfewer
      refine ⟨h.closes.mono rfl rfl rfl hfewer fun _ halive => halive, { h.processes with }, ?_⟩
      exact fun hserved hopen hlimit => .inl (hattended hserved hopen hlimit)
    · rename_i htask
      rw [if_neg htask] at hfewer
      refine ⟨h.closes.mono rfl rfl rfl hfewer fun _ halive => halive, { h.processes with }, ?_⟩
      exact fun hserved hopen hlimit => .inl (hattended hserved hopen hlimit)
  exact ⟨hclosing.2.1, h.counted.endRestart hl hold hlock, hclosing.1, hclosing.2.2⟩

theorem Sound.restartLoop (h : Sound settings s) (hl : s.restarts[l]? = some old) (hold : old ≠ .ended)
    (hlock : ∀ launch, s.spawnLock ≠ some (.restart l, launch))
    : Sound settings (s.restartLoop settings l) := by
  unfold MCPStdioServer.restartLoop
  split
  · rename_i hlimit
    refine h.setRestart hl hold hlock (nofun) ?_ nofun
    intro attempt heq
    cases heq
    exact ⟨Nat.lt_succ_self _, hlimit⟩
  · rename_i hlimit
    exact h.endRestart hl hold hlock fun _ _ hless => absurd hless hlimit

theorem Sound.unlocked (h : Sound settings s) (hl : s.restarts[l]? = some phase)
    (hphase : phase ≠ .launching) (launch : Launch) :
    s.spawnLock ≠ some (.restart l, launch) := by
  intro hlock
  have hlaunching := h.counted.restarting l launch hlock
  exact hphase (some.inj (hl.symm.trans hlaunching))

theorem restarting_of_task (h : s.restartTask.any s.restartActive = true) : Restarting s := by
  cases htask : s.restartTask with
  | none => simp [htask] at h
  | some l =>
    rw [htask, any_some, restartActive] at h
    cases hphase : s.restarts[l]? with
    | none => simp [hphase] at h
    | some phase => exact ⟨l, phase, hphase, by simpa [hphase] using h⟩

theorem Sound.scheduleRestart (h : Sound settings s) : Sound settings (s.scheduleRestart settings) ∧
    (s.closing = false → s.restartAttempts < settings.restartLimit →
      Restarting (s.scheduleRestart settings)) := by
  unfold MCPStdioServer.scheduleRestart
  split
  · rename_i hover
    refine ⟨h, fun hopen hlimit => ?_⟩
    rw [hopen, Bool.false_or, decide_eq_true_eq] at hover
    omega
  · rename_i hopen
    rw [Bool.or_eq_true, not_or, decide_eq_true_eq] at hopen
    have hclosing : s.closing = false := by simpa using hopen.1
    split
    · rename_i hactive
      have hrestarting : Restarting s := restarting_of_task hactive
      exact ⟨⟨{ h.processes with }, { h.counted with },
        h.closes.mono rfl rfl rfl (fun l phase hphase hactive => ⟨phase, hphase, hactive⟩) fun _ halive => halive,
        fun _ _ _ => .inr hrestarting⟩, fun _ _ => hrestarting⟩
    · rename_i hidle
      have hended : ∀ (l : Nat) (phase : RestartPhase), s.restarts[l]? = some phase → phase = .ended := by
        intro l phase hphase
        by_contra hactive
        apply hidle
        rw [h.counted.sole l phase hphase hactive, any_some, restartActive, hphase, any_some]
        exact decide_eq_true hactive
      have hnew : Restarting { s with restartTask := some s.restarts.length, restarts := s.restarts ++ [.created] } :=
        ⟨_, .created, getElem?_append_singleton.mpr (.inr ⟨rfl, rfl⟩), nofun⟩
      refine ⟨⟨{ h.processes with }, ?_, h.closes.opened hclosing rfl rfl, fun _ _ _ => .inr hnew⟩,
        fun _ _ => hnew⟩
      refine ⟨?_, ?_, ?_, ?_, h.counted.attempts, h.counted.launches⟩
      · intro l launch hlock
        exact getElem?_append_singleton.mpr (.inl (h.counted.restarting l launch hlock))
      · intro l phase hphase hactive
        obtain hphase | ⟨rfl, -⟩ := getElem?_append_singleton.mp hphase
        · exact absurd (hended l phase hphase) hactive
        · rfl
      · intro l attempt hphase
        obtain hphase | ⟨-, heq⟩ := getElem?_append_singleton.mp hphase
        · exact h.counted.sleeping l attempt hphase
        · cases heq
      · intro l hphase
        obtain hphase | ⟨-, heq⟩ := getElem?_append_singleton.mp hphase
        · exact h.counted.queued l hphase
        · cases heq

/-! ### A process is given up -/

/-- The process is not the current one any more, nor ready, and if it runs it was told to stop. -/
structure Retires (k : Nat) (s s' : MCPStdioServer) : Prop where
  process : s'.process = if s.process = some k then none else s.process
  length : s'.processes.length = s.processes.length
  processes : ∀ (j : Nat) (p' : Process), s'.processes[j]? = some p' →
    ∃ p : Process, s.processes[j]? = some p ∧ p'.exited = p.exited ∧
      (j = k → p'.ready = false ∧ (p.exited = false → p'.told = true)) ∧ (j ≠ k → p' = p)
  closing : s'.closing = s.closing
  served : s'.served = s.served

theorem retires_of_modify {f : Process → Process} (hlength : s'.processes = s.processes.modify k f)
    (hprocess : s'.process = if s.process = some k then none else s.process)
    (hclosing : s'.closing = s.closing) (hserved : s'.served = s.served)
    (hf : ∀ p, s.processes[k]? = some p →
      (f p).exited = p.exited ∧ (f p).ready = false ∧ (p.exited = false → (f p).told = true)) :
    Retires k s s' where
  process := hprocess
  length := by rw [hlength, length_modify]
  processes j p' hp' := by
    rw [hlength] at hp'
    obtain ⟨p, hp, rfl⟩ := getElem?_modify_eq_some.mp hp'
    refine ⟨p, hp, ?_⟩
    by_cases hj : k = j
    · subst hj
      obtain ⟨hexited, hready, htold⟩ := hf p hp
      rw [if_pos rfl]
      exact ⟨hexited, fun _ => ⟨hready, htold⟩, fun hne => absurd rfl hne⟩
    · rw [if_neg hj]
      exact ⟨rfl, fun heq => absurd heq.symm hj, fun _ => rfl⟩
  closing := hclosing
  served := hserved

theorem Retires.current (h : Retires k s s') (hj : s'.process = some j) :
    s.process = some j ∧ j ≠ k := by
  rw [h.process] at hj
  split at hj
  · cases hj
  · rename_i hne
    exact ⟨hj, fun heq => hne (heq ▸ hj)⟩

theorem Retires.keeps (h : Retires k s s') (hj : s.process = some j) (hne : j ≠ k) :
    s'.process = some j := by
  rw [h.process, if_neg, hj]
  rw [hj]
  exact fun heq => hne (some.inj heq)

theorem Retires.alive (h : Retires k s s') (halive : s'.alive j = true) : s.alive j = true := by
  obtain ⟨p', hp', hexited⟩ := alive_eq_true.mp halive
  obtain ⟨p, hp, hsame, -, -⟩ := h.processes j p' hp'
  exact alive_eq_true.mpr ⟨p, hp, hsame ▸ hexited⟩

theorem Retires.running (h : Retires k s s') (hrunning : s.running = false) : s'.running = false := by
  by_contra hruns
  obtain ⟨j, hj, halive⟩ : ∃ j, s'.process = some j ∧ s'.alive j = true := by
    cases hprocess : s'.process with
    | none => simp [MCPStdioServer.running, hprocess] at hruns
    | some j => exact ⟨j, rfl, by simpa [MCPStdioServer.running, hprocess] using hruns⟩
  simp [MCPStdioServer.running, (h.current hj).1, any_some, h.alive halive] at hrunning

theorem Alone.retires (h : Alone s) (hretires : Retires k s s')
    (hspawning : ∀ t, s'.spawnLock = some (t, .spawning) → s.spawnLock = some (t, .spawning))
    (hto : ∀ t j, s'.spawnLock = some (t, .handshaking j) → s.spawnLock = some (t, .handshaking j))
    (hfrom : ∀ t j, j ≠ k → s.spawnLock = some (t, .handshaking j) → s'.spawnLock = some (t, .handshaking j))
    (hstarting : ∀ i launch, s'.spawnLock = some (.start i, launch) →
      ∃ launch', s.spawnLock = some (.start i, launch'))
    (hinterrupted : ∀ t stop, s'.spawnLock = some (t, .stopping stop true) → s.closing = true)
    : Alone s' where
  known j hj := by
    rw [hretires.length]
    exact h.known j (hretires.current hj).1
  alone j p' hp' hexited' := by
    obtain ⟨p, hp, hexited, hself, hother⟩ := hretires.processes j p' hp'
    rw [hexited] at hexited'
    by_cases hj : j = k
    · exact .inr ((hself hj).2 hexited')
    · obtain rfl := hother hj
      exact (h.alone j p' hp hexited').imp_left fun hprocess => hretires.keeps hprocess hj
  spawning t hlock := hretires.running (h.spawning t (hspawning t hlock))
  current j p' hj hp' := by
    obtain ⟨p, hp, -, -, hother⟩ := hretires.processes j p' hp'
    obtain ⟨hprocess, hne⟩ := hretires.current hj
    obtain rfl := hother hne
    exact (h.current j p' hprocess hp).imp_right fun hready =>
      hready.imp_right fun ⟨t, hlock⟩ => ⟨t, hfrom t j hne hlock⟩
  unready t j p' hlock hp' := by
    obtain ⟨p, hp, -, hself, hother⟩ := hretires.processes j p' hp'
    by_cases hj : j = k
    · exact (hself hj).1
    · obtain rfl := hother hj
      exact h.unready t j p' (hto t j hlock) hp
  watched hclosing j p' hj hp' hserved := by
    obtain ⟨p, hp, -, -, hother⟩ := hretires.processes j p' hp'
    obtain ⟨hprocess, hne⟩ := hretires.current hj
    obtain rfl := hother hne
    rw [hretires.served] at hserved
    exact h.watched (hretires.closing ▸ hclosing) j p' hprocess hp
      (hserved.imp_right fun ⟨t, hlock⟩ => ⟨t, hto t j hlock⟩)
  starting i launch hlock := by
    obtain ⟨launch', hlock'⟩ := hstarting i launch hlock
    exact hretires.served.trans (h.starting i launch' hlock')
  interrupted t stop hlock := hretires.closing.trans (hinterrupted t stop hlock)

theorem retires_stopProcess (k : Nat) (lock : Option (Launcher × Launch)) :
    Retires k s { (s.stopProcess k).1 with spawnLock := lock } := by
  refine retires_of_modify (by rfl) (by rfl) (by rfl) (by rfl) ?_
  intro p _
  exact ⟨rfl, rfl, fun hexited => by simp [hexited]⟩

theorem Closing.retires (h : Closing s) (hretires : Retires k s s') (hcloses : s'.closes = s.closes)
    (hresets : s'.resets = s.resets) (hrestarts : s'.restarts = s.restarts) : Closing s' :=
  h.mono hcloses hresets hretires.closing
    (fun _ phase hphase hactive => ⟨phase, hrestarts ▸ hphase, hactive⟩) fun _ halive => hretires.alive halive

variable {t : Launcher}

theorem Sound.abandon (h : Sound settings s) {cancelled : Bool}
    (hlock : s.spawnLock = some (t, .handshaking k)) (hcancelled : cancelled = true → s.closing = true) :
    Sound settings (s.abandon t k cancelled) where
  processes := by
    apply h.processes.retires (retires_stopProcess k _)
    · exact nofun
    · exact nofun
    · intro t' j hne heq
      rw [hlock] at heq
      cases heq
      exact absurd rfl hne
    · intro i launch heq
      cases heq
      exact ⟨_, hlock⟩
    · intro t' stop heq
      cases heq
      exact hcancelled rfl
  counted := by
    refine { h.counted with restarting := ?_ }
    intro l launch heq
    cases some.inj heq
    exact h.counted.restarting l _ hlock
  closes := h.closes.retires (retires_stopProcess k _) rfl rfl rfl
  supervised hserved hclosing hlimit := by
    obtain (⟨j, p, hprocess, hp, hready, hwaiting⟩ | ⟨j, p, hp, htelling⟩) | hrestarting :=
      h.supervised hserved hclosing hlimit
    · have hne : j ≠ k := by
        intro heq
        simp [h.processes.unready t k p hlock (heq ▸ hp)] at hready
      exact .inl (.inl ⟨j, p, (retires_stopProcess (s := s) k none).keeps hprocess hne,
        getElem?_modify_eq_some.mpr ⟨p, hp, (if_neg (Ne.symm hne)).symm⟩, hready, hwaiting⟩)
    · refine .inl (.inr ⟨j, _, getElem?_modify_eq_some.mpr ⟨p, hp, rfl⟩, ?_⟩)
      split
      · exact htelling
      · exact htelling
    · exact .inr hrestarting

/-! ### The watcher -/

theorem Sound.watchProcess (h : Sound settings s) (hstep : s.watchProcess k = some s') :
    Sound settings s' := by
  unfold MCPStdioServer.watchProcess at hstep
  split at hstep
  · rename_i q hq
    split at hstep
    · rename_i hdead
      rw [Bool.and_eq_true, decide_eq_true_eq] at hdead
      obtain ⟨hexited, hwatching⟩ := hdead
      dsimp only at hstep
      generalize hover : (q.expected || s.closing || !q.ready) = ended at hstep
      generalize hmarked : ({ s with process := _, processes := _ } : MCPStdioServer) = m at hstep
      have hretires : Retires k s m := by
        rw [← hmarked]
        refine retires_of_modify (by rfl) (by rfl) (by rfl) (by rfl) ?_
        intro p hp
        rw [← some.inj (hq.symm.trans hp), hexited]
        exact ⟨rfl, rfl, nofun⟩
      have hlock : m.spawnLock = s.spawnLock := hmarked ▸ rfl
      have hm : Sound settings m := by
        refine ⟨?_, ?_, ?_, ?_⟩
        · apply h.processes.retires hretires
          · exact fun _ heq => hlock ▸ heq
          · exact fun _ _ heq => hlock ▸ heq
          · exact fun _ _ _ heq => hlock ▸ heq
          · exact fun _ launch heq => ⟨launch, hlock ▸ heq⟩
          · exact fun t stop heq => h.processes.interrupted t stop (hlock ▸ heq)
        · rw [← hmarked]
          exact { h.counted with }
        · exact h.closes.retires hretires (hmarked ▸ rfl) (hmarked ▸ rfl) (hmarked ▸ rfl)
        · rw [← hmarked]
          intro hserved hclosing hlimit
          obtain (⟨j, p, hprocess, hp, hready, hwaiting⟩ | ⟨j, p, hp, htelling⟩) | hrestarting :=
            h.supervised hserved hclosing hlimit
          · by_cases hj : j = k
            · -- the watcher of a process that was ready tells of its death
              subst hj
              cases hq.symm.trans hp
              have hunder : ended = false := by
                rw [← hover, (h.processes.current j q hprocess hq).1, hready,
                  show s.closing = false from hclosing]
                rfl
              refine .inl (.inr ⟨j, _, getElem?_modify_eq_some.mpr ⟨q, hq, rfl⟩, ?_⟩)
              rw [if_pos rfl, hunder]
              rfl
            · have hcurrent := hretires.keeps hprocess hj
              rw [← hmarked] at hcurrent
              exact .inl (.inl ⟨j, p, hcurrent,
                getElem?_modify_eq_some.mpr ⟨p, hp, (if_neg (Ne.symm hj)).symm⟩, hready, hwaiting⟩)
          · have hne : k ≠ j := by
              intro heq
              subst heq
              simp [← some.inj (hq.symm.trans hp), hwatching] at htelling
            exact .inl (.inr ⟨j, p, getElem?_modify_eq_some.mpr ⟨p, hp, (if_neg hne).symm⟩, htelling⟩)
          · exact .inr hrestarting
      cases hstep
      exact hm.same (same_failPending (some k))
    · cases hstep
  · cases hstep

theorem Sound.endWatcher (h : Sound settings s)
    (hnot : s.closing = false → ∀ p : Process, s.processes[k]? = some p → p.watcher ≠ .waiting)
    (hrestarting : s.served = true → s.closing = false → s.restartAttempts < settings.restartLimit →
      Restarting s) : Sound settings (s.modifyProcess k fun p => { p with watcher := .ended }) := by
  have hprocesses {j : Nat} {p' : Process} (hp' : (s.modifyProcess k fun p =>
      { p with watcher := .ended }).processes[j]? = some p') :
      ∃ p : Process, s.processes[j]? = some p ∧ p'.exited = p.exited ∧ p'.told = p.told ∧
        p'.expected = p.expected ∧ p'.ready = p.ready ∧ (j ≠ k → p' = p) := by
    obtain ⟨p, hp, rfl⟩ := getElem?_modify_eq_some.mp hp'
    refine ⟨p, hp, ?_⟩
    by_cases hj : k = j
    · rw [if_pos hj]
      exact ⟨rfl, rfl, rfl, rfl, fun hne => absurd hj.symm hne⟩
    · rw [if_neg hj]
      exact ⟨rfl, rfl, rfl, rfl, fun _ => rfl⟩
  have halive (j : Nat) : (s.modifyProcess k fun p => { p with watcher := .ended }).alive j = s.alive j :=
    alive_modifyProcess (fun _ => by rfl) k j
  refine ⟨⟨?_, ?_, ?_, ?_, ?_, ?_, h.processes.starting, h.processes.interrupted⟩, { h.counted with },
    ?_, fun hserved hclosing hlimit => .inr (hrestarting hserved hclosing hlimit)⟩
  · intro j hj
    show j < (s.processes.modify k _).length
    rw [length_modify]
    exact h.processes.known j hj
  · intro j p' hp' hrunning
    obtain ⟨p, hp, hexited, htold, -⟩ := hprocesses hp'
    rw [htold]
    exact h.processes.alone j p hp (hexited ▸ hrunning)
  · intro t hlock
    have hrunning := h.processes.spawning t hlock
    rw [running] at hrunning ⊢
    rwa [show (s.modifyProcess k fun p => { p with watcher := .ended }).alive = s.alive from funext halive]
  · intro j p' hj hp'
    obtain ⟨p, hp, -, -, hexpected, hready, -⟩ := hprocesses hp'
    rw [hexpected, hready]
    exact h.processes.current j p hj hp
  · intro t j p' hlock hp'
    obtain ⟨p, hp, -, -, -, hready, -⟩ := hprocesses hp'
    rw [hready]
    exact h.processes.unready t j p hlock hp
  · intro hclosing j p' hj hp' hserved
    obtain ⟨p, hp, -, -, -, hready, hother⟩ := hprocesses hp'
    rw [hready] at hserved
    have hwaiting := h.processes.watched hclosing j p hj hp hserved
    have hne : j ≠ k := by
      intro heq
      exact hnot hclosing p (heq ▸ hp) hwaiting
    rw [hother hne]
    exact hwaiting
  · exact h.closes.mono rfl rfl rfl (fun _ phase hphase hactive => ⟨phase, hphase, hactive⟩)
      fun j hj => (halive j).symm.trans hj

theorem Sound.told (h : Sound settings s) (hstep : s.told settings k = some s') :
    Sound settings s' := by
  unfold MCPStdioServer.told at hstep
  split at hstep
  · rename_i htelling
    obtain ⟨hscheduled, hrestarting⟩ := h.scheduleRestart
    have hsame : (s.scheduleRestart settings).processes = s.processes ∧
        (s.scheduleRestart settings).closing = s.closing ∧
        (s.scheduleRestart settings).restartAttempts = s.restartAttempts := by
      unfold MCPStdioServer.scheduleRestart
      split
      · exact ⟨rfl, rfl, rfl⟩
      · split
        · exact ⟨rfl, rfl, rfl⟩
        · exact ⟨rfl, rfl, rfl⟩
    cases hstep
    apply hscheduled.endWatcher
    · intro _ p hp hwaiting
      rw [hsame.1] at hp
      simp [hp, hwaiting] at htelling
    · intro _ hclosing hlimit
      exact hrestarting (hsame.2.1 ▸ hclosing) (hsame.2.2 ▸ hlimit)
  · cases hstep

/-! ### Launches -/

theorem Sound.setStart (h : Sound settings s) (i : Nat) (phase : StartPhase) :
    Sound settings (s.setStart i phase) := h.same { Same.refl s with }

theorem Sound.enterStart (h : Sound settings s) {i : Nat} (hlock : s.spawnLock = none)
    (hidle : s.running = false) (hqueued : ∀ l : Nat, s.restarts[l]? ≠ some .queued) :
    Sound settings { s.setStart i .launching with
      closing := false
      restartAttempts := 0
      restartRequested := false
      spawnLock := some (.start i, .spawning)
      launches := 1
      served := false
      resets := s.resets + 1 } where
  processes := by
    refine ⟨h.processes.known, h.processes.alone, fun _ _ => hidle, ?_, ?_, ?_, fun _ _ _ => rfl, ?_⟩
    · intro k p hprocess hp
      obtain ⟨hexpected, hready | ⟨t, hhandshake⟩⟩ := h.processes.current k p hprocess hp
      · exact ⟨hexpected, .inl hready⟩
      · simp [hlock] at hhandshake
    · exact fun _ _ _ h => nomatch h
    · rintro _ k p hprocess hp (⟨hserved, -⟩ | ⟨t, heq⟩)
      · cases hserved
      · cases heq
    · exact fun _ _ h => nomatch h
  counted := by
    refine ⟨?_, h.counted.sole, ?_, ?_, Nat.zero_le _, Nat.le_refl _⟩
    · exact fun _ _ h => nomatch h
    · intro l attempt hl
      obtain ⟨hless, hlimit⟩ := h.counted.sleeping l attempt hl
      exact ⟨Nat.zero_lt_of_lt hless, hlimit⟩
    · exact fun l hl => absurd hl (hqueued l)
  closes := h.closes.reset rfl (Nat.lt_succ_self _)
  supervised hserved := by cases hserved

theorem Sound.enterRestart (h : Sound settings s) (hlock : s.spawnLock = none)
    (hl : s.restarts[l]? = some .queued) (hidle : s.running = false) :
    Sound settings { s.setRestart l .launching with
      spawnLock := some (.restart l, .spawning), launches := s.launches + 1 } where
  processes := by
    refine ⟨h.processes.known, h.processes.alone, fun _ _ => hidle, ?_, ?_, ?_, ?_, ?_⟩
    · intro k p hprocess hp
      obtain ⟨hexpected, hready | ⟨t, hhandshake⟩⟩ := h.processes.current k p hprocess hp
      · exact ⟨hexpected, .inl hready⟩
      · simp [hlock] at hhandshake
    · exact fun _ _ _ h => nomatch h
    · rintro hclosing k p hprocess hp (hserved | ⟨t, heq⟩)
      · exact h.processes.watched hclosing k p hprocess hp (.inl hserved)
      · cases heq
    · exact fun _ _ h => nomatch h
    · exact fun _ _ h => nomatch h
  counted := by
    have hone (l' : Nat) (phase : RestartPhase) (hphase : s.restarts[l']? = some phase)
        (hactive : phase ≠ .ended) : l = l' := by
      have htask := h.counted.sole l _ hl (fun h => nomatch h)
      exact some.inj (htask.symm.trans (h.counted.sole l' phase hphase hactive))
    have hcounted := h.counted.queued l hl
    refine ⟨?_, ?_, ?_, ?_, h.counted.attempts, Nat.succ_le_succ hcounted⟩
    · intro l' launch heq
      cases heq
      exact (getElem?_set_eq_some hl).mpr (.inl ⟨rfl, rfl⟩)
    · intro l' phase hphase hactive
      obtain ⟨rfl, -⟩ | ⟨-, hphase⟩ := (getElem?_set_eq_some hl).mp hphase
      · exact h.counted.sole l _ hl fun h => nomatch h
      · exact h.counted.sole l' phase hphase hactive
    · intro l' attempt hphase
      obtain ⟨-, heq⟩ | ⟨-, hphase⟩ := (getElem?_set_eq_some hl).mp hphase
      · cases heq
      · exact h.counted.sleeping l' attempt hphase
    · intro l' hphase
      obtain ⟨-, heq⟩ | ⟨hne, hphase⟩ := (getElem?_set_eq_some hl).mp hphase
      · cases heq
      · exact absurd (hone l' _ hphase fun h => nomatch h) hne
  closes := h.closes.mono rfl rfl rfl (fewer_setRestart hl fun h => nomatch h) fun _ halive => halive
  supervised _ _ _ := .inr (restarting_setRestart hl fun h => nomatch h)

theorem Sound.attended (h : Sound settings s) (hlock : ∀ t k, s.spawnLock ≠ some (t, .handshaking k))
    (hprocess : s.process = some k) (hserved : s.served = true) (hclosing : s.closing = false) :
    Attended s := by
  obtain ⟨p, hp⟩ : ∃ p, s.processes[k]? = some p :=
    ⟨_, getElem?_eq_getElem (h.processes.known k hprocess)⟩
  obtain ⟨-, hready | ⟨t, hhandshake⟩⟩ := h.processes.current k p hprocess hp
  · exact .inl ⟨k, p, hprocess, hp, hready,
      h.processes.watched hclosing k p hprocess hp (.inl ⟨hserved, hready⟩)⟩
  · exact absurd hhandshake (hlock t k)

theorem Sound.enter (h : Sound settings s) (hqueued : ∀ i, t = .start i → s.running = false →
      ∀ l : Nat, s.restarts[l]? ≠ some .queued) (hstep : s.enter t = some s') : Sound settings s' := by
  unfold MCPStdioServer.enter at hstep
  split at hstep
  · cases hstep
  · rename_i hfree
    have hlock : s.spawnLock = none := by simpa using hfree
    cases t with
    | start i =>
      simp only at hstep
      split at hstep
      · split at hstep
        · cases hstep
          exact h.setStart i .ended
        · rename_i hidle
          cases hstep
          have hrunning : s.running = false := by simpa using hidle
          exact h.enterStart hlock hrunning (hqueued i rfl hrunning)
      · cases hstep
    | restart l =>
      simp only at hstep
      split at hstep
      · rename_i hl
        split at hstep
        · rename_i hover
          cases hstep
          apply h.endRestart hl (nofun) (h.unlocked hl nofun)
          intro hserved hclosing _
          rw [hclosing, Bool.false_or, running] at hover
          cases hprocess : s.process with
          | none => simp [hprocess] at hover
          | some k =>
            apply h.attended _ hprocess hserved hclosing
            intro t k' heq
            simp [hlock] at heq
        · rename_i hidle
          cases hstep
          rw [Bool.or_eq_true, not_or] at hidle
          exact h.enterRestart hlock hl (by simpa using hidle.2)
      · cases hstep

theorem Alone.unlock (h : Alone s) (hlock : ∀ t k, s.spawnLock ≠ some (t, .handshaking k)) :
    Alone { s with spawnLock := none } where
  known := h.known
  alone := h.alone
  spawning t heq := by cases heq
  current k p hprocess hp := by
    obtain ⟨hexpected, hready | ⟨t, hhandshake⟩⟩ := h.current k p hprocess hp
    · exact ⟨hexpected, .inl hready⟩
    · exact absurd hhandshake (hlock t k)
  unready t k p heq := by cases heq
  watched hclosing k p hprocess hp hserved := by
    obtain hready | ⟨t, heq⟩ := hserved
    · exact h.watched hclosing k p hprocess hp (.inl hready)
    · cases heq
  starting i launch heq := by cases heq
  interrupted t stop heq := by cases heq

theorem Sound.unlock (h : Sound settings s) (hlock : ∀ t k, s.spawnLock ≠ some (t, .handshaking k)) :
    Sound settings { s with spawnLock := none } where
  processes := h.processes.unlock hlock
  counted := { h.counted with restarting := fun l launch heq => by cases heq }
  closes := h.closes.mono rfl rfl rfl (fun _ phase hphase hactive => ⟨phase, hphase, hactive⟩)
    fun _ halive => halive
  supervised := h.supervised

theorem Sound.launchFailed (h : Sound settings s) {launch : Launch} {cancelled : Bool}
    (hlock : s.spawnLock = some (t, launch)) (hlaunch : ∀ k, launch ≠ .handshaking k)
    (hcancelled : cancelled = true → s.closing = true) : Sound settings (s.launchFailed t cancelled) := by
  have hunlocked : Sound settings { s with spawnLock := none } := by
    apply h.unlock
    intro t' k heq
    rw [hlock] at heq
    cases heq
    exact hlaunch k rfl
  cases t with
  | start i => exact hunlocked.setStart i .ended
  | restart l =>
    have hl : s.restarts[l]? = some .launching := h.counted.restarting l launch hlock
    have hactive : RestartPhase.launching ≠ .ended := nofun
    unfold MCPStdioServer.launchFailed
    dsimp only
    split
    · rename_i hcancel
      apply hunlocked.endRestart hl hactive (nofun)
      intro _ hclosing _
      have hclosed : s.closing = true := hcancelled hcancel
      simp [show s.closing = false from hclosing] at hclosed
    · exact hunlocked.setRestart hl hactive (nofun) (nofun)
        (nofun) nofun

theorem Sound.spawned (h : Sound settings s) {ok : Bool}
    (hopen : ok = true → ∀ (c : Nat) (call : Close), s.closes[c]? = some call → call.resets = s.resets →
      (∃ t, call.phase = .catalog t) ∨ ∃ l, call.phase = .restart l)
    (hstep : s.spawned ok = some s') : Sound settings s' := by
  unfold MCPStdioServer.spawned at hstep
  split at hstep
  · rename_i t hlock
    have hidle := h.processes.spawning t hlock
    split at hstep
    · rename_i hok
      cases hstep
      have hdead : ∀ (k : Nat) (p : Process), s.processes[k]? = some p → p.exited = false → p.told = true := by
        intro k p hp hexited
        obtain hprocess | htold := h.processes.alone k p hp hexited
        · simp [running, hprocess, any_some, alive_eq_true.mpr ⟨p, hp, hexited⟩] at hidle
        · exact htold
      refine ⟨⟨?_, ?_, ?_, ?_, ?_, ?_, ?_, ?_⟩, ?_, ?_, ?_⟩
      · intro k hk
        rw [← some.inj hk, length_append]
        exact Nat.lt_succ_self _
      · intro k p hp hexited
        obtain hp | ⟨rfl, -⟩ := getElem?_append_singleton.mp hp
        · exact .inr (hdead k p hp hexited)
        · exact .inl rfl
      · exact nofun
      · intro k p hk hp
        cases hk
        obtain hp | ⟨-, rfl⟩ := getElem?_append_singleton.mp hp
        · exact absurd (List.getElem?_eq_some_iff.mp hp).1 (Nat.lt_irrefl _)
        · exact ⟨rfl, .inr ⟨t, rfl⟩⟩
      · intro t' k p heq hp
        cases heq
        obtain hp | ⟨-, rfl⟩ := getElem?_append_singleton.mp hp
        · exact absurd (List.getElem?_eq_some_iff.mp hp).1 (Nat.lt_irrefl _)
        · rfl
      · intro _ k p hk hp _
        cases hk
        obtain hp | ⟨-, rfl⟩ := getElem?_append_singleton.mp hp
        · exact absurd (List.getElem?_eq_some_iff.mp hp).1 (Nat.lt_irrefl _)
        · rfl
      · intro i launch heq
        cases heq
        exact h.processes.starting i _ hlock
      · exact nofun
      · refine { h.counted with restarting := fun l launch heq => ?_ }
        cases heq
        exact h.counted.restarting l _ hlock
      · intro c call hcall
        refine (h.closes c call hcall).imp_right fun hnow heq => (hnow heq).imp_right fun hends => ?_
        obtain ⟨task, hphase⟩ | ⟨l, hphase⟩ := hopen hok c call hcall heq
        · rw [hphase]
          trivial
        · rw [hphase] at hends ⊢
          exact hends
      · intro hserved _ _
        cases t with
        | start i =>
          have hunserved := h.processes.starting i _ hlock
          simp [show s.served = true from hserved] at hunserved
        | restart l => exact .inr ⟨l, .launching, h.counted.restarting l _ hlock, nofun⟩
    · cases hstep
      exact h.launchFailed hlock (fun k heq => nomatch heq) nofun
  · cases hstep

theorem Sound.readied (h : Sound settings s) (hlock : s.spawnLock = some (t, .handshaking k))
    (hprocess : s.process = some k) :
    Sound settings { s.modifyProcess k fun p => { p with ready := true } with
      served := true, spawnLock := none } := by
  have hprocesses {j : Nat} {p' : Process} (hp' : (s.modifyProcess k fun p =>
      { p with ready := true }).processes[j]? = some p') :
      ∃ p : Process, s.processes[j]? = some p ∧ p'.exited = p.exited ∧ p'.told = p.told ∧
        p'.expected = p.expected ∧ p'.watcher = p.watcher ∧ (j = k → p'.ready = true) := by
    obtain ⟨p, hp, rfl⟩ := getElem?_modify_eq_some.mp hp'
    refine ⟨p, hp, ?_⟩
    by_cases hj : k = j
    · rw [if_pos hj]
      exact ⟨rfl, rfl, rfl, rfl, fun _ => rfl⟩
    · rw [if_neg hj]
      exact ⟨rfl, rfl, rfl, rfl, fun heq => absurd heq.symm hj⟩
  have halive (j : Nat) : (s.modifyProcess k fun p => { p with ready := true }).alive j = s.alive j :=
    alive_modifyProcess (fun _ => by rfl) k j
  obtain ⟨q, hq⟩ : ∃ q, s.processes[k]? = some q := ⟨_, getElem?_eq_getElem (h.processes.known k hprocess)⟩
  refine ⟨⟨?_, ?_, ?_, ?_, ?_, ?_, ?_, ?_⟩, { h.counted with restarting := ?_ }, ?_, ?_⟩
  · intro j hj
    show j < (s.processes.modify k _).length
    rw [length_modify]
    exact h.processes.known j hj
  · intro j p' hp' hexited
    obtain ⟨p, hp, hsame, htold, -⟩ := hprocesses hp'
    rw [htold]
    exact h.processes.alone j p hp (hsame ▸ hexited)
  · exact fun _ h => nomatch h
  · intro j p' hj hp'
    obtain ⟨p, hp, -, -, hexpected, -, hready⟩ := hprocesses hp'
    rw [hexpected]
    exact ⟨(h.processes.current j p hj hp).1, .inl (hready (some.inj (hj.symm.trans hprocess)))⟩
  · exact fun _ _ _ h => nomatch h
  · intro hclosing j p' hj hp' _
    obtain ⟨p, hp, -, -, -, hwatcher, -⟩ := hprocesses hp'
    obtain rfl := some.inj (hj.symm.trans hprocess)
    rw [hwatcher]
    exact h.processes.watched hclosing j p hj hp (.inr ⟨t, hlock⟩)
  · exact fun _ _ h => nomatch h
  · exact fun _ _ h => nomatch h
  · exact fun _ _ h => nomatch h
  · exact h.closes.mono rfl rfl rfl (fun _ phase hphase hactive => ⟨phase, hphase, hactive⟩)
      fun j hj => (halive j).symm.trans hj
  · intro _ hclosing _
    refine .inl (.inl ⟨k, _, hprocess, getElem?_modify_eq_some.mpr ⟨q, hq, rfl⟩, ?_, ?_⟩)
    · rw [if_pos rfl]
    · rw [if_pos rfl]
      exact h.processes.watched hclosing k q hprocess hq (.inr ⟨t, hlock⟩)

theorem Sound.handshaken (h : Sound settings s) {ok : Bool} (hstep : s.handshaken ok = some s') :
    Sound settings s' := by
  unfold MCPStdioServer.handshaken at hstep
  split at hstep
  · rename_i t k hlock
    split at hstep
    · cases hstep
      exact h.abandon hlock (by simp)
    · rename_i hconnected
      simp only [Bool.or_eq_true, not_or, Bool.not_eq_true', Bool.not_eq_false, connected, Bool.and_eq_true,
        decide_eq_true_eq] at hconnected
      have hready := h.readied hlock hconnected.2.1
      have hreturn (m : MCPStdioServer) (hm : Sound settings { m with spawnLock := none })
          (hrestarts : m.restarts = s.restarts) : Sound settings (m.launchReturned t) := by
        cases t with
        | start i => exact hm.setStart i .ended
        | restart l =>
          have hl : m.restarts[l]? = some .launching := by
            rw [hrestarts]
            exact h.counted.restarting l _ hlock
          apply hm.setRestart hl <;> simp
      cases hstep
      dsimp only
      split
      · have hrefresh : Same { s.modifyProcess k fun p => { p with ready := true } with served := true }
            (scheduleCatalogRefresh { s.modifyProcess k fun p => { p with ready := true } with served := true } k) :=
          same_scheduleCatalogRefresh k
        exact hreturn _ (hready.same { hrefresh with spawnLock := rfl }) hrefresh.restarts
      · exact hreturn _ hready rfl
  · cases hstep

theorem same_resumeStop {stop : Stop} {next : Option Stop} (hresume : s.resumeStop stop = some (s', next)) :
    Same s s' ∧ (next = none → ∃ watcher, stop.stage = .gathering watcher) ∧
      ∀ stop', next = some stop' → stop'.process = stop.process ∧ s.alive stop.process = false := by
  have hawaited (h : (if s.alive stop.process then none
      else some (s, some (Stop.mk stop.process (.gathering s.tasks)))) = some (s', next)) :
      Same s s' ∧ (next = none → ∃ watcher, stop.stage = .gathering watcher) ∧
        ∀ stop', next = some stop' → stop'.process = stop.process ∧ s.alive stop.process = false := by
    split at h
    · cases h
    · rename_i hdead
      cases h
      refine ⟨.refl s, (nofun), fun stop' heq => ?_⟩
      cases heq
      exact ⟨rfl, by simpa using hdead⟩
  have hdiscarded : Same s (s.modifyProcess stop.process fun p => { p with expected := false }) :=
    same_modifyProcess (fun _ => by exact ⟨fun h => h, fun h => h, rfl, rfl, nofun⟩) _
  unfold MCPStdioServer.resumeStop at hresume
  split at hresume
  · exact hawaited hresume
  · exact hawaited hresume
  · rename_i watcher hstage
    split at hresume
    · cases hresume
      exact ⟨hdiscarded.trans (same_failPending _), fun _ => ⟨watcher, hstage⟩, nofun⟩
    · cases hresume

theorem Sound.relock (h : Sound settings s) {stop stop' : Stop} {cancelled : Bool}
    (hlock : s.spawnLock = some (t, .stopping stop cancelled)) :
    Sound settings { s with spawnLock := some (t, .stopping stop' cancelled) } where
  processes := by
    refine ⟨h.processes.known, h.processes.alone, (fun _ h => nomatch h), ?_,
      (fun _ _ _ h => nomatch h), ?_, ?_, ?_⟩
    · intro k p hprocess hp
      obtain ⟨hexpected, hready | ⟨t', heq⟩⟩ := h.processes.current k p hprocess hp
      · exact ⟨hexpected, .inl hready⟩
      · simp [hlock] at heq
    · rintro hclosing k p hprocess hp (hready | ⟨t', heq⟩)
      · exact h.processes.watched hclosing k p hprocess hp (.inl hready)
      · cases heq
    · intro i launch heq
      cases heq
      exact h.processes.starting i _ hlock
    · intro t' stop'' heq
      cases heq
      exact h.processes.interrupted t stop hlock
  counted := by
    refine { h.counted with restarting := fun l launch heq => ?_ }
    cases heq
    exact h.counted.restarting l _ hlock
  closes := h.closes.mono rfl rfl rfl (fun _ phase hphase hactive => ⟨phase, hphase, hactive⟩)
    fun _ halive => halive
  supervised := h.supervised

theorem Sound.launchStopped (h : Sound settings s) (hstep : s.launchStopped = some s') :
    Sound settings s' := by
  unfold MCPStdioServer.launchStopped at hstep
  split at hstep
  · rename_i t stop cancelled hlock
    split at hstep
    · rename_i m stop' hresume
      have hsame := (same_resumeStop hresume).1
      have hlocked := hsame.spawnLock.trans hlock
      cases hstep
      exact (h.same hsame).relock hlocked
    · rename_i m hresume
      have hsame := (same_resumeStop hresume).1
      have hlocked := hsame.spawnLock.trans hlock
      cases hstep
      refine (h.same hsame).launchFailed hlocked (nofun) fun hcancel => ?_
      rw [hsame.closing]
      exact h.processes.interrupted t stop (hcancel ▸ hlock)
    · cases hstep
  · cases hstep

theorem Sound.launchExpired (h : Sound settings s) (hstep : s.launchExpired = some s') :
    Sound settings s' := by
  unfold MCPStdioServer.launchExpired at hstep
  split at hstep
  · rename_i t stop cancelled hlock
    obtain ⟨stop', -, rfl⟩ := Option.map_eq_some_iff.mp hstep
    exact h.relock hlock
  · cases hstep

theorem Sound.wake (h : Sound settings s) (hstep : s.wake settings l = some s') :
    Sound settings s' := by
  unfold MCPStdioServer.wake at hstep
  split at hstep
  · rename_i hl
    cases hstep
    exact h.restartLoop hl (nofun) (h.unlocked hl nofun)
  · rename_i attempt hl
    have hfree := h.unlocked hl nofun
    split at hstep
    · rename_i hclosing
      cases hstep
      apply h.endRestart hl (nofun) hfree
      intro _ hopen
      simp [hclosing] at hopen
    · obtain ⟨hless, hlimit⟩ := h.counted.sleeping l attempt hl
      have hlaunches := h.counted.launches
      have hone (l' : Nat) (phase : RestartPhase) (hphase : s.restarts[l']? = some phase)
          (hactive : phase ≠ .ended) : l = l' := by
        have htask := h.counted.sole l _ hl (nofun)
        exact some.inj (htask.symm.trans (h.counted.sole l' phase hphase hactive))
      cases hstep
      refine ⟨{ h.processes with }, ?_, ?_, ?_⟩
      · refine ⟨?_, ?_, ?_, ?_, hlimit, ?_⟩
        · intro l' launch hlock
          have hne : l ≠ l' := fun heq => hfree launch (heq ▸ hlock)
          exact (getElem?_set_eq_some hl).mpr (.inr ⟨hne, h.counted.restarting l' launch hlock⟩)
        · intro l' phase hphase hactive
          obtain ⟨rfl, -⟩ | ⟨-, hphase⟩ := (getElem?_set_eq_some hl).mp hphase
          · exact h.counted.sole l _ hl nofun
          · exact h.counted.sole l' phase hphase hactive
        · intro l' attempt' hphase
          obtain ⟨-, heq⟩ | ⟨hne, hphase⟩ := (getElem?_set_eq_some hl).mp hphase
          · cases heq
          · exact absurd (hone l' _ hphase nofun) hne
        · intro l' _
          show s.launches ≤ attempt
          omega
        · show s.launches ≤ attempt + 1
          omega
      · exact h.closes.mono rfl rfl rfl (fewer_setRestart hl nofun) fun _ halive => halive
      · exact fun _ _ _ => .inr (restarting_setRestart hl nofun)
  · cases hstep

theorem Sound.observed (h : Sound settings s) (hstep : s.observed settings l = some s') :
    Sound settings s' := by
  unfold MCPStdioServer.observed at hstep
  split at hstep
  · rename_i hl
    cases hstep
    exact h.restartLoop hl (nofun) (h.unlocked hl nofun)
  · rename_i hl
    cases hstep
    exact h.setRestart hl (nofun) (h.unlocked hl nofun)
      (nofun) (nofun) nofun
  · cases hstep

theorem Sound.unlaunched (h : Sound settings s) (hl : s.restarts[l]? = some phase)
    (hactive : phase ≠ .ended) (hphase : phase ≠ .launching) (hserved : s.served = true) (t : Launcher)
    (k : Nat) : s.spawnLock ≠ some (t, .handshaking k) := by
  intro hlock
  cases t with
  | start i =>
    have hunserved := h.processes.starting i _ hlock
    simp [hserved] at hunserved
  | restart l' =>
    have hl' := h.counted.restarting l' _ hlock
    have htask := h.counted.sole l _ hl hactive
    have htask' := h.counted.sole l' _ hl' (nofun)
    cases htask.symm.trans htask'
    exact hphase (some.inj (hl.symm.trans hl'))

theorem Sound.yielded (h : Sound settings s) (hstep : s.yielded settings l = some s') :
    Sound settings s' := by
  unfold MCPStdioServer.yielded at hstep
  split at hstep
  · rename_i hl
    have hfree := h.unlocked hl nofun
    split at hstep
    · cases hstep
      exact h.restartLoop hl (nofun) hfree
    · rename_i hdone
      cases hstep
      apply h.endRestart hl (nofun) hfree
      intro hserved hclosing _
      rw [Bool.or_eq_true, not_or] at hdone
      cases hprocess : s.process with
      | none => simp [hprocess] at hdone
      | some k =>
        exact h.attended (h.unlaunched hl (nofun) (nofun) hserved)
          hprocess hserved hclosing
  · cases hstep

/-! ### `close` -/

theorem supervised_of_closing (hclosing : s.closing = true) : Supervised settings s := by
  intro _ hopen
  simp [hclosing] at hopen

theorem Sound.setClose (h : Sound settings s) {phase : ClosePhase}
    (hends : ∀ call : Close, s.closes[c]? = some call → call.resets = s.resets → Ends s phase) :
    Sound settings (s.setClose c phase) where
  processes := { h.processes with }
  counted := { h.counted with }
  closes := by
    intro c' call' hcall'
    obtain ⟨call, hcall, rfl⟩ := getElem?_modify_eq_some.mp hcall'
    obtain ⟨hle, hnow⟩ := h.closes c' call hcall
    by_cases hc : c = c'
    · rw [if_pos hc]
      exact ⟨hle, fun heq => ⟨(hnow heq).1, hends call (hc ▸ hcall) heq⟩⟩
    · rw [if_neg hc]
      exact ⟨hle, hnow⟩
  supervised := h.supervised

/-- A call of `close` that no start has overtaken. -/
def Under (s : MCPStdioServer) (c : Nat) : Prop :=
  ∀ call : Close, s.closes[c]? = some call → call.resets = s.resets

theorem Sound.closeTasks (h : Sound settings s) (hclosing : s.closing = true)
    (hdead : ∀ k, s.alive k = false) : Sound settings (s.closeTasks c) := by
  have hended (m : MCPStdioServer) (hsame : Same s m) (k : Nat) : Sound settings
      ((m.modifyProcess k fun p => { p with watcher := .ended }).setClose c .gathering) := by
    have hm : Sound settings (m.modifyProcess k fun p => { p with watcher := .ended }) := by
      apply (h.same hsame).endWatcher
      · intro hopen
        simp [hsame.closing, hclosing] at hopen
      · intro _ hopen
        simp [hsame.closing, hclosing] at hopen
    apply hm.setClose
    intro _ _ _ j
    have halive : (m.modifyProcess k fun p => { p with watcher := .ended }).alive j = m.alive j :=
      alive_modifyProcess (fun _ => by rfl) k j
    rw [halive]
    by_contra hrunning
    have hold : s.alive j = true := hsame.alive (by simpa using hrunning)
    simp [hdead j] at hold
  unfold MCPStdioServer.closeTasks
  split
  · exact h.setClose fun _ _ _ => hdead
  · dsimp only
    split
    · exact hended _ (same_stopReading _) _
    · exact hended _ (.refl s) _

theorem Sound.closeProcess (h : Sound settings s) (hclosing : s.closing = true)
    (hidle : ∀ (l : Nat) (phase : RestartPhase), s.restarts[l]? = some phase → phase = .ended)
    (hothers : ∀ k, s.process ≠ some k → s.alive k = false) : Sound settings (s.closeProcess c) := by
  have hfree : Sound settings { s with restartTask := none } := by
    refine ⟨{ h.processes with }, { h.counted with sole := ?_ }, ?_, supervised_of_closing hclosing⟩
    · exact fun l phase hphase hactive => absurd (hidle l phase hphase) hactive
    · exact h.closes.mono rfl rfl rfl (fun _ phase hphase hactive => ⟨phase, hphase, hactive⟩)
        fun _ halive => halive
  unfold MCPStdioServer.closeProcess
  dsimp only
  split
  · rename_i k hprocess
    have hretires : Retires k { s with restartTask := none }
        (stopProcess { s with restartTask := none } k).1 :=
      retires_stopProcess (s := { s with restartTask := none }) k s.spawnLock
    have hstopped : Sound settings (stopProcess { s with restartTask := none } k).1 := by
      refine ⟨?_, { hfree.counted with }, hfree.closes.retires hretires rfl rfl rfl,
        supervised_of_closing hclosing⟩
      apply hfree.processes.retires hretires
      · exact fun _ heq => heq
      · exact fun _ _ heq => heq
      · exact fun _ _ _ heq => heq
      · exact fun _ launch heq => ⟨launch, heq⟩
      · exact fun _ _ _ => hclosing
    apply hstopped.setClose
    intro _ _ _ j halive
    have hrunning : s.alive j = true := hretires.alive halive
    have hj : j = k := by
      by_contra hne
      have hdead := hothers j fun heq => hne (some.inj (heq.symm.trans hprocess))
      simp [hrunning] at hdead
    refine ⟨hj, fun watcher heq => ?_⟩
    have hstage : (if s.alive k then StopStage.terminating else .gathering s.tasks) = .gathering watcher := heq
    simp [← hj, hrunning] at hstage
  · rename_i hprocess
    have hfailed : Same { s with restartTask := none } (failPending { s with restartTask := none } none) :=
      same_failPending none
    apply (hfree.same hfailed).closeTasks hclosing
    intro k
    exact hothers k fun heq => nomatch hprocess.symm.trans heq

theorem fewer_cancelRestart (l : Nat) : Fewer s (s.cancelRestart l) := by
  unfold MCPStdioServer.cancelRestart
  split
  · rename_i hl
    exact fewer_setRestart hl nofun
  · rename_i hl
    split
    · exact fun _ phase hphase hactive => ⟨phase, hphase, hactive⟩
    · exact fewer_endRestart hl nofun
  · exact fun _ phase hphase hactive => ⟨phase, hphase, hactive⟩
  · exact fun _ phase hphase hactive => ⟨phase, hphase, hactive⟩
  · rename_i hended hl
    exact fewer_endRestart hl hended

theorem Sound.cancelRestart (h : Sound settings s) (hclosing : s.closing = true) (l : Nat) :
    Sound settings (s.cancelRestart l) := by
  have hnot (hopen : s.closing = false) : False := by
    simp [hclosing] at hopen
  unfold MCPStdioServer.cancelRestart
  split
  · rename_i hl
    have hold : RestartPhase.created ≠ .ended := nofun
    exact ⟨{ h.processes with },
      h.counted.setRestart hl hold (h.unlocked hl nofun) (nofun)
        (nofun),
      h.closes.mono rfl rfl rfl (fewer_setRestart hl hold) fun _ halive => halive,
      supervised_of_closing hclosing⟩
  · rename_i hl
    split
    · rename_i t k hlock
      exact h.abandon hlock fun _ => hclosing
    · rename_i hlock
      have hunlocked : Sound settings { s with spawnLock := none } := h.unlock hlock
      have hended := hunlocked.endRestart hl (nofun) (nofun)
        fun _ hopen => (hnot hopen).elim
      have hcomm : (let m := s.endRestart l; { m with spawnLock := none } : MCPStdioServer) =
          MCPStdioServer.endRestart { s with spawnLock := none } l := by
        unfold MCPStdioServer.endRestart
        dsimp only
        split
        · rename_i htask
          exact (if_pos htask).symm
        · rename_i htask
          exact (if_neg htask).symm
      rw [hcomm]
      exact hended
  · exact h
  · exact h
  · rename_i hlaunching hended hl
    exact h.endRestart hl hended (h.unlocked hl hlaunching) fun _ hopen => (hnot hopen).elim

theorem Sound.closeRestart (h : Sound settings s) (hclosing : s.closing = true)
    (hothers : s.restartTask = none → ∀ k, s.process ≠ some k → s.alive k = false) :
    Sound settings (s.closeRestart c) := by
  have hcleared : Same s { s with catalogTask := none, catalogProcess := none } := same_catalogs _ _ _ _
  have hm := h.same hcleared
  unfold MCPStdioServer.closeRestart
  dsimp only
  split
  · rename_i l htask
    apply (hm.cancelRestart hclosing l).setClose
    intro _ _ _ l' phase hphase hactive
    obtain ⟨phase', hphase', hactive'⟩ := fewer_cancelRestart l l' phase hphase hactive
    exact some.inj ((h.counted.sole l' phase' hphase' hactive').symm.trans htask)
  · rename_i htask
    apply hm.closeProcess hclosing
    · intro l phase hphase
      by_contra hactive
      cases (h.counted.sole l phase hphase hactive).symm.trans htask
    · exact hothers htask

def othersExited (s : MCPStdioServer) : Bool :=
  (List.range s.processes.length).all fun k => decide (s.process = some k) || !s.alive k

theorem othersExited_eq_true (h : othersExited s = true) (k : Nat) (hother : s.process ≠ some k) :
    s.alive k = false := by
  by_contra halive
  obtain ⟨p, hp, -⟩ := alive_eq_true.mp (show s.alive k = true by simpa using halive)
  have hall := List.all_eq_true.mp h k (List.mem_range.mpr (List.getElem?_eq_some_iff.mp hp).1)
  simp [hother, halive] at hall

theorem Sound.close (h : Sound settings s) (hothers : s.catalogTask = none → s.restartTask = none →
    othersExited s = true) : Sound settings s.close := by
  unfold MCPStdioServer.close
  dsimp only
  generalize hcalled : ({ s with closing := true, served := false, closes := _ } : MCPStdioServer) = m
  have hclosing : m.closing = true := hcalled ▸ rfl
  have hm : Sound settings m := by
    rw [← hcalled]
    refine ⟨⟨h.processes.known, h.processes.alone, h.processes.spawning, h.processes.current,
      h.processes.unready, (nofun), fun _ _ _ => rfl, fun _ _ _ => rfl⟩,
      { h.counted with }, ?_, (nofun)⟩
    intro c call hcall
    obtain hcall | ⟨-, rfl⟩ := getElem?_append_singleton.mp hcall
    · obtain ⟨hle, hnow⟩ := h.closes c call hcall
      exact ⟨hle, fun heq => ⟨rfl, (hnow heq).2⟩⟩
    · exact ⟨Nat.le_refl _, fun _ => ⟨rfl, trivial⟩⟩
  split
  · refine Sound.setClose ?_ fun _ _ _ => trivial
    split
    · exact hm.same (same_catalogs _ _ _ _)
    · exact hm
  · rename_i hcatalog
    apply hm.closeRestart hclosing
    intro htask
    rw [← hcalled] at htask ⊢
    exact othersExited_eq_true (hothers hcatalog htask)

theorem Sound.closed (h : Sound settings s) (hunder : Under s c)
    (hcatalog : ∀ t, s.closes[c]?.map Close.phase = some (.catalog t) → s.restartTask = none →
      othersExited s = true)
    (hrestart : ∀ l, s.closes[c]?.map Close.phase = some (.restart l) → othersExited s = true)
    (hstep : s.closed c = some s') : Sound settings s' := by
  unfold MCPStdioServer.closed at hstep
  split at hstep
  · cases hstep
  · rename_i call hcall
    obtain ⟨hclosing, hends⟩ := (h.closes c call hcall).2 (hunder call hcall)
    split at hstep
    · rename_i t hphase
      split at hstep
      · cases hstep
      · cases hstep
        apply h.closeRestart hclosing
        exact fun htask => othersExited_eq_true (hcatalog t (by rw [hcall, map_some, hphase]) htask)
    · rename_i l hphase
      split at hstep
      · cases hstep
      · rename_i hended
        cases hstep
        apply h.closeProcess hclosing
        · intro l' phase hl'
          by_contra hactive
          rw [hphase] at hends
          obtain rfl := hends l' phase hl' hactive
          rw [restartActive, hl', any_some, decide_eq_true_eq] at hended
          exact hended hactive
        · exact othersExited_eq_true (hrestart l (by rw [hcall, map_some, hphase]))
    · rename_i stop hphase
      rw [hphase] at hends
      split at hstep
      · rename_i m stop' hresume
        obtain ⟨hsame, -, hstage⟩ := same_resumeStop hresume
        obtain ⟨-, hdead⟩ := hstage stop' rfl
        cases hstep
        apply (h.same hsame).setClose
        intro _ _ _ k halive
        have hrunning := hsame.alive halive
        simp [(hends k hrunning).1, hdead] at hrunning
      · rename_i m hresume
        obtain ⟨hsame, hgathering, -⟩ := same_resumeStop hresume
        obtain ⟨watcher, hstage⟩ := hgathering rfl
        cases hstep
        apply (h.same hsame).closeTasks (hsame.closing.trans hclosing)
        intro k
        by_contra halive
        have hrunning : s.alive k = true := hsame.alive (by simpa using halive)
        exact (hends k hrunning).2 watcher hstage
      · cases hstep
    · rename_i hphase
      rw [hphase] at hends
      have hreturned : Sound settings (s.setClose c .returned) := h.setClose fun _ _ _ => hends
      cases hstep
      exact ⟨{ hreturned.processes with }, { hreturned.counted with },
        hreturned.closes.mono rfl rfl rfl (fun _ phase hphase hactive => ⟨phase, hphase, hactive⟩)
          fun _ halive => halive, hreturned.supervised⟩
    · cases hstep

theorem Sound.closeExpired (h : Sound settings s) (hstep : s.closeExpired c = some s') :
    Sound settings s' := by
  unfold MCPStdioServer.closeExpired at hstep
  split at hstep
  · cases hstep
  · rename_i call hcall
    split at hstep
    · rename_i stop hphase
      obtain ⟨stop', hexpired, rfl⟩ := Option.map_eq_some_iff.mp hstep
      apply h.setClose
      intro call' hcall' hresets k halive
      cases hcall.symm.trans hcall'
      have hends := ((h.closes c call hcall).2 hresets).2
      rw [hphase] at hends
      unfold expireStop at hexpired
      split at hexpired
      · cases hexpired
        exact ⟨(hends k halive).1, nofun⟩
      · cases hexpired
    · cases hstep

/-! ### Runs -/

/-- The step is the one at which `close` looks for a current process. -/
def readsProcess (s : MCPStdioServer) : Step → Bool
  | .close => s.catalogTask.isNone && s.restartTask.isNone
  | .closed c =>
    match s.closes[c]?.map Close.phase with
    | some (.catalog _) => s.restartTask.isNone
    | some (.restart _) => true
    | _ => false
  | _ => false

/-- The call of `close` has not looked for a current process yet. -/
def beginning : ClosePhase → Bool
  | .catalog _ | .restart _ => true
  | _ => false

/-- A start does not set the count of attempts back while the restart task waits for the spawn lock with
an attempt it has counted; no process is launched for a start when `close` has looked for one; no call of
`close` goes on after a start took effect, and none looks for the current process while another one, of a
launch that failed, is being stopped. -/
def takesTurns (s : MCPStdioServer) (e : Step) : Bool :=
  (!readsProcess s e || othersExited s) &&
    match e with
    | .enter (.start _) => s.running || s.restarts.all fun phase => phase ≠ .queued
    | .spawned ok => !ok || s.closes.all fun call => call.resets ≠ s.resets || beginning call.phase
    | .closed c => s.closes[c]?.all fun call => call.resets = s.resets
    | _ => true

theorem Sound.step (h : Sound settings s) {e : Step} (hturns : takesTurns s e = true)
    (hstep : step settings s e = some s') : Sound settings s' := by
  unfold takesTurns at hturns
  rw [Bool.and_eq_true, Bool.or_eq_true] at hturns
  obtain ⟨hothers, hturns⟩ := hturns
  have hread (hreads : readsProcess s e = true) : othersExited s = true := by
    rw [hreads] at hothers
    simpa using hothers
  cases e with
  | request target =>
    cases hstep
    exact h.same (same_request target)
  | write id => exact h.same (same_write hstep)
  | drained id => exact h.same (same_drained hstep)
  | broken id => exact h.same (same_broken hstep)
  | resume id => exact h.same (same_resume hstep)
  | cancel id => exact h.same (same_cancel hstep)
  | notify id => exact h.same (same_notify hstep)
  | notified id => exact h.same (same_notified hstep)
  | line k line =>
    obtain ⟨-, rfl⟩ := Option.ite_some_none_eq_some.mp hstep
    exact h.same (same_readLine k line)
  | overlong k =>
    obtain ⟨-, rfl⟩ := Option.ite_some_none_eq_some.mp hstep
    exact h.same (same_overlong k)
  | endOfFile k =>
    obtain ⟨-, rfl⟩ := Option.ite_some_none_eq_some.mp hstep
    exact h.same (same_stopReading k)
  | exit k =>
    obtain ⟨-, rfl⟩ := Option.ite_some_none_eq_some.mp hstep
    exact h.same (same_exit k)
  | watch k => exact h.watchProcess hstep
  | told k => exact h.told hstep
  | start =>
    cases hstep
    exact h.same { Same.refl s with }
  | superviseInitialFailure =>
    rw [← some.inj hstep, superviseInitialFailure]
    split
    · exact h
    · exact h.scheduleRestart.1
  | enter t =>
    refine h.enter ?_ hstep
    rintro i rfl hidle l hl
    rw [hidle, Bool.false_or] at hturns
    have hnot := List.all_eq_true.mp hturns .queued (mem_of_getElem? hl)
    simp at hnot
  | spawned ok =>
    refine h.spawned ?_ hstep
    intro hok c call hcall hresets
    dsimp only at hturns
    rw [hok, Bool.not_true, Bool.false_or] at hturns
    have hbeginning := List.all_eq_true.mp hturns call (mem_of_getElem? hcall)
    simp only [hresets, ne_eq, not_true, decide_false, Bool.false_or] at hbeginning
    cases hphase : call.phase with
    | catalog task => exact .inl ⟨task, rfl⟩
    | restart l => exact .inr ⟨l, rfl⟩
    | stopping | gathering | returned =>
      rw [hphase] at hbeginning
      cases hbeginning
  | handshaken ok => exact h.handshaken hstep
  | launchStopped => exact h.launchStopped hstep
  | launchExpired => exact h.launchExpired hstep
  | wake l => exact h.wake hstep
  | observed l => exact h.observed hstep
  | yielded l => exact h.yielded hstep
  | close =>
    cases hstep
    apply h.close
    intro hcatalog htask
    apply hread
    rw [readsProcess, hcatalog, htask]
    rfl
  | closed c =>
    refine h.closed ?_ ?_ ?_ hstep
    · intro call hcall
      dsimp only at hturns
      rw [hcall, all_some, decide_eq_true_eq] at hturns
      exact hturns
    · intro task hphase htask
      apply hread
      simp [readsProcess, hphase, htask]
    · intro l hphase
      apply hread
      simp [readsProcess, hphase]
  | closeExpired c => exact h.closeExpired hstep
  | catalog c ok => exact h.same (same_catalog hstep)

/-- One process runs that was not told to stop, and it is the current one; the launches since the last
start are bounded; after a `close` that no start overtook nothing runs; and as long as attempts are left,
after a process was ready there is one that is ready and watched, or a watcher that is about to ask for a
restart, or a restart task that has a launch to make. -/
structure Bounded (settings : Settings) (s : MCPStdioServer) : Prop where
  alone : ∀ (k : Nat) (p : Process), s.processes[k]? = some p → p.exited = false → p.told = false →
    s.process = some k
  launches : s.launches ≤ 1 + settings.restartLimit
  closed : ∀ call ∈ s.closes, call.phase = .returned → call.resets = s.resets → ∀ k, s.alive k = false
  supervised : s.served = true → s.closing = false → s.restartAttempts < settings.restartLimit →
    Attended s ∨ ∃ (l : Nat) (phase : RestartPhase), s.restarts[l]? = some phase ∧ phase ≠ .ended ∧
      (phase = .launched ∨ phase = .yielding → s.process = none)

theorem Sound.bounded (h : Sound settings s) : Bounded settings s where
  alone k p hp hexited htold := by
    refine (h.processes.alone k p hp hexited).resolve_right ?_
    rw [htold]
    exact nofun
  launches := by
    have hlaunches := h.counted.launches
    have hattempts := h.counted.attempts
    omega
  closed call hcall hphase hresets := by
    obtain ⟨c, hcall⟩ := mem_iff_getElem?.mp hcall
    have hends := ((h.closes c call hcall).2 hresets).2
    rw [hphase] at hends
    exact hends
  supervised hserved hclosing hlimit := by
    obtain hattended | ⟨l, phase, hl, hactive⟩ := h.supervised hserved hclosing hlimit
    · exact .inl hattended
    · cases hprocess : s.process with
      | none => exact .inr ⟨l, phase, hl, hactive, fun _ => rfl⟩
      | some k =>
        by_cases hphase : phase = .launching
        · exact .inr ⟨l, phase, hl, hactive, fun hlaunched => by simp [hphase] at hlaunched⟩
        · exact .inl (h.attended (h.unlaunched hl hactive hphase hserved) hprocess hserved hclosing)

/-- In every run in which starts and closes take turns, one process runs, the launches are bounded, nothing
outlives a `close`, and no death is lost. -/
theorem restarts_bounded {as : List Step}
    (halong : Along (Mcp.step settings) (fun s e => takesTurns s e = true) {} as)
    (hrun : run (Mcp.step settings) {} as = some s) : Bounded settings s := by
  apply Sound.bounded
  exact run_invariant_along (fun _ _ _ h hturns hstep => h.step hturns hstep) sound_empty halong hrun

/-- The server dies, its first restart fails, the second succeeds, and the provider is closed. -/
theorem restarts_bounded_closed : ∃ s, Bounded ⟨5⟩ s ∧
    (s.launches, s.processes.map Process.exited, s.closing) = (3, [true, true, true], true) := by
  let events : List Step := startup ++
    [.exit 0, .watch 0, .told 0, .wake 0, .wake 0, .enter (.restart 0), .spawned true, .handshaken false,
      .exit 1, .launchStopped, .watch 1, .launchStopped, .observed 0, .wake 0, .enter (.restart 0),
      .spawned true] ++ answered 3 2 ++ answered 4 2 ++
    [.handshaken true, .observed 0, .yielded 0, .close, .exit 2, .closed 0, .watch 2, .closed 0, .closed 0]
  have htrace : (run (Mcp.step ⟨5⟩) {} events).map (fun s =>
      (s.launches, s.processes.map Process.exited, s.closing)) =
      some (3, [true, true, true], true) := by decide +kernel
  obtain ⟨s, hrun, hends⟩ := Option.map_eq_some_iff.mp htrace
  exact ⟨s, restarts_bounded (by decide +kernel) hrun, hends⟩

/-- A restart whose handshake failed has told its process to stop when `close` cancels it, and `close`
returns while the process runs. -/
theorem close_leaves_process_running : ∃ settings events s, run (Mcp.step settings) {} events = some s ∧
    ¬ Bounded settings s := by
  let events : List Step := startup ++
    [.exit 0, .watch 0, .told 0, .wake 0, .wake 0, .enter (.restart 0), .spawned true, .handshaken false,
      .close, .closed 0, .closed 0]
  have htrace : (run (Mcp.step ⟨5⟩) {} events).map (fun s => (s.alive 1,
      s.closes.any fun call => match call.phase with
        | .returned => decide (call.resets = s.resets)
        | _ => false)) = some (true, true) := by decide +kernel
  obtain ⟨s, hrun, hends⟩ := Option.map_eq_some_iff.mp htrace
  rw [Prod.mk.injEq, List.any_eq_true] at hends
  obtain ⟨halive, call, hcall, hreturned⟩ := hends
  refine ⟨_, events, s, hrun, fun hbounded => ?_⟩
  split at hreturned
  · rename_i hphase
    have hdead := hbounded.closed call hcall hphase (of_decide_eq_true hreturned) 1
    simp [halive] at hdead
  · cases hreturned

end OpenAgent.Mcp
