import OpenAgent.Mcp.Steps

/-!
# Responses find their requests

Every response, disconnection and cancellation meets the future of one request, and a future is set
once. A request waits for the process it was sent to, and only the reader of that process, its watcher
or whoever gives the process up can end the wait. The first part holds in every run. The second needs
that requests are made while the reader still reads: a line that `json.loads` cannot decode ends the
reader and leaves the process as it is.
-/

namespace OpenAgent.Mcp

open Lib MCPStdioServer Option

variable {settings : Settings} {s s' s'' : MCPStdioServer}

/-! ### Steps that leave the requests alone -/

structure Untouched (s s' : MCPStdioServer) : Prop where
  pending : s'.pending = s.pending
  completed : s'.completed = s.completed
  nextId : s'.nextId = s.nextId
  withdrawn : s'.withdrawn = s.withdrawn
  reads : ∀ k, s.reads k = true → s'.reads k = true

structure Kept (s s' : MCPStdioServer) : Prop extends Untouched s s' where
  process : s'.process = s.process

theorem Untouched.trans (h : Untouched s s') (h' : Untouched s' s'') : Untouched s s'' where
  pending := h'.pending.trans h.pending
  completed := h'.completed.trans h.completed
  nextId := h'.nextId.trans h.nextId
  withdrawn := h'.withdrawn.trans h.withdrawn
  reads k hk := h'.reads k (h.reads k hk)

theorem Kept.trans (h : Kept s s') (h' : Kept s' s'') : Kept s s'' :=
  { h.toUntouched.trans h'.toUntouched with process := h'.process.trans h.process }

theorem Kept.refl (s : MCPStdioServer) : Kept s s := ⟨⟨rfl, rfl, rfl, rfl, fun _ h => h⟩, rfl⟩

variable {c k l : Nat}

theorem reads_eq_true :
    s.reads k = true ↔ ∃ p, s.processes[k]? = some p ∧ p.reading = true := by
  simp [reads, any_eq_true]

theorem reads_modifyProcess {f : Process → Process} (hf : ∀ p, (f p).reading = p.reading) (k j : Nat) :
    (s.modifyProcess k f).reads j = s.reads j := by
  have hmap : (s.processes.modify k f)[j]?.map Process.reading = s.processes[j]?.map Process.reading :=
    map_getElem?_modify hf j
  simp only [reads, modifyProcess]
  cases h : s.processes[j]? with
  | none => rw [List.getElem?_modify, h]; rfl
  | some p =>
    rw [List.getElem?_modify, h] at hmap ⊢
    simpa using hmap

theorem kept_modifyProcess {f : Process → Process} (hf : ∀ p, (f p).reading = p.reading) (k : Nat) :
    Kept s (s.modifyProcess k f) :=
  ⟨⟨rfl, rfl, rfl, rfl, fun j h => (reads_modifyProcess hf k j).trans h⟩, rfl⟩

theorem kept_endCatalog (c : Nat) : Kept s (s.endCatalog c) := by
  unfold endCatalog
  dsimp only
  split
  · exact ⟨⟨rfl, rfl, rfl, rfl, fun _ h => h⟩, rfl⟩
  · exact ⟨⟨rfl, rfl, rfl, rfl, fun _ h => h⟩, rfl⟩

theorem kept_scheduleCatalogRefresh (k : Nat) : Kept s (s.scheduleCatalogRefresh k) := by
  unfold scheduleCatalogRefresh
  dsimp only
  split
  · exact .refl s
  · have hmarked : Kept s { s with catalogDirty := true } := ⟨⟨rfl, rfl, rfl, rfl, fun _ h => h⟩, rfl⟩
    split
    · exact hmarked
    · split
      · exact ⟨⟨rfl, rfl, rfl, rfl, fun _ h => h⟩, rfl⟩
      · split
        · exact ⟨⟨rfl, rfl, rfl, rfl, fun _ h => h⟩, rfl⟩
        · split
          · exact hmarked
          · exact ⟨⟨rfl, rfl, rfl, rfl, fun _ h => h⟩, rfl⟩

theorem kept_catalog {ok : Bool} (hstep : s.catalog c ok = some s') : Kept s s' := by
  have hset (phase : CatalogPhase) : Kept s (s.setCatalog c phase) :=
    ⟨⟨rfl, rfl, rfl, rfl, fun _ h => h⟩, rfl⟩
  have hloop (k : Nat) : Kept s (s.refreshLoop c k) := by
    unfold refreshLoop
    split
    · exact ⟨⟨rfl, rfl, rfl, rfl, fun _ h => h⟩, rfl⟩
    · exact kept_endCatalog c
  have hlisted (current : Bool) (h : (if s.closing || !current then some (s.endCatalog c)
      else some (s.setCatalog c .telling)) = some s') : Kept s s' := by
    split at h
    · cases h
      exact kept_endCatalog c
    · cases h
      exact hset _
  unfold MCPStdioServer.catalog at hstep
  split at hstep
  · cases hstep
  · split at hstep
    · cases hstep
      exact hloop _
    · cases hstep
      exact hloop _
    · exact hlisted _ hstep
    · cases hstep
      exact kept_endCatalog c
    · cases hstep

theorem kept_scheduleRestart : Kept s (s.scheduleRestart settings) := by
  unfold scheduleRestart
  split
  · exact .refl s
  · split
    · exact ⟨⟨rfl, rfl, rfl, rfl, fun _ h => h⟩, rfl⟩
    · exact ⟨⟨rfl, rfl, rfl, rfl, fun _ h => h⟩, rfl⟩

theorem kept_endRestart (l : Nat) : Kept s (s.endRestart l) := by
  unfold endRestart
  dsimp only
  split
  · exact ⟨⟨rfl, rfl, rfl, rfl, fun _ h => h⟩, rfl⟩
  · exact ⟨⟨rfl, rfl, rfl, rfl, fun _ h => h⟩, rfl⟩

theorem kept_restartLoop (l : Nat) : Kept s (s.restartLoop settings l) := by
  unfold restartLoop
  split
  · exact ⟨⟨rfl, rfl, rfl, rfl, fun _ h => h⟩, rfl⟩
  · exact kept_endRestart l

theorem kept_launchFailed (t : Launcher) (cancelled : Bool) : Kept s (s.launchFailed t cancelled) := by
  unfold launchFailed
  cases t with
  | start i => exact ⟨⟨rfl, rfl, rfl, rfl, fun _ h => h⟩, rfl⟩
  | restart l =>
    have hfree : Kept s { s with spawnLock := none } := ⟨⟨rfl, rfl, rfl, rfl, fun _ h => h⟩, rfl⟩
    dsimp only
    split
    · exact hfree.trans (kept_endRestart l)
    · exact ⟨⟨rfl, rfl, rfl, rfl, fun _ h => h⟩, rfl⟩

theorem kept_launchReturned (t : Launcher) : Kept s (s.launchReturned t) := by
  cases t with
  | start i => exact ⟨⟨rfl, rfl, rfl, rfl, fun _ h => h⟩, rfl⟩
  | restart l => exact ⟨⟨rfl, rfl, rfl, rfl, fun _ h => h⟩, rfl⟩

theorem untouched_stopProcess (k : Nat) : Untouched s (s.stopProcess k).1 := by
  have hkept : Kept s (s.modifyProcess k fun p =>
      { p with expected := true, ready := false, told := p.told || !p.exited }) :=
    kept_modifyProcess (fun _ => by rfl) k
  exact { hkept.toUntouched with }

theorem untouched_abandon (t : Launcher) (k : Nat) (cancelled : Bool) :
    Untouched s (s.abandon t k cancelled) :=
  { (untouched_stopProcess k : Untouched s _) with }

theorem untouched_cancelRestart (l : Nat) : Untouched s (s.cancelRestart l) := by
  unfold cancelRestart
  split
  · exact ⟨rfl, rfl, rfl, rfl, fun _ h => h⟩
  · split
    · exact untouched_abandon _ _ _
    · exact { (kept_endRestart l : Kept s _).toUntouched with }
  · exact (Kept.refl s).toUntouched
  · exact (Kept.refl s).toUntouched
  · exact (kept_endRestart l).toUntouched

/-! ### Every future is set once -/

/-- The request ended by a response with its id, read from the process it was sent to, by a
disconnection, or because its caller was cancelled. -/
def Proper (withdrawn : List Int) (c : Completed) : Prop :=
  match c.how with
  | .reply k id _ => k = c.process ∧ id = c.id
  | .disconnected | .lost => True
  | .cancelled => c.id ∈ withdrawn

structure Books (s : MCPStdioServer) : Prop where
  once : (s.completed.map Completed.id).Nodup
  completed : ∀ c ∈ s.completed, c.id ≤ s.nextId ∧ Proper s.withdrawn c
  pending : ∀ id r, s.pending.get? id = some r →
    id ≤ s.nextId ∧ (r.future = none → id ∉ s.completed.map Completed.id)

theorem books_empty : Books {} where
  once := List.nodup_nil
  completed c hc := by cases hc
  pending id r hr := by cases hr

theorem Proper.mono {withdrawn withdrawn' : List Int} {c : Completed} (h : Proper withdrawn c)
    (hsub : ∀ id ∈ withdrawn, id ∈ withdrawn') : Proper withdrawn' c := by
  unfold Proper at h ⊢
  split
  · rename_i hhow
    simpa [hhow] using h
  · trivial
  · trivial
  · rename_i hhow
    rw [hhow] at h
    exact hsub _ h

theorem Books.keep (h : Books s) (hcompleted : s'.completed = s.completed) (hnext : s.nextId ≤ s'.nextId)
    (hwithdrawn : ∀ id ∈ s.withdrawn, id ∈ s'.withdrawn)
    (hpending : ∀ id r, s'.pending.get? id = some r →
      ∃ r', s.pending.get? id = some r' ∧ (r.future = none → r'.future = none)) : Books s' where
  once := hcompleted ▸ h.once
  completed c hc := by
    obtain ⟨hle, hproper⟩ := h.completed c (hcompleted ▸ hc)
    exact ⟨Int.le_trans hle (Int.ofNat_le.mpr hnext), hproper.mono hwithdrawn⟩
  pending id r hr := by
    obtain ⟨r', hr', hundone⟩ := hpending id r hr
    obtain ⟨hle, hfresh⟩ := h.pending id r' hr'
    rw [hcompleted]
    exact ⟨Int.le_trans hle (Int.ofNat_le.mpr hnext), fun hnone => hfresh (hundone hnone)⟩

theorem Books.append (h : Books s) {new : List Completed} (hcompleted : s'.completed = s.completed ++ new)
    (hnext : s'.nextId = s.nextId) (hwithdrawn : s'.withdrawn = s.withdrawn)
    (hnodup : (new.map Completed.id).Nodup)
    (hnew : ∀ c ∈ new, Proper s.withdrawn c ∧ ∃ r, s.pending.get? c.id = some r ∧ r.future = none)
    (hpending : ∀ id r, s'.pending.get? id = some r → ∃ r', s.pending.get? id = some r' ∧
      (r.future = none → r'.future = none ∧ id ∉ new.map Completed.id)) : Books s' where
  once := by
    rw [hcompleted, List.map_append, List.nodup_append]
    refine ⟨h.once, hnodup, ?_⟩
    rintro _ hold id hid rfl
    obtain ⟨c, hc, rfl⟩ := List.mem_map.mp hid
    obtain ⟨-, r, hr, hundone⟩ := hnew c hc
    exact (h.pending c.id r hr).2 hundone hold
  completed c hc := by
    rw [hnext, hwithdrawn]
    rcases List.mem_append.mp (hcompleted ▸ hc) with hold | hc
    · exact h.completed c hold
    · obtain ⟨hproper, r, hr, -⟩ := hnew c hc
      exact ⟨(h.pending c.id r hr).1, hproper⟩
  pending id r hr := by
    obtain ⟨r', hr', hundone⟩ := hpending id r hr
    obtain ⟨hle, hfresh⟩ := h.pending id r' hr'
    rw [hnext, hcompleted, List.map_append, List.mem_append]
    refine ⟨hle, fun hnone => ?_⟩
    rintro (hold | hid)
    · exact hfresh (hundone hnone).1 hold
    · exact (hundone hnone).2 hid

theorem Books.untouched (h : Books s) (hsame : Untouched s s') : Books s' := by
  apply h.keep hsame.completed (Nat.le_of_eq hsame.nextId.symm)
  · rw [hsame.withdrawn]
    exact fun _ hid => hid
  · intro id r hr
    exact ⟨r, hsame.pending ▸ hr, fun hnone => hnone⟩

theorem Books.setStage (h : Books s) (id : Int) (stage : Stage) : Books (s.setStage id stage) := by
  refine h.keep rfl (Nat.le_refl _) (fun _ hid => hid) ?_
  intro j r hr
  obtain ⟨r', hr', rfl⟩ := Dict.get?_update_eq_some.mp hr
  refine ⟨r', hr', ?_⟩
  split
  · exact fun hnone => hnone
  · exact fun hnone => hnone

variable {id : Int}

theorem Books.complete (h : Books s) {how : Completion}
    (hproper : ∀ r, s.pending.get? id = some r → Proper s.withdrawn ⟨id, r.process, how⟩) :
    Books (s.complete id how) := by
  unfold MCPStdioServer.complete
  split
  · exact h
  · rename_i r hr
    split
    · exact h
    · rename_i hundone
      have hnone : r.future = none := by simpa using hundone
      refine h.append rfl rfl rfl (List.nodup_singleton _) ?_ ?_
      · intro c hc
        rw [List.mem_singleton.mp hc]
        exact ⟨hproper r hr, r, hr, hnone⟩
      · intro j r' hr'
        rw [Dict.get?_set] at hr'
        split at hr'
        · rename_i heq
          rw [heq, ← some.inj hr']
          exact ⟨r, hr, nofun⟩
        · rename_i hne
          exact ⟨r', hr', fun hdone => ⟨hdone, by simpa using hne⟩⟩

theorem get?_failPending {process : Option Nat} {r : Request}
    (hr : (s.failPending process).pending.get? id = some r) : ∃ r', s.pending.get? id = some r' ∧
      (r.future = none → r = r' ∧ concerns process r' = false) := by
  rw [failPending, Dict.get?_map, map_eq_some_iff] at hr
  obtain ⟨r', hr', rfl⟩ := hr
  refine ⟨r', hr', ?_⟩
  split
  · exact nofun
  · rename_i hother
    exact fun _ => ⟨rfl, by simpa using hother⟩

theorem Books.failPending (h : Books s) (process : Option Nat) : Books (s.failPending process) := by
  refine h.append rfl rfl rfl ?_ ?_ ?_
  · rw [List.map_map]
    exact s.pending.nodup.sublist (List.filter_sublist.map _)
  · intro c hc
    obtain ⟨e, he, rfl⟩ := List.mem_map.mp hc
    obtain ⟨hmem, hconcerns⟩ := List.mem_filter.mp he
    refine ⟨trivial, e.2, Dict.get?_eq_some_iff.mpr hmem, ?_⟩
    rw [concerns, Bool.and_eq_true] at hconcerns
    simpa using hconcerns.1
  · intro id r hr
    obtain ⟨r', hr', hundone⟩ := get?_failPending hr
    refine ⟨r', hr', fun hnone => ?_⟩
    obtain ⟨rfl, hother⟩ := hundone hnone
    refine ⟨hnone, fun hid => ?_⟩
    obtain ⟨c, hc, hcid⟩ := List.mem_map.mp hid
    obtain ⟨e, he, rfl⟩ := List.mem_map.mp hc
    obtain ⟨hmem, hconcerns⟩ := List.mem_filter.mp he
    have he : s.pending.get? e.1 = some e.2 := Dict.get?_eq_some_iff.mpr hmem
    rw [show e.1 = id from hcid, hr'] at he
    simp [← some.inj he, hother] at hconcerns

theorem Books.request (h : Books s) (target : Option Nat) : Books (s.request target) := by
  unfold MCPStdioServer.request
  split
  · exact h
  · split
    · exact h
    · rename_i k _ _
      have hnew : ∀ id : Int, id ≤ s.nextId → id ≠ s.nextId + 1 := by omega
      have hlogged : (s.nextId : Int) + 1 ∉ s.completed.map Completed.id := by
        intro hid
        obtain ⟨c, hc, heq⟩ := List.mem_map.mp hid
        exact hnew c.id (h.completed c hc).1 heq
      dsimp only
      split
      · refine ⟨h.once, ?_, ?_⟩
        · intro c hc
          obtain ⟨hle, hproper⟩ := h.completed c hc
          exact ⟨by push_cast; omega, hproper⟩
        · intro id r hr
          rw [Dict.get?_set] at hr
          split at hr
          · rename_i heq
            rw [heq]
            exact ⟨by push_cast; omega, fun _ => hlogged⟩
          · obtain ⟨hle, hfresh⟩ := h.pending id r hr
            exact ⟨by push_cast; omega, hfresh⟩
      · refine ⟨?_, ?_, ?_⟩
        · rw [List.map_append, List.nodup_append]
          refine ⟨h.once, List.nodup_singleton _, ?_⟩
          rintro _ hold id hid rfl
          rw [List.mem_singleton.mp hid] at hold
          exact hlogged hold
        · intro c hc
          rcases List.mem_append.mp hc with hold | hc
          · obtain ⟨hle, hproper⟩ := h.completed c hold
            exact ⟨by push_cast; omega, hproper⟩
          · rw [List.mem_singleton.mp hc]
            exact ⟨by push_cast; omega, trivial⟩
        · intro id r hr
          obtain ⟨hle, hfresh⟩ := h.pending id r hr
          refine ⟨by push_cast; omega, fun hnone hid => ?_⟩
          rw [List.map_append] at hid
          rcases List.mem_append.mp hid with hold | hid
          · exact hfresh hnone hold
          · exact hnew id hle (List.mem_singleton.mp hid)

theorem Books.stopReading (h : Books s) (k : Nat) : Books (s.stopReading k) := by
  have hmodified : Books (s.modifyProcess k fun p => { p with reading := false }) := { h with }
  exact hmodified.failPending (some k)

/-! ### A request on its way -/

def CalledOff (s : MCPStdioServer) : Prop :=
  ∀ id r, s.pending.get? id = some r → r.stage = .cancelling ∨ r.stage = .notifying → id ∈ s.withdrawn

structure Shrinks (s s' : MCPStdioServer) : Prop where
  process : s'.process = s.process
  reads : ∀ k, s.reads k = true → s'.reads k = true
  withdrawn : ∀ id ∈ s.withdrawn, id ∈ s'.withdrawn
  pending : ∀ id r, s'.pending.get? id = some r → ∃ r', s.pending.get? id = some r' ∧
    r.process = r'.process ∧ r.stage = r'.stage ∧ (r.future = none → r'.future = none)

theorem Shrinks.refl (s : MCPStdioServer) : Shrinks s s :=
  ⟨rfl, fun _ h => h, fun _ h => h, fun _ r hr => ⟨r, hr, rfl, rfl, fun hnone => hnone⟩⟩

theorem Kept.shrinks (h : Kept s s') : Shrinks s s' where
  process := h.process
  reads := h.reads
  withdrawn _ hid := h.withdrawn.symm ▸ hid
  pending _ r hr := ⟨r, h.pending ▸ hr, rfl, rfl, fun hnone => hnone⟩

theorem shrinks_complete (id : Int) (how : Completion) : Shrinks s (s.complete id how) := by
  unfold MCPStdioServer.complete
  split
  · exact .refl s
  · rename_i r hr
    split
    · exact .refl s
    · refine ⟨rfl, fun _ h => h, fun _ h => h, ?_⟩
      intro j r' hr'
      rw [Dict.get?_set] at hr'
      split at hr'
      · rename_i heq
        rw [heq, ← some.inj hr']
        exact ⟨r, hr, rfl, rfl, nofun⟩
      · exact ⟨r', hr', rfl, rfl, fun hnone => hnone⟩

theorem CalledOff.shrinks (h : CalledOff s) (hshrinks : Shrinks s s') : CalledOff s' := by
  intro id r hr hstage
  obtain ⟨r', hr', -, hsame, -⟩ := hshrinks.pending id r hr
  exact hshrinks.withdrawn id (h id r' hr' (hsame ▸ hstage))

theorem CalledOff.setStage (h : CalledOff s) {stage : Stage}
    (hstage : stage = .cancelling ∨ stage = .notifying → id ∈ s.withdrawn) :
    CalledOff (s.setStage id stage) := by
  intro j r hr hcalled
  obtain ⟨r', hr', rfl⟩ := Dict.get?_update_eq_some.mp hr
  split at hcalled
  · rename_i heq
    rw [heq]
    exact hstage hcalled
  · exact h j r' hr' hcalled

def Heard (s : MCPStdioServer) : Prop :=
  ∀ id r, s.pending.get? id = some r → r.future = none →
    s.process = some r.process ∧ s.reads r.process = true

theorem Heard.shrinks (h : Heard s) (hshrinks : Shrinks s s') : Heard s' := by
  intro id r hr hnone
  obtain ⟨r', hr', hsame, -, hundone⟩ := hshrinks.pending id r hr
  obtain ⟨hprocess, hreads⟩ := h id r' hr' (hundone hnone)
  rw [hshrinks.process, hsame]
  exact ⟨hprocess, hshrinks.reads _ hreads⟩

theorem Heard.setStage (h : Heard s) (id : Int) (stage : Stage) : Heard (s.setStage id stage) := by
  intro j r hr hnone
  obtain ⟨r', hr', rfl⟩ := Dict.get?_update_eq_some.mp hr
  split at hnone
  · rw [if_pos (by assumption)]
    exact h j r' hr' hnone
  · rw [if_neg (by assumption)]
    exact h j r' hr' hnone

structure Settles (s s' : MCPStdioServer) : Prop where
  books : Books s → CalledOff s → Books s'
  calledOff : CalledOff s → CalledOff s'
  waits : ∀ id r, s'.pending.get? id = some r → r.future = none →
    ∃ r', s.pending.get? id = some r' ∧ r'.future = none

theorem Settles.trans (h : Settles s s') (h' : Settles s' s'') : Settles s s'' where
  books hbooks hcalled := h'.books (h.books hbooks hcalled) (h.calledOff hcalled)
  calledOff hcalled := h'.calledOff (h.calledOff hcalled)
  waits id r hr hnone := by
    obtain ⟨r', hr', hnone'⟩ := h'.waits id r hr hnone
    exact h.waits id r' hr' hnone'

theorem Untouched.settles (h : Untouched s s') : Settles s s' where
  books hbooks _ := hbooks.untouched h
  calledOff hcalled := by
    intro id r hr hstage
    rw [h.withdrawn]
    exact hcalled id r (h.pending ▸ hr) hstage
  waits id r hr hnone := ⟨r, h.pending ▸ hr, hnone⟩

theorem Shrinks.waits (h : Shrinks s s') (id : Int) (r : Request) (hr : s'.pending.get? id = some r)
    (hnone : r.future = none) : ∃ r', s.pending.get? id = some r' ∧ r'.future = none := by
  obtain ⟨r', hr', -, -, hundone⟩ := h.pending id r hr
  exact ⟨r', hr', hundone hnone⟩

structure Advances (s s' : MCPStdioServer) : Prop extends Settles s s' where
  heard : Heard s → Heard s'

theorem Advances.trans (h : Advances s s') (h' : Advances s' s'') : Advances s s'' :=
  { h.toSettles.trans h'.toSettles with heard := fun hheard => h'.heard (h.heard hheard) }

theorem Kept.advances (h : Kept s s') : Advances s s' :=
  { h.toUntouched.settles with heard := fun hheard => hheard.shrinks h.shrinks }

theorem advances_lock (lock : Option Int) : Advances s { s with writeLock := lock } :=
  Kept.advances ⟨⟨rfl, rfl, rfl, rfl, fun _ h => h⟩, rfl⟩

theorem advances_setStage {stage : Stage}
    (hstage : stage = .cancelling ∨ stage = .notifying → CalledOff s → id ∈ s.withdrawn) :
    Advances s (s.setStage id stage) where
  books hbooks _ := hbooks.setStage id stage
  calledOff hcalled := hcalled.setStage fun h => hstage h hcalled
  waits j r hr hnone := by
    obtain ⟨r', hr', rfl⟩ := Dict.get?_update_eq_some.mp hr
    refine ⟨r', hr', ?_⟩
    split at hnone
    · exact hnone
    · exact hnone
  heard hheard := hheard.setStage id stage

theorem advances_complete {how : Completion} (hproper : CalledOff s → ∀ r,
    s.pending.get? id = some r → Proper s.withdrawn ⟨id, r.process, how⟩) :
    Advances s (s.complete id how) where
  books hbooks hcalled := hbooks.complete (hproper hcalled)
  calledOff hcalled := hcalled.shrinks (shrinks_complete id how)
  waits := (shrinks_complete id how).waits
  heard hheard := hheard.shrinks (shrinks_complete id how)

theorem advances_pop (id : Int) : Advances s { s with pending := s.pending.pop id } := by
  have hpending : ∀ j r, (s.pending.pop id).get? j = some r → s.pending.get? j = some r := by
    intro j r hr
    rw [Dict.get?_pop] at hr
    split at hr
    · cases hr
    · exact hr
  refine ⟨⟨fun hbooks _ => hbooks.keep rfl (Nat.le_refl _) (fun _ h => h) ?_, ?_, ?_⟩, ?_⟩
  · exact fun j r hr => ⟨r, hpending j r hr, fun hnone => hnone⟩
  · exact fun hcalled j r hr => hcalled j r (hpending j r hr)
  · exact fun j r hr hnone => ⟨r, hpending j r hr, hnone⟩
  · exact fun hheard j r hr => hheard j r (hpending j r hr)

theorem advances_leave {how : Completion} (hproper : CalledOff s → ∀ r,
    s.pending.get? id = some r → Proper s.withdrawn ⟨id, r.process, how⟩) :
    Advances s (s.leave id how) :=
  (advances_complete hproper).trans (advances_pop id)

theorem advances_write (hstep : s.write id = some s') : Advances s s' := by
  unfold MCPStdioServer.write at hstep
  split at hstep
  · split at hstep
    · split at hstep
      · cases hstep
        exact (advances_setStage fun h => by simp at h).trans (advances_lock _)
      · cases hstep
        exact advances_leave fun _ _ _ => trivial
    · cases hstep
  · cases hstep

theorem advances_drained (hstep : s.drained id = some s') : Advances s s' := by
  unfold MCPStdioServer.drained at hstep
  split at hstep
  · split at hstep
    · cases hstep
      exact (advances_setStage fun h => by simp at h).trans (advances_lock _)
    · cases hstep
  · cases hstep

theorem advances_broken (hstep : s.broken id = some s') : Advances s s' := by
  unfold MCPStdioServer.broken at hstep
  split at hstep
  · split at hstep
    · have hleft : Advances s (s.leave id .lost) := advances_leave fun _ _ _ => trivial
      cases hstep
      exact hleft.trans (advances_lock none)
    · cases hstep
  · cases hstep

theorem advances_resume (hstep : s.resume id = some s') : Advances s s' := by
  unfold MCPStdioServer.resume at hstep
  split at hstep
  · rename_i r hr
    split at hstep
    · rename_i how hdone
      split at hstep
      · -- the future is done, so that nothing is completed
        have hsame : s.complete id how = s := by
          rw [complete, hr]
          exact if_pos (by rw [hdone]; rfl)
        rw [← some.inj hstep, leave, hsame]
        exact advances_pop id
      · cases hstep
    · cases hstep
  · cases hstep

theorem advances_withdraw (id : Int) : Advances s { s with withdrawn := s.withdrawn ++ [id] } where
  books hbooks _ := hbooks.keep rfl (Nat.le_refl _) (fun _ hid => List.mem_append_left _ hid) fun _ r hr =>
    ⟨r, hr, fun hnone => hnone⟩
  calledOff hcalled j r hr hstage := List.mem_append_left _ (hcalled j r hr hstage)
  waits _ r hr hnone := ⟨r, hr, hnone⟩
  heard hheard := hheard

theorem withdrawn_complete (id : Int) (how : Completion) : (s.complete id how).withdrawn = s.withdrawn := by
  unfold MCPStdioServer.complete
  split
  · rfl
  · split
    · rfl
    · rfl

theorem advances_cancel (hstep : s.cancel id = some s') : Advances s s' := by
  unfold MCPStdioServer.cancel at hstep
  split at hstep
  · rename_i r hr
    have hwithdraw : Advances s { s with withdrawn := s.withdrawn ++ [id] } := advances_withdraw id
    have hlast : id ∈ s.withdrawn ++ [id] := List.mem_append_right _ List.mem_cons_self
    -- the caller's cancellation reaches the request before, or while, its notification is sent
    have hnotify (m : MCPStdioServer) (h : Advances s m) (hid : id ∈ m.withdrawn)
        (hstep : (if m.connected r.process then some (m.setStage id .cancelling)
          else some (m.leave id .cancelled)) = some s') : Advances s s' := by
      split at hstep
      · cases hstep
        exact h.trans (advances_setStage fun _ _ => hid)
      · cases hstep
        exact h.trans (advances_leave fun _ _ _ => hid)
    have hleave : Advances s (leave { s with withdrawn := s.withdrawn ++ [id] } id .cancelled) := by
      apply hwithdraw.trans
      apply advances_leave
      exact fun _ _ _ => hlast
    cases hstage : r.stage with
    | queued =>
      simp only [hstage, reduceCtorEq, if_false] at hstep
      exact hnotify _ hwithdraw hlast hstep
    | draining =>
      simp only [hstage, reduceCtorEq, if_false, if_true] at hstep
      exact hnotify _ (hwithdraw.trans (advances_lock none)) hlast hstep
    | waiting =>
      simp only [hstage, reduceCtorEq, if_false, if_true] at hstep
      have hcomplete : Advances { s with withdrawn := s.withdrawn ++ [id] }
          (complete { s with withdrawn := s.withdrawn ++ [id] } id .cancelled) :=
        advances_complete fun _ _ _ => hlast
      refine hnotify _ (hwithdraw.trans hcomplete) ?_ hstep
      rw [withdrawn_complete]
      exact hlast
    | cancelling =>
      simp only [hstage] at hstep
      cases hstep
      exact hleave
    | notifying =>
      simp only [hstage] at hstep
      cases hstep
      exact hleave.trans (advances_lock none)
  · cases hstep

theorem advances_notify (hstep : s.notify id = some s') : Advances s s' := by
  unfold MCPStdioServer.notify at hstep
  split at hstep
  · rename_i r hr
    split at hstep
    · rename_i hstage
      rw [Bool.and_eq_true, decide_eq_true_eq] at hstage
      split at hstep
      · cases hstep
        exact (advances_setStage fun _ hcalled => hcalled id r hr (.inl hstage.1)).trans (advances_lock _)
      · cases hstep
        exact advances_leave fun hcalled _ _ => hcalled id r hr (.inl hstage.1)
    · cases hstep
  · cases hstep

theorem advances_notified (hstep : s.notified id = some s') : Advances s s' := by
  unfold MCPStdioServer.notified at hstep
  split at hstep
  · rename_i r hr
    split at hstep
    · rename_i hstage
      have hleft : Advances s (s.leave id .cancelled) :=
        advances_leave fun hcalled _ _ => hcalled id r hr (.inr hstage)
      cases hstep
      exact hleft.trans (advances_lock none)
    · cases hstep
  · cases hstep

/-! ### The reader and the watcher -/

theorem shrinks_failPending (process : Option Nat) : Shrinks s (s.failPending process) := by
  refine ⟨rfl, fun _ h => h, fun _ h => h, ?_⟩
  intro id r hr
  rw [failPending, Dict.get?_map, map_eq_some_iff] at hr
  obtain ⟨r', hr', rfl⟩ := hr
  refine ⟨r', hr', ?_⟩
  split
  · exact ⟨rfl, rfl, nofun⟩
  · exact ⟨rfl, rfl, fun hnone => hnone⟩

theorem advances_failPending (process : Option Nat) : Advances s (s.failPending process) where
  books hbooks _ := hbooks.failPending process
  calledOff hcalled := hcalled.shrinks (shrinks_failPending process)
  waits := (shrinks_failPending process).waits
  heard hheard := hheard.shrinks (shrinks_failPending process)

theorem ne_of_not_concerns {r : Request} (hnone : r.future = none) (h : concerns (some k) r = false)
    : r.process ≠ k := by
  intro heq
  simp [concerns, hnone, heq] at h

theorem Heard.failPending (h : Heard s) (hpending : s'.pending = s.pending)
    (hprocess : s.process ≠ some k → s'.process = s.process)
    (hreads : ∀ j, j ≠ k → s.reads j = true → s'.reads j = true) : Heard (s'.failPending (some k)) := by
  intro id r hr hnone
  obtain ⟨r', hr', hundone⟩ := get?_failPending hr
  obtain ⟨rfl, hother⟩ := hundone hnone
  have hne : r.process ≠ k := ne_of_not_concerns hnone hother
  obtain ⟨hcurrent, hreading⟩ := h id r (hpending ▸ hr') hnone
  refine ⟨?_, hreads _ hne hreading⟩
  show s'.process = some r.process
  rw [hprocess, hcurrent]
  rw [hcurrent]
  exact fun heq => hne (some.inj heq)

theorem reads_modify_ne {f : Process → Process} {j : Nat} (hne : j ≠ k) :
    (s.modifyProcess k f).reads j = s.reads j := by
  simp [reads, modifyProcess, Ne.symm hne]

theorem advances_stopReading (k : Nat) : Advances s (s.stopReading k) where
  books hbooks _ := hbooks.stopReading k
  calledOff hcalled := by
    have hmodified : CalledOff (s.modifyProcess k fun p => { p with reading := false }) := hcalled
    exact hmodified.shrinks (shrinks_failPending _)
  waits := (shrinks_failPending (s := s.modifyProcess k fun p => { p with reading := false }) _).waits
  heard hheard := hheard.failPending rfl (fun _ => rfl) fun _ hne h => (reads_modify_ne hne).trans h

theorem advances_readLine (k : Nat) (line : Line) : Advances s (s.readLine k line) := by
  have hsame : Advances s s := (Kept.refl s).advances
  unfold readLine
  split
  · exact advances_stopReading k
  · exact hsame
  · split
    · split
      · split
        · exact (kept_scheduleCatalogRefresh k).advances
        · exact hsame
      · exact hsame
    · split
      · exact hsame
      · rename_i r hr
        split
        · exact hsame
        · rename_i hmine
          rw [Bool.or_eq_true, not_or] at hmine
          have hprocess : r.process = k := by simpa using hmine.2
          apply advances_complete
          intro _ r' hr'
          rw [← some.inj (hr.symm.trans hr')]
          exact ⟨hprocess.symm, rfl⟩
    · exact hsame
  · exact hsame

theorem advances_overlong (k : Nat) : Advances s (s.overlong k) := by
  have htold : Kept s (s.modifyProcess k fun p => { p with told := true }) :=
    kept_modifyProcess (fun _ => by rfl) k
  unfold overlong
  dsimp only
  split
  · exact htold.advances.trans (advances_stopReading k)
  · exact advances_stopReading k

theorem advances_watchProcess (hstep : s.watchProcess k = some s') : Advances s s' := by
  unfold watchProcess at hstep
  split at hstep
  · rename_i p hp
    split at hstep
    · dsimp only at hstep
      generalize hmarked : ({ s with process := _, processes := _ } : MCPStdioServer) = m at hstep
      cases hstep
      have hkept : Kept s (s.modifyProcess k fun q => { q with
          expected := false, ready := false
          watcher := if p.expected || s.closing || !p.ready then .ended else .telling }) :=
        kept_modifyProcess (fun _ => by rfl) k
      have hsame : Untouched s m := hmarked ▸ { hkept.toUntouched with }
      have hprocess : s.process ≠ some k → m.process = s.process := fun hne => hmarked ▸ if_neg hne
      exact { hsame.settles.trans (advances_failPending (some k)).toSettles with
        heard := fun hheard => hheard.failPending hsame.pending hprocess fun j _ h => hsame.reads j h }
    · cases hstep
  · cases hstep

/-! ### Giving a process up -/

def waits (s : MCPStdioServer) : Bool := s.pending.values.any (·.future.isNone)

theorem Settles.heard (h : Settles s s') (hidle : Mcp.waits s = false) : Heard s' := by
  intro id r hr hnone
  obtain ⟨r', hr', hnone'⟩ := h.waits id r hr hnone
  have hall := List.any_eq_false.mp hidle r' (Dict.mem_values_of_get? hr')
  rw [hnone'] at hall
  exact absurd rfl hall

theorem kept_setClose (c : Nat) (phase : ClosePhase) : Kept s (s.setClose c phase) :=
  ⟨⟨rfl, rfl, rfl, rfl, fun _ h => h⟩, rfl⟩

theorem advances_closeTasks (c : Nat) : Advances s (s.closeTasks c) := by
  have hended (m : MCPStdioServer) (k : Nat) : Kept m
      ((m.modifyProcess k fun p => { p with watcher := .ended }).setClose c .gathering) :=
    (kept_modifyProcess (fun _ => by rfl) k).trans (kept_setClose c .gathering)
  unfold closeTasks
  split
  · exact (kept_setClose c .gathering).advances
  · dsimp only
    split
    · exact (advances_stopReading _).trans (hended _ _).advances
    · exact (hended _ _).advances

theorem advances_resumeStop {stop : Stop} {next : Option Stop}
    (hstep : s.resumeStop stop = some (s', next)) : Advances s s' := by
  have hdiscarded : Kept s (s.modifyProcess stop.process fun p => { p with expected := false }) :=
    kept_modifyProcess (fun _ => by rfl) _
  have hawaited (h : (if s.alive stop.process then none
      else some (s, some (Stop.mk stop.process (.gathering s.tasks)))) = some (s', next)) : Advances s s' := by
    split at h
    · cases h
    · cases h
      exact (Kept.refl s).advances
  unfold resumeStop at hstep
  split at hstep
  · exact hawaited hstep
  · exact hawaited hstep
  · split at hstep
    · cases hstep
      exact hdiscarded.advances.trans (advances_failPending _)
    · cases hstep

/-- `close` finds a restart task whose launch it interrupts, or else a process. -/
def closeGivesUp (s : MCPStdioServer) : Bool :=
  match s.restartTask with
  | some l => decide (s.restarts[l]? = some .launching) &&
      (match s.spawnLock with
      | some (_, .handshaking _) => true
      | _ => false)
  | none => s.process.isSome

/-- The step takes the current process away: a launch succeeds or fails, or `close` does it. -/
def givesUp (s : MCPStdioServer) : Step → Bool
  | .spawned ok => ok
  | .handshaken ok =>
    match s.spawnLock with
    | some (_, .handshaking k) => !ok || !s.connected k
    | _ => false
  | .close => s.catalogTask.isNone && closeGivesUp s
  | .closed c =>
    match s.closes[c]?.map Close.phase with
    | some (.catalog _) => closeGivesUp s
    | some (.restart _) => s.process.isSome
    | _ => false
  | _ => false

theorem settles_closeProcess (c : Nat) : Settles s (s.closeProcess c) := by
  have hfree : Kept s { s with restartTask := none } := ⟨⟨rfl, rfl, rfl, rfl, fun _ h => h⟩, rfl⟩
  unfold closeProcess
  dsimp only
  split
  · rename_i k _
    have hstopped : Untouched { s with restartTask := none } (stopProcess { s with restartTask := none } k).1 :=
      untouched_stopProcess k
    exact (hfree.toUntouched.trans (hstopped.trans (kept_setClose c _).toUntouched)).settles
  · exact hfree.advances.trans ((advances_failPending none).trans (advances_closeTasks c)) |>.toSettles

theorem advances_closeProcess (c : Nat) (hnone : s.process = none) : Advances s (s.closeProcess c) := by
  have hfree : Kept s { s with restartTask := none } := ⟨⟨rfl, rfl, rfl, rfl, fun _ h => h⟩, rfl⟩
  unfold closeProcess
  dsimp only
  split
  · rename_i hsome
    cases hsome.symm.trans hnone
  · exact hfree.advances.trans ((advances_failPending none).trans (advances_closeTasks c))

theorem kept_endedRestart (l : Nat) (lock : Option (Launcher × Launch)) :
    Kept s { s.endRestart l with spawnLock := lock } :=
  (kept_endRestart l).trans ⟨⟨rfl, rfl, rfl, rfl, fun _ h => h⟩, rfl⟩

theorem kept_cancelRestart (l : Nat) (hlaunching : s.restarts[l]? = some .launching →
    ∀ t k, s.spawnLock ≠ some (t, .handshaking k)) : Kept s (s.cancelRestart l) := by
  unfold cancelRestart
  split
  · exact ⟨⟨rfl, rfl, rfl, rfl, fun _ h => h⟩, rfl⟩
  · rename_i hphase
    split
    · rename_i hlock
      exact absurd hlock (hlaunching hphase _ _)
    · exact kept_endedRestart l none
  · exact .refl s
  · exact .refl s
  · exact kept_endRestart l

theorem settles_closeRestart (c : Nat) : Settles s (s.closeRestart c) := by
  have hcleared : Kept s { s with catalogTask := none, catalogProcess := none } :=
    ⟨⟨rfl, rfl, rfl, rfl, fun _ h => h⟩, rfl⟩
  unfold closeRestart
  dsimp only
  split
  · exact (hcleared.toUntouched.trans
      ((untouched_cancelRestart _).trans (kept_setClose c _).toUntouched)).settles
  · exact hcleared.advances.toSettles.trans (settles_closeProcess c)

theorem advances_closeRestart (c : Nat) (hkeeps : closeGivesUp s = false) : Advances s (s.closeRestart c) := by
  have hcleared : Kept s { s with catalogTask := none, catalogProcess := none } :=
    ⟨⟨rfl, rfl, rfl, rfl, fun _ h => h⟩, rfl⟩
  unfold closeGivesUp at hkeeps
  unfold closeRestart
  dsimp only
  split
  · rename_i l hrestart
    simp only [hrestart, Bool.and_eq_false_iff, decide_eq_false_iff_not] at hkeeps
    have hcancelled : Kept { s with catalogTask := none, catalogProcess := none }
        (cancelRestart { s with catalogTask := none, catalogProcess := none } l) := by
      apply kept_cancelRestart
      intro hlaunching t k hlock
      obtain hphase | hlocked := hkeeps
      · exact hphase hlaunching
      · simp only [show s.spawnLock = some (t, .handshaking k) from hlock] at hlocked
        cases hlocked
    exact (hcleared.trans (hcancelled.trans (kept_setClose c _))).advances
  · rename_i hrestart
    simp only [hrestart] at hkeeps
    exact hcleared.advances.trans (advances_closeProcess c (by simpa using hkeeps))

/-! ### Steps -/

theorem CalledOff.request (h : CalledOff s) (target : Option Nat) : CalledOff (s.request target) := by
  unfold MCPStdioServer.request
  split
  · exact h
  · split
    · exact h
    · dsimp only
      split
      · intro id r hr hstage
        rw [Dict.get?_set] at hr
        split at hr
        · rw [← some.inj hr] at hstage
          simp at hstage
        · exact h id r hr hstage
      · exact h

/-- The process is the current one and runs, so that `_request` sends to it. -/
def sends (s : MCPStdioServer) (target : Option Nat) : Option Nat :=
  (target <|> s.process).filter s.connected

theorem Heard.request (h : Heard s) {target : Option Nat}
    (hreads : ∀ k, sends s target = some k → s.reads k = true) : Heard (s.request target) := by
  unfold MCPStdioServer.request
  split
  · exact h
  · rename_i k htarget
    split
    · exact h
    · rename_i hcurrent
      have hprocess : s.process = some k := by simpa using hcurrent
      dsimp only
      split
      · rename_i halive
        have hsends : sends s target = some k := by
          rw [sends, htarget, filter_eq_some_iff]
          exact ⟨rfl, by rw [connected, hprocess, decide_eq_true rfl]; exact halive⟩
        intro id r hr hnone
        rw [Dict.get?_set] at hr
        split at hr
        · cases hr
          exact ⟨hprocess, hreads k hsends⟩
        · exact h id r hr hnone
      · exact h

theorem kept_enter {t : Launcher} (hstep : s.enter t = some s') : Kept s s' := by
  unfold enter at hstep
  split at hstep
  · cases hstep
  · cases t with
    | start i =>
      simp only at hstep
      split at hstep
      · split at hstep
        · cases hstep
          exact ⟨⟨rfl, rfl, rfl, rfl, fun _ h => h⟩, rfl⟩
        · cases hstep
          exact ⟨⟨rfl, rfl, rfl, rfl, fun _ h => h⟩, rfl⟩
      · cases hstep
    | restart l =>
      simp only at hstep
      split at hstep
      · split at hstep
        · cases hstep
          exact kept_endRestart l
        · cases hstep
          exact ⟨⟨rfl, rfl, rfl, rfl, fun _ h => h⟩, rfl⟩
      · cases hstep

theorem kept_wake (hstep : s.wake settings l = some s') : Kept s s' := by
  unfold wake at hstep
  split at hstep
  · cases hstep
    exact kept_restartLoop l
  · split at hstep
    · cases hstep
      exact kept_endRestart l
    · cases hstep
      exact ⟨⟨rfl, rfl, rfl, rfl, fun _ h => h⟩, rfl⟩
  · cases hstep

theorem kept_observed (hstep : s.observed settings l = some s') : Kept s s' := by
  unfold observed at hstep
  split at hstep
  · cases hstep
    exact kept_restartLoop l
  · cases hstep
    exact ⟨⟨rfl, rfl, rfl, rfl, fun _ h => h⟩, rfl⟩
  · cases hstep

theorem kept_yielded (hstep : s.yielded settings l = some s') : Kept s s' := by
  unfold yielded at hstep
  split at hstep
  · split at hstep
    · cases hstep
      exact kept_restartLoop l
    · cases hstep
      exact kept_endRestart l
  · cases hstep

theorem kept_told (hstep : s.told settings k = some s') : Kept s s' := by
  unfold told at hstep
  split at hstep
  · cases hstep
    exact kept_scheduleRestart.trans (kept_modifyProcess (fun _ => by rfl) k)
  · cases hstep

theorem settles_spawned {ok : Bool} (hstep : s.spawned ok = some s') :
    Settles s s' ∧ (ok = false → Advances s s') := by
  unfold spawned at hstep
  split at hstep
  · rename_i t _
    split at hstep
    · rename_i hok
      have hsame : Untouched s s' := by
        cases hstep
        refine ⟨rfl, rfl, rfl, rfl, ?_⟩
        intro k hk
        obtain ⟨p, hp, hreading⟩ := reads_eq_true.mp hk
        exact reads_eq_true.mpr ⟨p, getElem?_append_singleton.mpr (.inl hp), hreading⟩
      exact ⟨hsame.settles, fun hfalse => by rw [hok] at hfalse; cases hfalse⟩
    · have hkept : Kept s s' := by
        cases hstep
        exact kept_launchFailed t false
      exact ⟨hkept.advances.toSettles, fun _ => hkept.advances⟩
  · cases hstep

theorem settles_handshaken {ok : Bool} (hstep : s.handshaken ok = some s') :
    Settles s s' ∧ (givesUp s (.handshaken ok) = false → Advances s s') := by
  unfold handshaken at hstep
  split at hstep
  · rename_i t k hlock
    split at hstep
    · rename_i hfails
      have hsame : Untouched s s' := by
        cases hstep
        exact untouched_abandon t k false
      refine ⟨hsame.settles, fun hfalse => ?_⟩
      simp only [givesUp, hlock] at hfalse
      simp [hfails] at hfalse
    · have hready : Kept s { s.modifyProcess k fun p => { p with ready := true } with served := true } :=
        (kept_modifyProcess (fun _ => by rfl) k).trans ⟨⟨rfl, rfl, rfl, rfl, fun _ h => h⟩, rfl⟩
      have hkept : Kept s s' := by
        cases hstep
        dsimp only
        split
        · exact hready.trans ((kept_scheduleCatalogRefresh k).trans (kept_launchReturned t))
        · exact hready.trans (kept_launchReturned t)
      exact ⟨hkept.advances.toSettles, fun _ => hkept.advances⟩
  · cases hstep

theorem advances_launchStopped (hstep : s.launchStopped = some s') : Advances s s' := by
  unfold launchStopped at hstep
  split at hstep
  · split at hstep
    · rename_i m stop hresume
      cases hstep
      exact (advances_resumeStop hresume).trans (Kept.advances ⟨⟨rfl, rfl, rfl, rfl, fun _ h => h⟩, rfl⟩)
    · rename_i m hresume
      cases hstep
      exact (advances_resumeStop hresume).trans (kept_launchFailed _ _).advances
    · cases hstep
  · cases hstep

theorem kept_launchExpired (hstep : s.launchExpired = some s') : Kept s s' := by
  unfold launchExpired at hstep
  split at hstep
  · obtain ⟨stop, -, rfl⟩ := Option.map_eq_some_iff.mp hstep
    exact ⟨⟨rfl, rfl, rfl, rfl, fun _ h => h⟩, rfl⟩
  · cases hstep

theorem settles_close : Settles s s.close ∧ (givesUp s .close = false → Advances s s.close) := by
  unfold MCPStdioServer.close
  dsimp only
  generalize hcalled : ({ s with closing := true, served := false, closes := _ } : MCPStdioServer) = m
  have hkept : Kept s m := hcalled ▸ ⟨⟨rfl, rfl, rfl, rfl, fun _ h => h⟩, rfl⟩
  have hgives : closeGivesUp s = closeGivesUp m := hcalled ▸ rfl
  have hwaits (t : Nat) : Kept m
      ((if m.catalogActive t then m.setCatalog t .cancelled else m).setClose s.closes.length (.catalog t)) := by
    split
    · exact ⟨⟨rfl, rfl, rfl, rfl, fun _ h => h⟩, rfl⟩
    · exact ⟨⟨rfl, rfl, rfl, rfl, fun _ h => h⟩, rfl⟩
  split
  · rename_i task _
    have h := (hkept.trans (hwaits task)).advances
    exact ⟨h.toSettles, fun _ => h⟩
  · rename_i hnone
    refine ⟨hkept.advances.toSettles.trans (settles_closeRestart _), fun hkeeps => ?_⟩
    rw [givesUp, hnone, hgives] at hkeeps
    exact hkept.advances.trans (advances_closeRestart _ hkeeps)

theorem settles_closed (hstep : s.closed c = some s') :
    Settles s s' ∧ (givesUp s (.closed c) = false → Advances s s') := by
  unfold closed at hstep
  split at hstep
  · cases hstep
  · rename_i call hcall
    split at hstep
    · rename_i hphase
      split at hstep
      · cases hstep
      · cases hstep
        refine ⟨settles_closeRestart c, fun hkeeps => advances_closeRestart c ?_⟩
        simpa [givesUp, hcall, hphase] using hkeeps
    · rename_i hphase
      split at hstep
      · cases hstep
      · cases hstep
        refine ⟨settles_closeProcess c, fun hkeeps => advances_closeProcess c ?_⟩
        simpa [givesUp, hcall, hphase] using hkeeps
    · have hadvances : Advances s s' := by
        split at hstep
        · rename_i hresume
          cases hstep
          exact (advances_resumeStop hresume).trans (kept_setClose c _).advances
        · rename_i hresume
          cases hstep
          exact (advances_resumeStop hresume).trans (advances_closeTasks c)
        · cases hstep
      exact ⟨hadvances.toSettles, fun _ => hadvances⟩
    · have hkept : Kept s s' := by
        cases hstep
        exact ⟨⟨rfl, rfl, rfl, rfl, fun _ h => h⟩, rfl⟩
      exact ⟨hkept.advances.toSettles, fun _ => hkept.advances⟩
    · cases hstep

theorem kept_closeExpired (hstep : s.closeExpired c = some s') : Kept s s' := by
  unfold closeExpired at hstep
  split at hstep
  · cases hstep
  · split at hstep
    · obtain ⟨stop, -, rfl⟩ := Option.map_eq_some_iff.mp hstep
      exact kept_setClose c _
    · cases hstep

theorem settles_step {e : Step} (hrequest : ∀ target, e ≠ .request target)
    (hstep : step settings s e = some s') : Settles s s' ∧ (givesUp s e = false → Advances s s') := by
  have hadvances (h : Advances s s') : Settles s s' ∧ (givesUp s e = false → Advances s s') :=
    ⟨h.toSettles, fun _ => h⟩
  cases e with
  | request target => exact absurd rfl (hrequest target)
  | write id => exact hadvances (advances_write hstep)
  | drained id => exact hadvances (advances_drained hstep)
  | broken id => exact hadvances (advances_broken hstep)
  | resume id => exact hadvances (advances_resume hstep)
  | cancel id => exact hadvances (advances_cancel hstep)
  | notify id => exact hadvances (advances_notify hstep)
  | notified id => exact hadvances (advances_notified hstep)
  | line k line =>
    obtain ⟨-, rfl⟩ := Option.ite_some_none_eq_some.mp hstep
    exact hadvances (advances_readLine k line)
  | overlong k =>
    obtain ⟨-, rfl⟩ := Option.ite_some_none_eq_some.mp hstep
    exact hadvances (advances_overlong k)
  | endOfFile k =>
    obtain ⟨-, rfl⟩ := Option.ite_some_none_eq_some.mp hstep
    exact hadvances (advances_stopReading k)
  | exit k =>
    obtain ⟨-, rfl⟩ := Option.ite_some_none_eq_some.mp hstep
    exact hadvances (kept_modifyProcess (fun _ => by rfl) k).advances
  | watch k => exact hadvances (advances_watchProcess hstep)
  | told k => exact hadvances (kept_told hstep).advances
  | start =>
    cases hstep
    exact hadvances (Kept.advances ⟨⟨rfl, rfl, rfl, rfl, fun _ h => h⟩, rfl⟩)
  | superviseInitialFailure =>
    have hkept : Kept s (s.superviseInitialFailure settings) := by
      unfold superviseInitialFailure
      split
      · exact .refl s
      · exact kept_scheduleRestart
    cases hstep
    exact hadvances hkept.advances
  | enter t => exact hadvances (kept_enter hstep).advances
  | spawned ok => exact settles_spawned hstep
  | handshaken ok => exact settles_handshaken hstep
  | launchStopped => exact hadvances (advances_launchStopped hstep)
  | launchExpired => exact hadvances (kept_launchExpired hstep).advances
  | wake l => exact hadvances (kept_wake hstep).advances
  | observed l => exact hadvances (kept_observed hstep).advances
  | yielded l => exact hadvances (kept_yielded hstep).advances
  | close =>
    cases hstep
    exact settles_close
  | closed c => exact settles_closed hstep
  | closeExpired c => exact hadvances (kept_closeExpired hstep).advances
  | catalog c ok => exact hadvances (kept_catalog hstep).advances

/-! ### Runs -/

/-- Each request is completed at most once, and properly; whoever waits waits for the current process,
whose reader reads. -/
structure Correlated (s : MCPStdioServer) : Prop where
  once : (s.completed.map Completed.id).Nodup
  proper : ∀ c ∈ s.completed, Proper s.withdrawn c
  heard : Heard s

/-- Nobody waits when the client gives a process up by itself, and requests go to processes whose
standard output is still read. -/
def staysHeard (s : MCPStdioServer) (e : Step) : Bool :=
  (!givesUp s e || !waits s) &&
    match e with
    | .request target => (sends s target).all s.reads
    | _ => true

theorem books_step {e : Step} (hbooks : Books s) (hcalled : CalledOff s)
    (hstep : step settings s e = some s') : Books s' ∧ CalledOff s' := by
  by_cases hrequest : ∃ target, e = .request target
  · obtain ⟨target, rfl⟩ := hrequest
    cases hstep
    exact ⟨hbooks.request target, hcalled.request target⟩
  · have hsettles := (settles_step (fun target heq => hrequest ⟨target, heq⟩) hstep).1
    exact ⟨hsettles.books hbooks hcalled, hsettles.calledOff hcalled⟩

theorem heard_step {e : Step} (hheard : Heard s) (hstays : staysHeard s e = true)
    (hstep : step settings s e = some s') : Heard s' := by
  unfold staysHeard at hstays
  rw [Bool.and_eq_true, Bool.or_eq_true] at hstays
  obtain ⟨hgives, hreads⟩ := hstays
  by_cases hrequest : ∃ target, e = .request target
  · obtain ⟨target, rfl⟩ := hrequest
    cases hstep
    apply hheard.request
    intro k hk
    dsimp only at hreads
    rwa [hk] at hreads
  · obtain ⟨hsettles, hadvances⟩ := settles_step (fun target heq => hrequest ⟨target, heq⟩) hstep
    obtain hkeeps | hidle := hgives
    · exact (hadvances (by simpa using hkeeps)).heard hheard
    · exact hsettles.heard (by simpa using hidle)

theorem books_run {as : List Step} (hrun : run (step settings) {} as = some s) : Books s :=
  (run_invariant (I := fun s => Books s ∧ CalledOff s)
    (fun _ _ _ h hstep => books_step h.1 h.2 hstep)
    ⟨books_empty, fun _ _ h => nomatch h⟩ hrun).1

/-- In every run in which requests are made while the reader reads, and processes are given up while
nobody waits, each request is completed at most once, by a response of its own or a disconnection, and
whoever waits is read for. -/
theorem requests_correlated {as : List Step}
    (halong : Along (step settings) (fun s e => staysHeard s e = true) {} as)
    (hrun : run (step settings) {} as = some s) : Correlated s where
  once := (books_run hrun).once
  proper c hc := ((books_run hrun).completed c hc).2
  heard := run_invariant_along (fun _ _ _ h hstays hstep => heard_step h hstays hstep)
    (fun _ _ hr => by cases hr) halong hrun

def answered (id : Int) (k : Nat) : List Step :=
  [.request none, .write id, .drained id,
    .line k (.value (.obj [("jsonrpc", .str "2.0"), ("id", .int id), ("result", .obj [])])), .resume id]

/-- A start whose first process answers `initialize` and `tools/list`. -/
def startup : List Step :=
  [.start, .enter (.start 0), .spawned true] ++ answered 1 0 ++ answered 2 0 ++ [.handshaken true]

/-- A call is cancelled, its late response and a malformed line are ignored, and the server dies under
another call before it is started anew. -/
theorem requests_correlated_restarted : ∃ s, Correlated s ∧
    (s.completed.map Completed.id, s.process) = ([1, 2, 3, 4, 5], some 1) := by
  let events : List Step := startup ++
    [.request none, .write 3, .drained 3, .cancel 3, .notify 3, .notified 3,
      .line 0 (.value (.obj [("id", .int 3), ("result", .obj [])])), .line 0 .malformed,
      .request none, .write 4, .drained 4, .endOfFile 0, .exit 0, .watch 0, .resume 4, .told 0,
      .wake 0, .wake 0, .enter (.restart 0), .spawned true] ++ answered 5 1
  have htrace : (run (step ⟨5⟩) {} events).map (fun s => (s.completed.map Completed.id, s.process)) =
      some ([1, 2, 3, 4, 5], some 1) := by decide +kernel
  obtain ⟨s, hrun, hends⟩ := Option.map_eq_some_iff.mp htrace
  exact ⟨s, requests_correlated (by decide +kernel) hrun, hends⟩

/-- After a line that is not UTF-8 the server runs on without a reader, and a call waits for it. -/
theorem undecodable_line_strands : ∃ settings events s, run (step settings) {} events = some s ∧
    s.running = true ∧ ¬ Correlated s := by
  let events : List Step := startup ++ [.line 0 .raised, .request none, .write 3, .drained 3]
  have htrace : (run (step ⟨5⟩) {} events).map (fun s =>
      (s.running, s.reads 0, (s.pending.get? 3).map fun r => (r.process, r.future.isNone))) =
      some (true, false, some (0, true)) := by decide +kernel
  obtain ⟨s, hrun, hends⟩ := Option.map_eq_some_iff.mp htrace
  simp only [Prod.mk.injEq, Option.map_eq_some_iff, Option.isNone_iff_eq_none] at hends
  obtain ⟨hrunning, hsilent, r, hr, hprocess, hnone⟩ := hends
  refine ⟨_, events, s, hrun, hrunning, fun hcorrelated => ?_⟩
  have hreads := (hcorrelated.heard 3 r hr hnone).2
  simp [hprocess, hsilent] at hreads

end OpenAgent.Mcp
