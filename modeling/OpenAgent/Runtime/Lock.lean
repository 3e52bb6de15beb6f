import OpenAgent.Runtime.Frame

/-!
# The lifecycle lock

Submissions, starts, closes and the swap of a reconfiguration exclude each other: a call that is past
the lock holds it, so no two of them are. Each step keeps the lock where it is, takes it while it is
free, or gives it back with the part that needed it.
-/

namespace OpenAgent

open Lib Option List

variable {D P : Type}

def Submit.locks (call : Submit D) : Bool :=
  match call.phase with
  | .authorizing _ | .accepting _ | .profiling _ _ _ => true
  | .waiting | .ended _ _ => false

def ClosePhase.locks : ClosePhase → Bool
  | .gathering _ | .leftovers _ | .closing _ _ | .modules => true
  | .waiting | .ended => false

def StartPhase.locks : StartPhase → Bool
  | .preparing _ | .starting _ | .failing _ => true
  | .waiting | .ended => false

def Reconfigure.locks (call : Reconfigure) : Bool :=
  match call.phase with
  | .losing _ _ => true
  | _ => false

theorem Submit.Idle.locks {o n : Option (Submit D)} (h : Submit.Idle o n) :
    n.any Submit.locks = o.any Submit.locks := by
  cases h with
  | absent => rfl
  | same call interrupted => rfl
  | withdrawn call hphase => simp [Submit.locks, hphase]
  | fresh call hphase => simp [Submit.locks, hphase]

namespace Runtime

def locks (s : Runtime D P) : Holder → Bool
  | .submit i => s.submits[i]?.any Submit.locks
  | .close j => s.closes[j]?.any ClosePhase.locks
  | .start i => s.starts[i]?.any StartPhase.locks
  | .reconfigure k => s.reconfigures[k]?.any Reconfigure.locks

def Locked (s : Runtime D P) : Prop := ∀ h, s.locks h = true → s.lifecycle = some h

/-- The lock stays, is taken by the holder `h`, or is given back by it. -/
inductive Turn (before after : Option Holder) (h : Holder) (was is : Bool) : Prop
  | keep (hsame : after = before) (hstill : is = true → was = true)
  | take (hfree : before = none) (htaken : after = some h)
  | release (hheld : was = true) (hgiven : after = none) (hout : is = false)

def LockMove (s s' : Runtime D P) : Prop :=
  ∃ h, (∀ h', h' ≠ h → s'.locks h' = true → s.locks h' = true) ∧
    Turn s.lifecycle s'.lifecycle h (s.locks h) (s'.locks h)

variable {s s' : Runtime D P}

theorem LockMove.locked (hmove : LockMove s s') (hs : s.Locked) : s'.Locked := by
  obtain ⟨h, hothers, hturn⟩ := hmove
  intro h' hlocks
  by_cases heq : h' = h
  · subst heq
    cases hturn with
    | keep hsame hstill => rw [hsame, hs h' (hstill hlocks)]
    | take hfree htaken => exact htaken
    | release hheld hgiven hout =>
      simp [hout] at hlocks
  · have hlocked := hs h' (hothers h' heq hlocks)
    cases hturn with
    | keep hsame hstill => rw [hsame, hlocked]
    | take hfree htaken =>
      simp [hfree] at hlocked
    | release hheld hgiven hout =>
      rw [hs h hheld] at hlocked
      exact absurd (some.inj hlocked).symm heq

/-! ### Steps that leave the lock to others -/

theorem LockMove.of_idle (hlifecycle : s'.lifecycle = s.lifecycle)
    (hsubmits : ∀ i : Nat, Submit.Idle s.submits[i]? s'.submits[i]?) (hcloses : s'.closes = s.closes)
    (hstarts : s'.starts = s.starts) (hreconfigures : s'.reconfigures = s.reconfigures) :
    LockMove s s' := by
  have hlocks : ∀ h, s'.locks h = s.locks h := by
    intro h
    cases h with
    | submit i => exact (hsubmits i).locks
    | close j => rw [Runtime.locks, Runtime.locks, hcloses]
    | start i => rw [Runtime.locks, Runtime.locks, hstarts]
    | reconfigure k => rw [Runtime.locks, Runtime.locks, hreconfigures]
  refine ⟨.submit 0, ?_, .keep hlifecycle ?_⟩
  · intro h' _ h
    rwa [hlocks] at h
  · intro h
    rwa [hlocks] at h

theorem any_append_singleton {α : Type} {xs : List α} {x : α} {p : α → Bool} (hx : p x = false) (i : Nat)
    (h : (xs ++ [x])[i]?.any p = true) : xs[i]?.any p = true := by
  cases hy : (xs ++ [x])[i]? with
  | none =>
    simp [hy] at h
  | some y =>
    rw [hy, any_some] at h
    rcases getElem?_append_singleton.mp hy with hold | ⟨-, rfl⟩
    · rw [hold, any_some, h]
    · simp [hx] at h

theorem callStep_lockMove (s : Runtime D P) (a : CallAction) : LockMove s (s.callStep a) := by
  refine ⟨.submit 0, ?_, ?_⟩
  · intro h _ hlocks
    cases a <;> cases h <;> first
      | exact any_append_singleton rfl _ hlocks
      | exact hlocks
  · cases a <;> refine .keep rfl fun hlocks => ?_
    all_goals first
      | exact any_append_singleton rfl _ hlocks
      | exact hlocks

/-! ### Steps of the calls that need it -/

theorem lockMove_of_submit {i : Nat} {call call' : Submit D} (hcall : s.submits[i]? = some call)
    (hsubmits : s'.submits = s.submits.set i call') (hcloses : s'.closes = s.closes)
    (hstarts : s'.starts = s.starts) (hreconfigures : s'.reconfigures = s.reconfigures)
    (hturn : Turn s.lifecycle s'.lifecycle (.submit i) call.locks call'.locks) : LockMove s s' := by
  have hwas : s.locks (.submit i) = call.locks := by rw [Runtime.locks, hcall, any_some]
  have his : s'.locks (.submit i) = call'.locks := by
    rw [Runtime.locks, hsubmits, (getElem?_set_eq_some hcall).mpr (.inl ⟨rfl, rfl⟩), any_some]
  refine ⟨.submit i, ?_, by rwa [hwas, his]⟩
  intro h' hne h
  cases h' with
  | submit j =>
    have hij : i ≠ j := fun heq => hne (by rw [heq])
    rwa [Runtime.locks, hsubmits, getElem?_set_ne hij] at h
  | close j => rwa [Runtime.locks, hcloses] at h
  | start j => rwa [Runtime.locks, hstarts] at h
  | reconfigure k => rwa [Runtime.locks, hreconfigures] at h

theorem lockMove_of_close {j : Nat} {phase phase' : ClosePhase} (hphase : s.closes[j]? = some phase)
    (hcloses : s'.closes = s.closes.set j phase') (hsubmits : s'.submits = s.submits)
    (hstarts : s'.starts = s.starts) (hreconfigures : s'.reconfigures = s.reconfigures)
    (hturn : Turn s.lifecycle s'.lifecycle (.close j) phase.locks phase'.locks) : LockMove s s' := by
  have hwas : s.locks (.close j) = phase.locks := by rw [Runtime.locks, hphase, any_some]
  have his : s'.locks (.close j) = phase'.locks := by
    rw [Runtime.locks, hcloses, (getElem?_set_eq_some hphase).mpr (.inl ⟨rfl, rfl⟩), any_some]
  refine ⟨.close j, ?_, by rwa [hwas, his]⟩
  intro h' hne h
  cases h' with
  | submit i => rwa [Runtime.locks, hsubmits] at h
  | close x =>
    have hjx : j ≠ x := fun heq => hne (by rw [heq])
    rwa [Runtime.locks, hcloses, getElem?_set_ne hjx] at h
  | start i => rwa [Runtime.locks, hstarts] at h
  | reconfigure k => rwa [Runtime.locks, hreconfigures] at h

theorem lockMove_of_start {i : Nat} {phase phase' : StartPhase} (hphase : s.starts[i]? = some phase)
    (hstarts : s'.starts = s.starts.set i phase') (hsubmits : s'.submits = s.submits)
    (hcloses : s'.closes = s.closes) (hreconfigures : s'.reconfigures = s.reconfigures)
    (hturn : Turn s.lifecycle s'.lifecycle (.start i) phase.locks phase'.locks) : LockMove s s' := by
  have hwas : s.locks (.start i) = phase.locks := by rw [Runtime.locks, hphase, any_some]
  have his : s'.locks (.start i) = phase'.locks := by
    rw [Runtime.locks, hstarts, (getElem?_set_eq_some hphase).mpr (.inl ⟨rfl, rfl⟩), any_some]
  refine ⟨.start i, ?_, by rwa [hwas, his]⟩
  intro h' hne h
  cases h' with
  | submit j => rwa [Runtime.locks, hsubmits] at h
  | close j => rwa [Runtime.locks, hcloses] at h
  | start x =>
    have hix : i ≠ x := fun heq => hne (by rw [heq])
    rwa [Runtime.locks, hstarts, getElem?_set_ne hix] at h
  | reconfigure k => rwa [Runtime.locks, hreconfigures] at h

theorem lockMove_of_reconfigure {k : Nat} {call call' : Reconfigure}
    (hcall : s.reconfigures[k]? = some call) (hreconfigures : s'.reconfigures = s.reconfigures.set k call')
    (hsubmits : s'.submits = s.submits) (hcloses : s'.closes = s.closes) (hstarts : s'.starts = s.starts)
    (hturn : Turn s.lifecycle s'.lifecycle (.reconfigure k) call.locks call'.locks) : LockMove s s' := by
  have hwas : s.locks (.reconfigure k) = call.locks := by rw [Runtime.locks, hcall, any_some]
  have his : s'.locks (.reconfigure k) = call'.locks := by
    rw [Runtime.locks, hreconfigures, (getElem?_set_eq_some hcall).mpr (.inl ⟨rfl, rfl⟩), any_some]
  refine ⟨.reconfigure k, ?_, by rwa [hwas, his]⟩
  intro h' hne h
  cases h' with
  | submit j => rwa [Runtime.locks, hsubmits] at h
  | close j => rwa [Runtime.locks, hcloses] at h
  | start i => rwa [Runtime.locks, hstarts] at h
  | reconfigure x =>
    have hkx : k ≠ x := fun heq => hne (by rw [heq])
    rwa [Runtime.locks, hreconfigures, getElem?_set_ne hkx] at h

variable {env : Environment D}

theorem submitMove_lockMove [DecidableEq D] {i : Nat} {call : Submit D}
    (hcall : s.submits[i]? = some call) (h : SubmitMove env s i call s') : LockMove s s' := by
  have hheld : (∃ g, call.phase = .authorizing g) ∨ (∃ g, call.phase = .accepting g) ∨
      (∃ record g revision, call.phase = .profiling record g revision) → call.locks = true := by
    rintro (⟨g, hphase⟩ | ⟨g, hphase⟩ | ⟨record, g, revision, hphase⟩) <;> rw [Submit.locks, hphase]
  cases h with
  | refused error hphase hfree =>
    exact lockMove_of_submit hcall rfl rfl rfl rfl (.keep hfree.symm nofun)
  | entered g hphase hfree hactive =>
    exact lockMove_of_submit hcall rfl rfl rfl rfl (.take hfree rfl)
  | authorized g hphase =>
    exact lockMove_of_submit hcall rfl rfl rfl rfl (.keep rfl fun _ => hheld (.inl ⟨g, hphase⟩))
  | denied g error hphase =>
    exact lockMove_of_submit hcall rfl rfl rfl rfl (.release (hheld (.inl ⟨g, hphase⟩)) rfl rfl)
  | unaccepted g error hphase =>
    exact lockMove_of_submit hcall rfl rfl rfl rfl (.release (hheld (.inr (.inl ⟨g, hphase⟩))) rfl rfl)
  | found g attempt record ledger hphase haccept =>
    exact lockMove_of_submit hcall rfl rfl rfl rfl (.release (hheld (.inr (.inl ⟨g, hphase⟩))) rfl rfl)
  | unleased g attempt record ledger error hphase haccept hdraining =>
    exact lockMove_of_submit hcall rfl rfl rfl rfl (.release (hheld (.inr (.inl ⟨g, hphase⟩))) rfl rfl)
  | leased g attempt record ledger graph revision hphase haccept hacquire =>
    exact lockMove_of_submit hcall rfl rfl rfl rfl (.keep rfl fun _ => hheld (.inr (.inl ⟨g, hphase⟩)))
  | started g revision attempt record sequence payload ledger hphase happend =>
    exact lockMove_of_submit hcall rfl rfl rfl rfl
      (.release (hheld (.inr (.inr ⟨record, g, revision, hphase⟩))) rfl rfl)
  | rolledBack g revision record error hphase =>
    exact lockMove_of_submit hcall rfl rfl rfl rfl
      (.release (hheld (.inr (.inr ⟨record, g, revision, hphase⟩))) rfl rfl)
  | withdrawn hphase => exact lockMove_of_submit hcall rfl rfl rfl rfl (.keep rfl nofun)
  | interrupted hpending => exact lockMove_of_submit hcall rfl rfl rfl rfl (.keep rfl fun h => h)

theorem closeGraphs_lockMove {t : Runtime D P} {j : Nat} {phase : ClosePhase}
    (hphase : s.closes[j]? = some phase) (hlocks : phase.locks = true) (hcloses : t.closes = s.closes)
    (hsubmits : t.submits = s.submits) (hstarts : t.starts = s.starts)
    (hreconfigures : t.reconfigures = s.reconfigures) (hlifecycle : t.lifecycle = s.lifecycle)
    (graphs : List Nat) : LockMove s (t.closeGraphs j graphs) := by
  cases graphs with
  | nil =>
    exact lockMove_of_close hphase (congrArg (fun c => List.set c j _) hcloses) hsubmits hstarts
      hreconfigures (.keep hlifecycle fun _ => hlocks)
  | cons g rest =>
    exact lockMove_of_close hphase (congrArg (fun c => List.set c j _) hcloses) hsubmits hstarts
      hreconfigures (.keep hlifecycle fun _ => hlocks)

theorem closeMove_lockMove [DecidableEq D] {j : Nat} {phase : ClosePhase}
    (hphase : s.closes[j]? = some phase) (h : CloseMove env s j phase s') : LockMove s s' := by
  cases h with
  | rejected hwaiting =>
    exact lockMove_of_close hphase rfl rfl rfl rfl (.keep rfl nofun)
  | entered hwaiting hfree hopen => exact lockMove_of_close hphase rfl rfl rfl rfl (.take hfree rfl)
  | gathered tasks hgathering hdone =>
    exact lockMove_of_close hphase rfl rfl rfl rfl (.keep rfl fun _ => by rw [hgathering]; rfl)
  | interrupted runId rest ledger hleftovers hledger =>
    exact lockMove_of_close hphase rfl rfl rfl rfl (.keep rfl fun _ => by rw [hleftovers]; rfl)
  | snapshot hleftovers =>
    exact closeGraphs_lockMove (t := { s with tasks := .empty }) hphase (by rw [hleftovers]; rfl) rfl rfl
      rfl rfl rfl _
  | next c rest hclosing hcloser =>
    exact closeGraphs_lockMove hphase (by rw [hclosing]; rfl) rfl rfl rfl rfl rfl _
  | raised runId rest hleftovers =>
    exact lockMove_of_close hphase rfl rfl rfl rfl (.release (by rw [hleftovers]; rfl) rfl rfl)
  | failed c rest hclosing hcloser =>
    exact lockMove_of_close hphase rfl rfl rfl rfl (.release (by rw [hclosing]; rfl) rfl rfl)
  | finished hmodules =>
    exact lockMove_of_close hphase rfl rfl rfl rfl (.release (by rw [hmodules]; rfl) rfl rfl)
  | ungathered tasks hgathering =>
    exact lockMove_of_close hphase rfl rfl rfl rfl (.release (by rw [hgathering]; rfl) rfl rfl)
  | aborted hinner =>
    have hlocks : phase.locks = true := by
      rcases hinner with ⟨runs, rfl⟩ | rfl <;> rfl
    exact lockMove_of_close hphase rfl rfl rfl rfl (.release hlocks rfl rfl)

theorem startFail_cases (s : Runtime D P) (i : Nat) :
    (∃ g, s.activeGraph = some g ∧
        s.startFail i = (s.beginClose g).setStart i (.failing s.closers.length)) ∨
      s.activeGraph = none ∧ s.startFail i = setStart { s with lifecycle := none } i .ended := by
  unfold startFail
  split
  · rename_i g hactive
    exact .inl ⟨g, hactive, rfl⟩
  · rename_i hactive
    exact .inr ⟨hactive, rfl⟩

theorem startMove_lockMove [DecidableEq D] {i : Nat} {phase : StartPhase}
    (hphase : s.starts[i]? = some phase) (h : StartMove env s i phase s') : LockMove s s' := by
  have hfail : phase.locks = true → LockMove s (s.startFail i) := by
    intro hlocks
    rcases startFail_cases s i with ⟨g, -, heq⟩ | ⟨-, heq⟩
    · rw [heq]
      exact lockMove_of_start hphase rfl rfl rfl rfl (.keep rfl fun _ => hlocks)
    · rw [heq]
      exact lockMove_of_start hphase rfl rfl rfl rfl (.release hlocks rfl rfl)
  cases h with
  | rejected hwaiting =>
    exact lockMove_of_start hphase rfl rfl rfl rfl (.keep rfl nofun)
  | unrecovered ledger hwaiting hfree hidle hopen hledger =>
    rcases startFail_cases { s with ledger := ledger, lifecycle := some (.start i) } i with
      ⟨g, -, heq⟩ | ⟨-, heq⟩
    · rw [heq]
      exact lockMove_of_start hphase rfl rfl rfl rfl (.take hfree rfl)
    · rw [heq]
      exact lockMove_of_start hphase rfl rfl rfl rfl (.keep hfree.symm nofun)
  | began ledger hwaiting hfree hidle hopen hledger =>
    exact lockMove_of_start hphase rfl rfl rfl rfl (.take hfree rfl)
  | prepared g graph hpreparing hgraph hready =>
    exact lockMove_of_start hphase rfl rfl rfl rfl (.keep rfl fun _ => by rw [hpreparing]; rfl)
  | unprepared g graph hpreparing hgraph hfailed => exact hfail (by rw [hpreparing]; rfl)
  | raised g hstarting => exact hfail (by rw [hstarting]; rfl)
  | done g hstarting =>
    exact lockMove_of_start hphase rfl rfl rfl rfl (.release (by rw [hstarting]; rfl) rfl rfl)
  | closed c hfailing hcloser =>
    exact lockMove_of_start hphase rfl rfl rfl rfl (.release (by rw [hfailing]; rfl) rfl rfl)
  | aborted c hfailing hcloser =>
    exact lockMove_of_start hphase rfl rfl rfl rfl (.release (by rw [hfailing]; rfl) rfl rfl)

theorem reconfigureMove_lockMove {k : Nat} {call : Reconfigure} (hcall : s.reconfigures[k]? = some call)
    (h : ReconfigureMove s k call s') : LockMove s s' := by
  cases h with
  | losing g graph hphase hgraph hready hfree hexpected =>
    exact lockMove_of_reconfigure hcall rfl rfl rfl rfl (.take hfree rfl)
  | lost g c hphase hcloser =>
    exact lockMove_of_reconfigure hcall rfl rfl rfl rfl
      (.release (by rw [Reconfigure.locks, hphase]) rfl rfl)
  | rejected | checked | began | unprepared | swapped | undrained | forced | drained | gathered
  | emptied | closed | abandoned | aborted | ungathered =>
    exact lockMove_of_reconfigure hcall rfl rfl rfl rfl (.keep rfl nofun)

theorem step_lockMove [DecidableEq D] {a : Action D P} (h : s.step env a = some s')
    : LockMove s s' := by
  cases a with
  | call a =>
    cases h
    exact callStep_lockMove s a
  | submit i a =>
    obtain ⟨call, hcall, hmove⟩ := submitStep_moves h
    exact submitMove_lockMove hcall hmove
  | execution t a =>
    obtain ⟨e, -, hmove⟩ := executionStep_moves h
    cases hmove <;> exact .of_idle rfl (idle_submits s) rfl rfl rfl
  | cancel k a =>
    obtain ⟨call, -, hmove⟩ := cancelStep_moves h
    cases hmove <;> exact .of_idle rfl (idle_submits s) rfl rfl rfl
  | prepare g a =>
    obtain ⟨graph, -, hmove⟩ := prepareStep_moves h
    cases hmove <;> exact .of_idle rfl (idle_submits s) rfl rfl rfl
  | closer c a =>
    obtain ⟨closer, -, hmove⟩ := closingStep_moves h
    cases hmove <;> exact .of_idle rfl (idle_submits s) rfl rfl rfl
  | start i a =>
    obtain ⟨phase, hphase, hmove⟩ := startStep_moves h
    exact startMove_lockMove hphase hmove
  | reconfigure k a =>
    obtain ⟨call, hcall, hmove⟩ := reconfigureStep_moves h
    exact reconfigureMove_lockMove hcall hmove
  | close j a =>
    obtain ⟨phase, hphase, hmove⟩ := closeStep_moves h
    exact closeMove_lockMove hphase hmove
  | spawn n a =>
    obtain ⟨call, -, hmove⟩ := spawnStep_moves h
    have hframe := spawnMove_frame hmove
    cases hmove with
    | interruptedSubmit i submitted hphase hsubmit =>
      obtain ⟨⟨submits, rfl⟩, -⟩ := idle_submitInterrupt hsubmit
      exact .of_idle rfl hframe.submits rfl rfl rfl
    | _ => exact .of_idle rfl hframe.submits rfl rfl rfl
  | host a =>
    cases h
    cases a <;> exact .of_idle rfl (idle_submits s) rfl rfl rfl

theorem Locked.unique (hs : s.Locked) {h h' : Holder} (hh : s.locks h = true) (hh' : s.locks h' = true)
    : h = h' := some.inj ((hs h hh).symm.trans (hs h' hh'))

end Runtime

end OpenAgent
