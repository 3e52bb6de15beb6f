import OpenAgent.Scheduler.Stops

/-!
# Stop is authoritative

One coroutine drives a run, so its row is written by that coroutine, by the requests that flag it and by the
drains and restarts that write it off. What one move can do to one row is settled by cases on the coroutine
alone; the rest of the system only adds that a flagged run stays flagged or cancelled, and that a success
has its coroutine past every handler.
-/

namespace OpenAgent.Stopping

open Lib List Option Bool

variable {s s' : Stops} {key : RunKey}

/-! ### Rows -/

theorem status_updateRun (runs : Dict RunKey RunRow) (key other : RunKey) (status : RunStatus) :
    ((updateRun runs key status).get? other).map (·.status) =
      if other = key then ((runs.get? other).map (·.status)).map (written status)
      else (runs.get? other).map (·.status) := by
  rw [updateRun, Dict.get?_update]
  split
  · rw [Option.map_map, Option.map_map]
    rfl
  · rfl

theorem status_apply (row : RowEffect) (runs : Dict RunKey RunRow) (key other : RunKey) (owner : String) :
    ((row.apply runs key owner).get? other).map (·.status) =
      if other = key then row.status ((runs.get? other).map (·.status))
      else (runs.get? other).map (·.status) := by
  cases row with
  | keep => simp [RowEffect.apply, RowEffect.status]
  | insert =>
    rw [RowEffect.apply, Dict.get?_set]
    split
    · rfl
    · rfl
  | write status => exact status_updateRun runs key other status

theorem status_flagged (runs : Dict RunKey RunRow) (keys : List RunKey) (key : RunKey) :
    ((flagged runs keys).get? key).map (·.status) = ((runs.get? key).map (·.status)).map fun status =>
      if key ∈ keys ∧ status = .running then .cancelling else status := by
  rw [flagged, Dict.get?_map, Option.map_map, Option.map_map]
  congr 1
  funext row
  simp only [Function.comp]
  split
  · rfl
  · rfl

def reapedStatus : RunStatus → RunStatus
  | .running => .failed
  | .cancelling => .cancelled
  | status => status

theorem status_reaped (runs : Dict RunKey RunRow) (key : RunKey) :
    ((reaped runs).get? key).map (·.status) = ((runs.get? key).map (·.status)).map reapedStatus := by
  rw [reaped, Dict.get?_map, Option.map_map, Option.map_map]
  congr 1
  funext row
  cases hstatus : row.status <;> simp [Function.comp, hstatus, reapedStatus]

/-! ### What a move does -/

theorem moveStep_eq_some {k : Nat} {m : Move} : moveStep s k m = some s' ↔
    ∃ c e, s.coroutines[k]? = some c ∧ c.driver.effect c.phase (s.status c.key) m = some e ∧
      s' = { s with
        runs := e.row.apply s.runs c.key c.owner
        coroutines := s.coroutines.set k { c with phase := e.phase }
        registry := e.binding.apply s.registry c k } := by
  rw [moveStep]
  cases hc : s.coroutines[k]? with
  | none => simp
  | some c =>
    rw [map_eq_some_iff]
    constructor
    · rintro ⟨e, he, rfl⟩
      exact ⟨c, e, rfl, he, rfl⟩
    · rintro ⟨c', e, hc', he, rfl⟩
      cases hc'
      exact ⟨e, he, rfl⟩

def Coroutine.formed (c : Coroutine) : Prop :=
  match c.phase with
  | .finishing status _ => status = .success ∨ status = .failed ∨ status = .cancelled ∧ c.driver.table = .taskRuns
  | .settling status => status = .success ∨ status = .failed
  | .timingOut | .expired => c.driver = .interactiveWorkflow
  | _ => True

def Coroutine.late (c : Coroutine) : Bool :=
  match c.phase with
  | .finished _ | .expired | .leaving | .gone => true
  | _ => false

def Coroutine.spent (c : Coroutine) : Bool :=
  match c.phase with
  | .leaving => c.driver ≠ .preclaimedTask
  | .gone => true
  | _ => false

/-- Where a coroutine can go and what it does to its row, under the conditions on cancellations and
timeouts. -/
inductive Change (c : Coroutine) (status : Option RunStatus) : RowEffect → Phase → Prop
  | call (hphase : c.phase = .admission) (hdriver : c.driver ≠ .interactiveWorkflow) :
      Change c status .keep .opening
  | start (hphase : c.phase = .admission ∧ c.driver = .preclaimedTask ∨ c.phase = .linking) :
      Change c status .keep .working
  | insert {phase : Phase} (habsent : status = none) (hto : phase = .working ∨ phase = .linking) :
      Change c status .insert phase
  | decide {outcome : RunStatus} {caught : Bool} (hphase : c.phase = .working)
      (hformed : Coroutine.formed { c with phase := .finishing outcome caught }) :
      Change c status .keep (.finishing outcome caught)
  | record {outcome : RunStatus} {caught through : Bool} (hphase : c.phase = .finishing outcome caught) :
      Change c status (writeIf through outcome) (.finished caught)
  | settle {outcome : RunStatus} {through : Bool} (hphase : c.phase = .settling outcome) :
      Change c status (writeIf through outcome) .gone
  | timeout (hphase : c.phase = .working) (hdriver : c.driver = .interactiveWorkflow) :
      Change c status .keep .timingOut
  | expire (hdriver : c.driver = .interactiveWorkflow)
      (hphase : c.phase = .opening ∨ (∃ outcome caught, c.phase = .finishing outcome caught) ∨
        ∃ caught, c.phase = .finished caught) : Change c status .keep .expired
  | timedOut {through : Bool} (hphase : c.phase = .timingOut) (hfree : status ≠ some .cancelling) :
      Change c status (writeIf through .cancelled) .expired
  | recordTimeout {through : Bool} (hphase : c.phase = .expired) :
      Change c status (writeIf through .failed) .leaving
  | close {through : Bool} {phase : Phase} (hphase : (∃ executor, c.phase = .closing executor) ∨ c.phase = .stopping)
      (hto : phase = .closing false ∨ phase = .leaving ∨ phase = .gone) :
      Change c status (writeIf through .cancelled) phase
  | find {outcome : RunStatus} (hrunning : status = some .running ∨ status = none)
      (houtcome : outcome = .success ∨ outcome = .failed) : Change c status .keep (.settling outcome)
  | leave (hphase : c.phase ≠ .leaving ∧ c.phase ≠ .gone) : Change c status .keep .leaving
  | quit : Change c status .keep .gone
  | handle {phase : Phase} (hphase : c.spent = false) (hfree : status ≠ some .success)
      (hto : (∃ executor, phase = .closing executor) ∨ phase = .stopping) : Change c status .keep phase

theorem change_of_cancelled {c : Coroutine} {status : Option RunStatus} {e : Effect}
    (hfree : status = some .success → c.wouldClose = false) (he : c.driver.cancelled c.phase = some e) :
    Change c status e.row e.phase := by
  have hclosing : c.spent = false → e.row = .keep →
      (∃ executor, e.phase = .closing executor) ∨ e.phase = .stopping → Change c status e.row e.phase := by
    intro hspent hrow hto
    rw [hrow]
    apply Change.handle hspent _ hto
    intro hsuccess
    have hnot := hfree hsuccess
    rw [Coroutine.wouldClose, he] at hnot
    obtain ⟨phase, row, binding⟩ := e
    rcases hto with ⟨executor, rfl⟩ | rfl
    · cases hnot
    · cases hnot
  cases hphase : c.phase with
  | admission =>
    simp only [hphase, Driver.cancelled] at he
    split at he
    · cases he
      exact hclosing (by rw [Coroutine.spent, hphase]) rfl (.inr rfl)
    · cases he
      exact .quit
  | opening =>
    simp only [hphase, Driver.cancelled] at he
    split at he
    · cases he
      exact hclosing (by rw [Coroutine.spent, hphase]) rfl (.inl ⟨false, rfl⟩)
    · cases he
      exact .quit
  | linking =>
    rw [hphase] at he
    cases he
    exact .quit
  | working =>
    simp only [hphase, Driver.cancelled] at he
    split at he
    · cases he
      exact hclosing (by rw [Coroutine.spent, hphase]) rfl (.inl ⟨true, rfl⟩)
    · cases he
      exact hclosing (by rw [Coroutine.spent, hphase]) rfl (.inl ⟨false, rfl⟩)
  | finishing outcome caught | finished caught =>
    simp only [hphase, Driver.cancelled] at he
    split at he
    · cases he
      exact hclosing (by rw [Coroutine.spent, hphase]) rfl (.inl ⟨false, rfl⟩)
    · cases he
      exact .leave (by simp [hphase])
  | closing executor =>
    simp only [hphase, Driver.cancelled] at he
    split at he
    · cases he
      exact hclosing (by rw [Coroutine.spent, hphase]) rfl (.inl ⟨false, rfl⟩)
    · cases he
      exact .leave (by simp [hphase])
  | timingOut =>
    rw [hphase] at he
    cases he
    exact hclosing (by rw [Coroutine.spent, hphase]) rfl (.inl ⟨false, rfl⟩)
  | expired =>
    rw [hphase] at he
    cases he
    exact .leave (by simp [hphase])
  | leaving =>
    simp only [hphase, Driver.cancelled] at he
    split at he
    · rename_i hdriver
      cases he
      exact hclosing (by simp [Coroutine.spent, hphase, hdriver]) rfl (.inr rfl)
    · cases he
      exact .quit
  | settling outcome | stopping =>
    rw [hphase] at he
    cases he
    exact .quit
  | gone =>
    rw [hphase] at he
    cases he

theorem formed_of_catches {driver : Driver} {outcome : RunStatus} {raised caught : Bool}
    (h : driver.catches outcome raised = some caught) :
    outcome = .success ∨ outcome = .failed ∨ outcome = .cancelled ∧ driver.table = .taskRuns := by
  unfold Driver.catches at h
  split at h
  · exact .inl rfl
  · exact .inr (.inl rfl)
  · exact .inl rfl
  · exact .inr (.inl rfl)
  · exact .inr (.inr ⟨rfl, by assumption⟩)
  · exact .inr (.inl rfl)
  · cases h

theorem change_of_effect {c : Coroutine} {status : Option RunStatus} {m : Move} {e : Effect}
    (hcancel : m = .cancel → status = some .success → c.wouldClose = false)
    (hclose : ∀ through, m = .close through → c.phase = .timingOut → status ≠ some .cancelling)
    (he : c.driver.effect c.phase status m = some e) : Change c status e.row e.phase := by
  cases m with
  | enter =>
    simp only [Driver.effect] at he
    split at he
    · rename_i hphase hdriver
      cases he
      exact .call hphase (by rw [hdriver]; decide)
    · rename_i hphase hdriver
      cases he
      exact .call hphase (by rw [hdriver]; decide)
    · rename_i hphase hdriver
      cases he
      exact .start (.inl ⟨hphase, hdriver⟩)
    · cases he
  | add through =>
    simp only [Driver.effect] at he
    split at he
    · rename_i hphase htable
      split at he
      · rename_i hthrough
        cases he
        rw [and_eq_true, isNone_iff_eq_none] at hthrough
        exact .insert hthrough.2 (.inl rfl)
      · cases he
        exact .leave (by simp [hphase])
    · split at he
      · rename_i hthrough
        cases he
        rw [and_eq_true, isNone_iff_eq_none] at hthrough
        exact .insert hthrough.2 (.inr rfl)
      · cases he
        exact .quit
    · cases he
  | link =>
    simp only [Driver.effect] at he
    split at he
    · rename_i hphase
      cases he
      exact .start (.inr hphase)
    · cases he
  | outcome outcome raised =>
    simp only [Driver.effect] at he
    split at he
    · rename_i hphase
      obtain ⟨caught, hcatches, rfl⟩ := Option.map_eq_some_iff.mp he
      exact .decide hphase (formed_of_catches hcatches)
    · cases he
  | record through =>
    simp only [Driver.effect] at he
    split at he
    · rename_i hphase
      cases he
      exact .record hphase
    · rename_i hphase
      cases he
      exact .recordTimeout hphase
    · cases he
  | leave =>
    simp only [Driver.effect] at he
    split at he
    · rename_i hphase
      cases he
      exact .leave (by simp [hphase])
    · cases he
  | back raised =>
    simp only [Driver.effect] at he
    split at he
    · split at he
      · cases he
        rw [settled]
        split
        · rename_i hrunning
          apply Change.find (.inl hrunning)
          cases raised
          · exact .inl rfl
          · exact .inr rfl
        · split
          · rename_i hnone
            exact .find (.inr hnone.2) (.inr rfl)
          · exact .quit
      · cases he
        exact .quit
    · cases he
  | settle through =>
    simp only [Driver.effect] at he
    split at he
    · rename_i hphase
      cases he
      exact .settle hphase
    · cases he
  | close through =>
    simp only [Driver.effect] at he
    split at he
    · rename_i hphase
      cases he
      exact .close (.inl ⟨true, hphase⟩) (.inl rfl)
    · rename_i hphase
      cases he
      exact .close (.inl ⟨false, hphase⟩) (.inr (.inl rfl))
    · rename_i hphase
      cases he
      exact .timedOut hphase (hclose through rfl hphase)
    · rename_i hphase
      cases he
      exact .close (.inr hphase) (.inr (.inr rfl))
    · cases he
  | expire =>
    simp only [Driver.effect] at he
    split at he
    · rename_i hdriver
      split at he
      · rename_i hphase
        cases he
        exact .timeout hphase hdriver
      · rename_i hphase
        cases he
        exact .expire hdriver (.inl hphase)
      · rename_i outcome caught hphase
        cases he
        exact .expire hdriver (.inr (.inl ⟨outcome, caught, hphase⟩))
      · rename_i caught hphase
        cases he
        exact .expire hdriver (.inr (.inr ⟨caught, hphase⟩))
      · cases he
    · cases he
  | cancel => exact change_of_cancelled (hcancel rfl) he

/-! ### What a change keeps -/

/-- The row of a coroutine is flagged, and nothing but `cancelled` is to be written to it. -/
def Coroutine.Flagged (c : Coroutine) (status : Option RunStatus) : Prop :=
  status = some .cancelling ∨ status = some .cancelled ∧ c.mayRecord = false

def Coroutine.Ended (c : Coroutine) (status : Option RunStatus) : Prop :=
  status = some .success ∧ c.late = true ∨ status = some .failed ∧ c.spent = true

variable {c : Coroutine} {status : Option RunStatus} {row : RowEffect} {phase : Phase}

theorem formed_of_change (h : Change c status row phase) (hc : c.formed) :
    Coroutine.formed { c with phase } := by
  cases h with
  | decide _ hformed => exact hformed
  | timeout _ hdriver | expire hdriver => exact hdriver
  | timedOut hphase =>
    rw [Coroutine.formed, hphase] at hc
    exact hc
  | find _ houtcome => exact houtcome
  | insert _ hto | close _ hto =>
    revert hto
    cases phase <;> simp [Coroutine.formed]
  | handle _ _ hto =>
    revert hto
    cases phase <;> simp [Coroutine.formed]
  | _ => trivial

theorem late_of_change (h : Change c status row phase) (hlate : status = some .success → c.late = true)
    (hsuccess : row.status status = some .success) : Coroutine.late { c with phase } = true := by
  cases h with
  | call hphase | decide hphase | timeout hphase =>
    have := hlate hsuccess
    simp [Coroutine.late, hphase] at this
  | start hphase =>
    have := hlate hsuccess
    rcases hphase with ⟨hphase, -⟩ | hphase
    · simp [Coroutine.late, hphase] at this
    · simp [Coroutine.late, hphase] at this
  | insert => cases hsuccess
  | find hrunning =>
    rw [show status = some .success from hsuccess] at hrunning
    simp at hrunning
  | handle _ hfree => exact absurd hsuccess hfree
  | @close through _ hphase hto =>
    rcases hto with rfl | rfl | rfl
    · cases through with
      | false =>
        have := hlate hsuccess
        rcases hphase with ⟨executor, hphase⟩ | hphase
        · simp [Coroutine.late, hphase] at this
        · simp [Coroutine.late, hphase] at this
      | true =>
        obtain ⟨old, -, hold⟩ := Option.map_eq_some_iff.mp hsuccess
        simp [written] at hold
    · rfl
    · rfl
  | _ => rfl

theorem flagged_of_change (h : Change c status row phase) (hc : c.formed) (hflag : c.Flagged status) :
    Coroutine.Flagged { c with phase } (row.status status) := by
  -- a row that is cancelled already has a coroutine with no outcome to write
  have hdone : ∀ {p : Prop}, c.mayRecord = true → status = some .cancelled → p := by
    intro p hmay hstatus
    rcases hflag with hflag | ⟨-, hnot⟩
    · simp [hstatus] at hflag
    · simp [hmay] at hnot
  have hkeep : (status = some .cancelled → Coroutine.mayRecord { c with phase } = false) →
      Coroutine.Flagged { c with phase } status := by
    intro hmay
    rcases hflag with hflag | ⟨hstatus, -⟩
    · exact .inl hflag
    · exact .inr ⟨hstatus, hmay hstatus⟩
  -- an outcome is not written over the flag
  have houtcome : ∀ {outcome : RunStatus} {through : Bool}, outcome ≠ .cancelled → c.mayRecord = true →
      Coroutine.Flagged { c with phase } ((writeIf through outcome).status status) := by
    intro outcome through hne hmay
    rcases hflag with rfl | ⟨hstatus, -⟩
    · cases through
      · exact .inl rfl
      · refine .inl ?_
        simp [writeIf, RowEffect.status, written, hne]
    · exact hdone hmay hstatus
  cases h with
  | call _ hdriver => exact hkeep fun _ => decide_eq_false hdriver
  | start hphase =>
    apply hkeep
    rcases hphase with ⟨hphase, hdriver⟩ | hphase
    · exact hdone (by rw [Coroutine.mayRecord, hphase, hdriver]; rfl)
    · exact hdone (by rw [Coroutine.mayRecord, hphase])
  | insert habsent =>
    rw [Coroutine.Flagged, habsent] at hflag
    simp at hflag
  | decide hphase | timeout hphase => exact hkeep (hdone (by rw [Coroutine.mayRecord, hphase]))
  | expire hdriver hphase =>
    apply hkeep
    apply hdone
    rcases hphase with hphase | ⟨outcome, caught, hphase⟩ | ⟨caught, hphase⟩
    · rw [Coroutine.mayRecord, hphase, hdriver]
      rfl
    · rw [Coroutine.mayRecord, hphase]
    · rw [Coroutine.mayRecord, hphase, hdriver]
      rfl
  | @record outcome caught through hphase =>
    rw [Coroutine.formed, hphase] at hc
    rcases hc with rfl | rfl | ⟨rfl, htable⟩
    · exact houtcome (by decide) (by rw [Coroutine.mayRecord, hphase])
    · exact houtcome (by decide) (by rw [Coroutine.mayRecord, hphase])
    · rcases hflag with rfl | ⟨hstatus, -⟩
      · cases through
        · exact .inl rfl
        · refine .inr ⟨rfl, decide_eq_false ?_⟩
          show c.driver ≠ .interactiveWorkflow
          intro hdriver
          rw [hdriver] at htable
          cases htable
      · exact hdone (by rw [Coroutine.mayRecord, hphase]) hstatus
  | settle hphase =>
    rw [Coroutine.formed, hphase] at hc
    rcases hc with rfl | rfl
    · exact houtcome (by decide) (by rw [Coroutine.mayRecord, hphase])
    · exact houtcome (by decide) (by rw [Coroutine.mayRecord, hphase])
  | timedOut hphase hfree =>
    rcases hflag with hflag | ⟨hstatus, -⟩
    · exact absurd hflag hfree
    · exact hdone (by rw [Coroutine.mayRecord, hphase]) hstatus
  | recordTimeout hphase => exact houtcome (by decide) (by rw [Coroutine.mayRecord, hphase])
  | @close through _ hphase hto =>
    have hmay : Coroutine.mayRecord { c with phase } = false := by
      rcases hto with rfl | rfl | rfl
      · rfl
      · rfl
      · rfl
    cases through with
    | false => exact hkeep fun _ => hmay
    | true =>
      rcases hflag with rfl | ⟨rfl, -⟩
      · exact .inr ⟨rfl, hmay⟩
      · exact .inr ⟨rfl, hmay⟩
  | find hrunning =>
    rcases hrunning with rfl | rfl
    · simp [Coroutine.Flagged] at hflag
    · simp [Coroutine.Flagged] at hflag
  | handle _ _ hto =>
    apply hkeep
    intro _
    rcases hto with ⟨executor, rfl⟩ | rfl
    · rfl
    · rfl
  | leave | quit => exact hkeep fun _ => rfl

theorem ended_of_change (h : Change c status row phase) (hc : c.formed) (hended : c.Ended status) :
    Coroutine.Ended { c with phase } (row.status status) := by
  have hover : ∀ {p : Prop}, c.late = false → p := by
    intro p hlate
    rcases hended with ⟨-, hended⟩ | ⟨-, hspent⟩
    · simp [hlate] at hended
    · revert hlate hspent
      rw [Coroutine.late, Coroutine.spent]
      cases c.phase <;> simp
  have hkeep : Coroutine.late { c with phase } = true →
      (c.spent = true → Coroutine.spent { c with phase } = true) → Coroutine.Ended { c with phase } status := by
    intro hlate hspent
    rcases hended with ⟨hstatus, -⟩ | ⟨hstatus, h⟩
    · exact .inl ⟨hstatus, hlate⟩
    · exact .inr ⟨hstatus, hspent h⟩
  cases h with
  | call hphase | decide hphase | timeout hphase | record hphase | settle hphase | timedOut hphase =>
    exact hover (by rw [Coroutine.late, hphase])
  | start hphase =>
    rcases hphase with ⟨hphase, -⟩ | hphase
    · exact hover (by rw [Coroutine.late, hphase])
    · exact hover (by rw [Coroutine.late, hphase])
  | insert habsent =>
    rw [Coroutine.Ended, habsent] at hended
    simp at hended
  | expire _ hphase =>
    apply hkeep rfl
    intro hspent
    rw [Coroutine.spent] at hspent
    rcases hphase with hphase | ⟨outcome, caught, hphase⟩ | ⟨caught, hphase⟩
    · simp [hphase] at hspent
    · simp [hphase] at hspent
    · simp [hphase] at hspent
  | @recordTimeout through hphase =>
    rw [Coroutine.formed, hphase] at hc
    have hspent : Coroutine.spent { c with phase := .leaving } = true := by
      rw [Coroutine.spent, hc]
      rfl
    cases through with
    | false => exact hkeep rfl fun _ => hspent
    | true =>
      rcases hended with ⟨rfl, -⟩ | ⟨rfl, -⟩
      · exact .inr ⟨rfl, hspent⟩
      · exact .inr ⟨rfl, hspent⟩
  | close hphase =>
    rcases hphase with ⟨executor, hphase⟩ | hphase
    · exact hover (by rw [Coroutine.late, hphase])
    · exact hover (by rw [Coroutine.late, hphase])
  | find hrunning =>
    rcases hrunning with rfl | rfl
    · simp [Coroutine.Ended] at hended
    · simp [Coroutine.Ended] at hended
  | leave hphase =>
    apply hkeep rfl
    intro hspent
    revert hphase hspent
    rw [Coroutine.spent]
    cases c.phase <;> simp
  | quit => exact hkeep rfl fun _ => rfl
  | handle hspent hfree =>
    rcases hended with ⟨hstatus, -⟩ | ⟨-, h⟩
    · exact absurd hstatus hfree
    · simp [hspent] at h

/-! ### The system -/

/-- A run is flagged, and no coroutine of it has anything but `cancelled` left to write. -/
def Stops.Flagged (s : Stops) (key : RunKey) : Prop :=
  s.status key = some .cancelling ∨
    s.status key = some .cancelled ∧ ∀ c ∈ s.coroutines, c.key = key → c.mayRecord = false

def Stops.Ended (s : Stops) (key : RunKey) : Prop :=
  s.status key = some .success ∨ s.status key = some .failed ∧ ∀ c ∈ s.coroutines, c.key = key → c.spent = true

structure StopInv (s : Stops) : Prop where
  keys : (s.coroutines.map (·.key)).Nodup
  formed : ∀ c ∈ s.coroutines, c.formed
  late : ∀ c ∈ s.coroutines, s.status c.key = some .success → c.late = true
  drained : ∀ d ∈ s.drains, ∀ key ∈ d.keys, s.Flagged key
  bound : ∀ process key (k : Nat), s.registry.get? (process, key) = some k →
    ∃ c, s.coroutines[k]? = some c ∧ c.key = key

structure StopKept (s s' : Stops) : Prop where
  inv : StopInv s'
  flagged : ∀ key, s.Flagged key → s'.Flagged key
  ended : ∀ key, s.Ended key → s'.Ended key

theorem StopKept.refl (h : StopInv s) : StopKept s s := ⟨h, fun _ h => h, fun _ h => h⟩

theorem StopKept.trans {t : Stops} (h : StopKept s s') (h' : StopKept s' t) : StopKept s t :=
  ⟨h'.inv, fun key hkey => h'.flagged key (h.flagged key hkey), fun key hkey => h'.ended key (h.ended key hkey)⟩

theorem not_ended_of_flagged (h : s.Flagged key) : ¬ s.Ended key := by
  rintro (hended | ⟨hended, -⟩)
  · rcases h with h | ⟨h, -⟩
    · simp [h] at hended
    · simp [h] at hended
  · rcases h with h | ⟨h, -⟩
    · simp [h] at hended
    · simp [h] at hended

theorem StopInv.place_eq (h : StopInv s) {j k : Nat} {c d : Coroutine} (hc : s.coroutines[j]? = some c)
    (hd : s.coroutines[k]? = some d) (hkey : c.key = d.key) : j = k := by
  have hlt : j < (s.coroutines.map (·.key)).length := by
    rw [length_map]
    exact (List.getElem?_eq_some_iff.mp hc).1
  apply (getElem?_inj hlt h.keys).mp
  rw [getElem?_map, getElem?_map, hc, hd]
  exact congrArg some hkey

theorem kept_move (h : StopInv s) {k : Nat} {m : Move}
    (hcancel : ∀ c, s.coroutines[k]? = some c → m = .cancel → s.status c.key = some .success →
      c.wouldClose = false)
    (hclose : ∀ c, s.coroutines[k]? = some c → ∀ through, m = .close through → c.phase = .timingOut →
      s.status c.key ≠ some .cancelling) (hmove : moveStep s k m = some s') : StopKept s s' := by
  obtain ⟨c, e, hc, he, rfl⟩ := moveStep_eq_some.mp hmove
  have hchange := change_of_effect (hcancel c hc) (hclose c hc) he
  have hformed := h.formed c (mem_of_getElem? hc)
  generalize hs' : ({ s with
    runs := e.row.apply s.runs c.key c.owner
    coroutines := s.coroutines.set k { c with phase := e.phase }
    registry := e.binding.apply s.registry c k } : Stops) = s'
  have hstatus : ∀ key, s'.status key =
      if key = c.key then e.row.status (s.status key) else s.status key := by
    intro key
    rw [← hs']
    exact status_apply e.row s.runs c.key key c.owner
  have hplace : ∀ (j : Nat) d, s'.coroutines[j]? = some d ↔
      k = j ∧ { c with phase := e.phase } = d ∨ k ≠ j ∧ s.coroutines[j]? = some d := by
    intro j d
    rw [← hs']
    exact getElem?_set_eq_some hc
  -- the coroutines are the one that moved and those of other runs
  have hmem : ∀ d ∈ s'.coroutines, d = { c with phase := e.phase } ∨ d ∈ s.coroutines ∧ d.key ≠ c.key := by
    intro d hd
    obtain ⟨j, hj⟩ := mem_iff_getElem?.mp hd
    rcases (hplace j d).mp hj with ⟨-, hd⟩ | ⟨hne, hj⟩
    · exact .inl hd.symm
    · exact .inr ⟨mem_of_getElem? hj, fun hkey => hne (h.place_eq hj hc hkey).symm⟩
  have hflagged : ∀ key, s.Flagged key → s'.Flagged key := by
    intro key hkey
    rw [Stops.Flagged, hstatus key]
    by_cases heq : key = c.key
    · rw [if_pos heq]
      have hown : c.Flagged (s.status key) := by
        rcases hkey with hkey | ⟨hkey, hmay⟩
        · exact .inl hkey
        · exact .inr ⟨hkey, hmay c (mem_of_getElem? hc) heq.symm⟩
      rw [← heq] at hchange
      rcases flagged_of_change hchange hformed hown with hnext | ⟨hnext, hmay⟩
      · exact .inl hnext
      · refine .inr ⟨hnext, ?_⟩
        intro d hd hdkey
        rcases hmem d hd with rfl | ⟨-, hne⟩
        · exact hmay
        · exact absurd (hdkey.trans heq) hne
    · rw [if_neg heq]
      apply hkey.imp_right
      rintro ⟨hcancelled, hmay⟩
      refine ⟨hcancelled, fun d hd hdkey => ?_⟩
      rcases hmem d hd with rfl | ⟨hd, -⟩
      · exact absurd hdkey.symm heq
      · exact hmay d hd hdkey
  refine ⟨⟨?_, ?_, ?_, ?_, ?_⟩, hflagged, ?_⟩
  · have hkeys : s'.coroutines.map (·.key) = s.coroutines.map (·.key) := by
      rw [← hs']
      apply ext_getElem?
      intro j
      rw [getElem?_map, getElem?_map]
      have hsame : Coroutine.key { c with phase := e.phase } = c.key := rfl
      exact map_getElem?_set hc hsame j
    rw [hkeys]
    exact h.keys
  · intro d hd
    rcases hmem d hd with rfl | ⟨hd, -⟩
    · exact formed_of_change hchange hformed
    · exact h.formed d hd
  · intro d hd hsuccess
    rw [hstatus d.key] at hsuccess
    rcases hmem d hd with rfl | ⟨hd, hne⟩
    · rw [if_pos rfl] at hsuccess
      exact late_of_change hchange (h.late c (mem_of_getElem? hc)) hsuccess
    · rw [if_neg hne] at hsuccess
      exact h.late d hd hsuccess
  · rw [← hs']
    intro d hd key hkey
    have := hflagged key (h.drained d hd key hkey)
    rwa [← hs'] at this
  · intro process key j hbound
    have hold : (∃ d, s.coroutines[j]? = some d ∧ d.key = key) := by
      rw [← hs'] at hbound
      cases hbinding : e.binding with
      | keep =>
        simp only [hbinding, Binding.apply] at hbound
        exact h.bound process key j hbound
      | bind =>
        simp only [hbinding, Binding.apply] at hbound
        rw [Dict.get?_set] at hbound
        split at hbound
        · rename_i heq
          cases hbound
          exact ⟨c, hc, (congrArg Prod.snd heq).symm⟩
        · exact h.bound process key j hbound
      | drop =>
        simp only [hbinding, Binding.apply] at hbound
        rw [Dict.get?_pop] at hbound
        split at hbound
        · cases hbound
        · exact h.bound process key j hbound
    obtain ⟨d, hd, hdkey⟩ := hold
    by_cases hj : k = j
    · rw [← hj, hc] at hd
      cases hd
      exact ⟨_, (hplace j _).mpr (.inl ⟨hj, rfl⟩), hdkey⟩
    · exact ⟨d, (hplace j d).mpr (.inr ⟨hj, hd⟩), hdkey⟩
  · intro key hkey
    rw [Stops.Ended, hstatus key]
    by_cases heq : key = c.key
    · rw [if_pos heq]
      have hown : c.Ended (s.status key) := by
        rcases hkey with hkey | ⟨hkey, hspent⟩
        · exact .inl ⟨hkey, h.late c (mem_of_getElem? hc) (heq ▸ hkey)⟩
        · exact .inr ⟨hkey, hspent c (mem_of_getElem? hc) heq.symm⟩
      rw [← heq] at hchange
      rcases ended_of_change hchange hformed hown with ⟨hnext, -⟩ | ⟨hnext, hspent⟩
      · exact .inl hnext
      · refine .inr ⟨hnext, ?_⟩
        intro d hd hdkey
        rcases hmem d hd with rfl | ⟨-, hne⟩
        · exact hspent
        · exact absurd (hdkey.trans heq) hne
    · rw [if_neg heq]
      apply hkey.imp_right
      rintro ⟨hfailed, hspent⟩
      refine ⟨hfailed, fun d hd hdkey => ?_⟩
      rcases hmem d hd with rfl | ⟨hd, -⟩
      · exact absurd hdkey.symm heq
      · exact hspent d hd hdkey

/-- A change of one row to `cancelled`, where nothing but that is left to be written. -/
theorem kept_orphan (h : StopInv s) (hflagged : s.Flagged key)
    (hmay : ∀ c ∈ s.coroutines, c.key = key → c.mayRecord = false) :
    StopKept s { s with runs := updateRun s.runs key .cancelled } := by
  have hstatus : ∀ other, Stops.status { s with runs := updateRun s.runs key .cancelled } other =
      if other = key then some .cancelled else s.status other := by
    intro other
    rw [Stops.status, status_updateRun]
    split
    · rename_i heq
      rw [heq]
      rcases hflagged with hkey | ⟨hkey, -⟩
      · rw [show (s.runs.get? key).map (·.status) = some .cancelling from hkey]
        rfl
      · rw [show (s.runs.get? key).map (·.status) = some .cancelled from hkey]
        rfl
    · rfl
  have hkeep : ∀ other, s.Flagged other →
      Stops.Flagged { s with runs := updateRun s.runs key .cancelled } other := by
    intro other hother
    rw [Stops.Flagged, hstatus other]
    split
    · rename_i heq
      exact .inr ⟨rfl, heq ▸ hmay⟩
    · exact hother
  refine ⟨⟨h.keys, h.formed, ?_, fun d hd other hother => hkeep other (h.drained d hd other hother), h.bound⟩,
    hkeep, ?_⟩
  · intro c hc hsuccess
    rw [hstatus c.key] at hsuccess
    split at hsuccess
    · cases hsuccess
    · exact h.late c hc hsuccess
  · intro other hended
    rw [Stops.Ended, hstatus other]
    split
    · rename_i heq
      rw [heq] at hended
      exact absurd hended (not_ended_of_flagged hflagged)
    · exact hended

theorem kept_apply (h : StopInv s) {process : Nat} (hflagged : s.Flagged key) (through : Bool)
    (hcond : (s.registry.get? (process, key)).isSome = true ∨
      ∀ c ∈ s.coroutines, c.key = key → c.mayRecord = false) :
    StopKept s (applyCancellation s process key through) := by
  rw [applyCancellation]
  cases hbound : s.registry.get? (process, key) with
  | none =>
    rw [hbound] at hcond
    cases through with
    | false => exact .refl h
    | true => exact kept_orphan h hflagged (hcond.resolve_left false_ne_true)
  | some k =>
    show StopKept s ((moveStep s k .cancel).getD s)
    cases hmove : moveStep s k .cancel with
    | none => exact .refl h
    | some s' =>
      refine kept_move h ?_ ?_ hmove
      · intro c hc _ hsuccess
        obtain ⟨d, hd, hdkey⟩ := h.bound process key k hbound
        rw [hd] at hc
        cases hc
        rw [hdkey] at hsuccess
        exact absurd (.inl hsuccess) (not_ended_of_flagged hflagged)
      · exact fun _ _ _ h => nomatch h

theorem kept_restart (h : StopInv s) (process : Nat)
    (hcond : ∀ c ∈ s.coroutines, c.process ≠ process → c.mayRecord = true → s.status c.key ≠ some .cancelling) :
    StopKept s { s with
      runs := reaped s.runs
      coroutines := s.coroutines.map fun c => if c.process = process then { c with phase := .gone } else c
      registry := s.registry.filter fun entry _ => entry.1 ≠ process
      drains := s.drains.map fun d => if d.process = process then { d with keys := [] } else d } := by
  generalize hs' : ({ s with
    runs := reaped s.runs
    coroutines := s.coroutines.map fun c => if c.process = process then { c with phase := .gone } else c
    registry := s.registry.filter fun entry _ => entry.1 ≠ process
    drains := s.drains.map fun d => if d.process = process then { d with keys := [] } else d } : Stops) = s'
  have hstatus : ∀ key, s'.status key = (s.status key).map reapedStatus := by
    intro key
    rw [← hs']
    exact status_reaped s.runs key
  have hmem : ∀ d ∈ s'.coroutines, ∃ c ∈ s.coroutines, c.key = d.key ∧
      (d.phase = .gone ∨ d = c ∧ c.process ≠ process) := by
    intro d hd
    rw [← hs'] at hd
    obtain ⟨c, hc, rfl⟩ := List.mem_map.mp hd
    by_cases hprocess : c.process = process
    · rw [if_pos hprocess]
      exact ⟨c, hc, rfl, .inl rfl⟩
    · rw [if_neg hprocess]
      exact ⟨c, hc, rfl, .inr ⟨rfl, hprocess⟩⟩
  have hflagged : ∀ key, s.Flagged key → s'.Flagged key := by
    intro key hkey
    rw [Stops.Flagged, hstatus key]
    rcases hkey with hkey | ⟨hkey, hmay⟩
    · rw [hkey]
      refine .inr ⟨rfl, ?_⟩
      intro d hd hdkey
      obtain ⟨c, hc, hckey, hgone | ⟨rfl, hprocess⟩⟩ := hmem d hd
      · rw [Coroutine.mayRecord, hgone]
      · apply Bool.eq_false_iff.mpr
        intro hmay
        exact hcond d hc hprocess hmay (hdkey ▸ hkey)
    · rw [hkey]
      refine .inr ⟨rfl, ?_⟩
      intro d hd hdkey
      obtain ⟨c, hc, hckey, hgone | ⟨rfl, -⟩⟩ := hmem d hd
      · rw [Coroutine.mayRecord, hgone]
      · exact hmay d hc hdkey
  refine ⟨⟨?_, ?_, ?_, ?_, ?_⟩, hflagged, ?_⟩
  · have hkeys : s'.coroutines.map (·.key) = s.coroutines.map (·.key) := by
      rw [← hs', List.map_map]
      apply map_congr_left
      intro c _
      simp only [Function.comp]
      split
      · rfl
      · rfl
    rw [hkeys]
    exact h.keys
  · intro d hd
    obtain ⟨c, hc, -, hgone | ⟨rfl, -⟩⟩ := hmem d hd
    · rw [Coroutine.formed, hgone]
      trivial
    · exact h.formed d hc
  · intro d hd hsuccess
    obtain ⟨c, hc, -, hgone | ⟨rfl, -⟩⟩ := hmem d hd
    · rw [Coroutine.late, hgone]
    · apply h.late d hc
      rw [hstatus d.key] at hsuccess
      obtain ⟨status, hold, hnew⟩ := Option.map_eq_some_iff.mp hsuccess
      rw [hold]
      cases status with
      | success => rfl
      | running | cancelling | failed | cancelled => cases hnew
  · intro d hd key hkey
    rw [← hs'] at hd
    obtain ⟨d', hd', rfl⟩ := List.mem_map.mp hd
    by_cases hprocess : d'.process = process
    · rw [if_pos hprocess] at hkey
      exact absurd hkey not_mem_nil
    · rw [if_neg hprocess] at hkey
      exact hflagged key (h.drained d' hd' key hkey)
  · intro p key k hbound
    rw [← hs'] at hbound
    obtain ⟨c, hc, hkey⟩ := h.bound p key k (Dict.mem_filter.mp hbound).1
    refine ⟨if c.process = process then { c with phase := .gone } else c, ?_, ?_⟩
    · rw [← hs', getElem?_map, hc]
      rfl
    · split
      · exact hkey
      · exact hkey
  · intro key hkey
    rw [Stops.Ended, hstatus key]
    rcases hkey with hkey | ⟨hkey, hspent⟩
    · rw [hkey]
      exact .inl rfl
    · rw [hkey]
      refine .inr ⟨rfl, ?_⟩
      intro d hd hdkey
      obtain ⟨c, hc, -, hgone | ⟨rfl, -⟩⟩ := hmem d hd
      · rw [Coroutine.spent, hgone]
      · exact hspent d hc hdkey

theorem kept_flag (h : StopInv s) (keys : List RunKey) (requests : List (List RunKey)) :
    StopKept s { s with runs := flagged s.runs keys, requests } := by
  have hstatus : ∀ key, Stops.status { s with runs := flagged s.runs keys, requests } key =
      (s.status key).map fun status => if key ∈ keys ∧ status = .running then .cancelling else status :=
    status_flagged s.runs keys
  have hsame : ∀ key status, status ≠ .running → s.status key = some status →
      Stops.status { s with runs := flagged s.runs keys, requests } key = some status := by
    intro key status hne hkey
    rw [hstatus key, hkey, map_some, if_neg fun hrunning => hne hrunning.2]
  have hflagged : ∀ key, s.Flagged key →
      Stops.Flagged { s with runs := flagged s.runs keys, requests } key := by
    rintro key (hkey | ⟨hkey, hmay⟩)
    · exact .inl (hsame key _ (by decide) hkey)
    · exact .inr ⟨hsame key _ (by decide) hkey, hmay⟩
  refine ⟨⟨h.keys, h.formed, ?_, fun d hd key hkey => hflagged key (h.drained d hd key hkey), h.bound⟩,
    hflagged, ?_⟩
  · intro c hc hsuccess
    apply h.late c hc
    rw [hstatus c.key] at hsuccess
    obtain ⟨status, hold, hnew⟩ := Option.map_eq_some_iff.mp hsuccess
    split at hnew
    · cases hnew
    · rw [hold, hnew]
  · rintro key (hkey | ⟨hkey, hspent⟩)
    · exact .inl (hsame key _ (by decide) hkey)
    · exact .inr ⟨hsame key _ (by decide) hkey, hspent⟩

theorem kept_spawn (h : StopInv s) {d : Coroutine} {runs : Dict RunKey RunRow}
    {registry : Dict (Nat × RunKey) Nat} (hfresh : ∀ c ∈ s.coroutines, c.key ≠ d.key)
    (habsent : s.runs.get? d.key = none) (hformed : d.formed)
    (hruns : runs = s.runs ∨ runs = s.runs.set d.key { owner := d.owner, status := .running })
    (hregistry : ∀ process key (k : Nat), registry.get? (process, key) = some k →
      s.registry.get? (process, key) = some k ∨ k = s.coroutines.length ∧ key = d.key) :
    StopKept s { s with runs, registry, coroutines := s.coroutines ++ [d] } := by
  have hnone : s.status d.key = none := by rw [Stops.status, habsent, map_none]
  have hstatus : ∀ key status, s.status key = some status →
      Stops.status { s with runs, registry, coroutines := s.coroutines ++ [d] } key = some status := by
    intro key status hkey
    rcases hruns with rfl | rfl
    · exact hkey
    · have hne : key ≠ d.key := by
        rintro rfl
        simp [hnone] at hkey
      rw [Stops.status, Dict.get?_set_ne s.runs _ hne]
      exact hkey
  have hback : ∀ key, Stops.status { s with runs, registry, coroutines := s.coroutines ++ [d] } key =
      some .success → s.status key = some .success := by
    intro key hkey
    rcases hruns with rfl | rfl
    · exact hkey
    · rw [Stops.status, Dict.get?_set] at hkey
      split at hkey
      · cases hkey
      · exact hkey
  have hall : ∀ {p : Coroutine → Prop} key status, s.status key = some status →
      (∀ c ∈ s.coroutines, c.key = key → p c) → ∀ c ∈ s.coroutines ++ [d], c.key = key → p c := by
    intro p key status hkey hold c hc hckey
    rcases List.mem_append.mp hc with hc | hc
    · exact hold c hc hckey
    · rw [List.mem_singleton.mp hc] at hckey
      simp [← hckey, hnone] at hkey
  have hflagged : ∀ key, s.Flagged key →
      Stops.Flagged { s with runs, registry, coroutines := s.coroutines ++ [d] } key := by
    rintro key (hkey | ⟨hkey, hmay⟩)
    · exact .inl (hstatus key _ hkey)
    · exact .inr ⟨hstatus key _ hkey, hall key _ hkey hmay⟩
  refine ⟨⟨?_, ?_, ?_, fun e he key hkey => hflagged key (h.drained e he key hkey), ?_⟩, hflagged, ?_⟩
  · rw [map_append, map_singleton]
    apply h.keys.append (nodup_singleton _)
    intro key hmem hkey
    obtain ⟨c, hc, rfl⟩ := List.mem_map.mp hmem
    exact hfresh c hc (List.mem_singleton.mp hkey)
  · intro c hc
    rcases List.mem_append.mp hc with hc | hc
    · exact h.formed c hc
    · rw [List.mem_singleton.mp hc]
      exact hformed
  · intro c hc hsuccess
    have hbefore := hback c.key hsuccess
    rcases List.mem_append.mp hc with hc | hc
    · exact h.late c hc hbefore
    · simp [List.mem_singleton.mp hc, hnone] at hbefore
  · intro process key k hbound
    rcases hregistry process key k hbound with hold | ⟨rfl, rfl⟩
    · obtain ⟨c, hc, hckey⟩ := h.bound process key k hold
      exact ⟨c, getElem?_append_singleton.mpr (.inl hc), hckey⟩
    · exact ⟨d, getElem?_append_singleton.mpr (.inr ⟨rfl, rfl⟩), rfl⟩
  · rintro key (hkey | ⟨hkey, hspent⟩)
    · exact .inl (hstatus key _ hkey)
    · exact .inr ⟨hstatus key _ hkey, hall key _ hkey hspent⟩

theorem kept_drains (h : StopInv s) (drains : List Drain)
    (hdrains : ∀ d ∈ drains, ∀ key ∈ d.keys, s.Flagged key) : StopKept s { s with drains } :=
  ⟨⟨h.keys, h.formed, h.late, hdrains, h.bound⟩, fun _ hkey => hkey, fun _ hkey => hkey⟩

theorem kept_step {e : StopEvent} (h : StopInv s) (hcond : orderly s e = true)
    (hstep : stopStep s e = some s') : StopKept s s' := by
  cases e with
  | spawn driver process id owner =>
    rw [orderly, and_eq_true, isNone_iff_eq_none] at hcond
    have hfresh : ∀ c ∈ s.coroutines, c.key ≠ { table := driver.table, id } :=
      fun c hc => of_decide_eq_true (List.all_eq_true.mp hcond.2 c hc)
    cases driver with
    | preclaimedTask =>
      simp only [stopStep, hcond.1, isSome_none, false_eq_true, if_false] at hstep
      cases hstep
      refine kept_spawn h hfresh hcond.1 ?_ (.inr rfl) fun _ _ _ hold => .inl hold
      trivial
    | interactiveWorkflow =>
      cases hstep
      refine kept_spawn h hfresh hcond.1 ?_ (.inl rfl) ?_
      · trivial
      intro p key k hbound
      rw [Dict.get?_set] at hbound
      split at hbound
      · rename_i heq
        exact .inr ⟨(some.inj hbound).symm, congrArg Prod.snd heq⟩
      · exact .inl hbound
    | executeWorkflow | executeTask =>
      cases hstep
      refine kept_spawn h hfresh hcond.1 ?_ (.inl rfl) fun _ _ _ hold => .inl hold
      trivial
  | move k m =>
    refine kept_move h ?_ ?_ hstep
    · rintro c hc rfl hsuccess
      simp only [orderly, hc, hsuccess, decide_true, Bool.true_and, Bool.not_eq_true'] at hcond
      exact hcond
    · rintro c hc through rfl hphase hcancelling
      simp [orderly, hc, hphase, hcancelling] at hcond
  | ask table owner runId =>
    cases hstep
    exact ⟨⟨h.keys, h.formed, h.late, h.drained, h.bound⟩, fun _ hkey => hkey, fun _ hkey => hkey⟩
  | flag j =>
    obtain ⟨keys, -, rfl⟩ := Option.map_eq_some_iff.mp hstep
    exact kept_flag h keys (s.requests.set j [])
  | scan process table =>
    cases hstep
    apply kept_drains h
    intro d hd key hkey
    rcases List.mem_append.mp hd with hd | hd
    · exact h.drained d hd key hkey
    · rw [List.mem_singleton.mp hd] at hkey
      obtain ⟨⟨key, row⟩, hrow, rfl⟩ := List.mem_map.mp (mem_of_mem_take hkey)
      obtain ⟨hrow, hfilter⟩ := Dict.mem_filter.mp (Dict.get?_eq_some_iff.mpr hrow)
      rw [and_eq_true, decide_eq_true_eq, decide_eq_true_eq] at hfilter
      refine .inl ?_
      rw [Stops.status, hrow, map_some, hfilter.2]
  | apply j through =>
    simp only [stopStep] at hstep
    simp only [orderly] at hcond
    cases hd : s.drains[j]? with
    | none =>
      simp [hd] at hstep
    | some d =>
      cases hkeys : d.keys with
      | nil =>
        simp only [hd, hkeys] at hstep
        cases hstep
      | cons key rest =>
        simp only [hd, hkeys, or_eq_true, List.all_eq_true, not_eq_true', decide_eq_true_eq] at hcond
        simp only [hd, hkeys] at hstep
        cases hstep
        have hdrained := h.drained d (mem_of_getElem? hd)
        rw [hkeys] at hdrained
        have hrest : StopKept s { s with drains := s.drains.set j { d with keys := rest } } := by
          apply kept_drains h
          intro d' hd' key' hkey'
          rcases mem_or_eq_of_mem_set hd' with hd' | rfl
          · exact h.drained d' hd' key' hkey'
          · exact hdrained key' (mem_cons_of_mem _ hkey')
        apply hrest.trans
        apply kept_apply hrest.inv (hrest.flagged key (hdrained key List.mem_cons_self)) through
        apply hcond.imp_right
        intro hall c hc hckey
        exact (hall c hc).resolve_left (not_not_intro hckey)
  | restart process =>
    cases hstep
    apply kept_restart h process
    intro c hc hprocess hmay
    have hall := List.all_eq_true.mp hcond c hc
    rw [decide_eq_false hprocess, hmay, Bool.not_true, Bool.false_or, Bool.false_or, decide_eq_true_eq] at hall
    exact hall

theorem stopInv_initial : StopInv {} := by
  refine ⟨nodup_nil, ?_, ?_, ?_, ?_⟩
  · exact fun c hc => absurd hc not_mem_nil
  · exact fun c hc => absurd hc not_mem_nil
  · exact fun d hd => absurd hd not_mem_nil
  · exact nofun

theorem kept_run {t : Stops} {events : List StopEvent} (h : StopInv s)
    (hcond : Along stopStep (fun s e => orderly s e = true) s events) (hrun : run stopStep s events = some t) :
    StopKept s t := by
  apply run_invariant_along (I := fun u => StopKept s u) _ (.refl h) hcond hrun
  exact fun u e u' hu he hstep => hu.trans (kept_step hu.inv he hstep)

theorem authoritative_of_kept {t : Stops} (h : StopKept s t) : Authoritative s t := by
  refine ⟨?_, ?_⟩
  · intro key hkey
    exact (h.flagged key (.inl hkey)).imp_right And.left
  · intro key hkey hcancelled
    rcases h.ended key (.inl hkey) with hnext | ⟨hnext, -⟩
    · simp [hnext] at hcancelled
    · simp [hnext] at hcancelled

theorem sparesSettled_flag {j : Nat} (hstep : stopStep s (.flag j) = some s') : SparesSettled s s' := by
  obtain ⟨keys, -, rfl⟩ := Option.map_eq_some_iff.mp hstep
  intro key status hkey hsettled
  have hnot : status ≠ .running := by
    rintro rfl
    revert hsettled
    decide
  show ((flagged s.runs keys).get? key).map (·.status) = some status
  rw [status_flagged, show (s.runs.get? key).map (·.status) = some status from hkey, map_some,
    if_neg fun hrunning => hnot hrunning.2]

/-- In an orderly run a flagged run is only ever cancelled and a success stays one, and no stop request
touches a run that has come to its end. -/
theorem stop_is_authoritative {front back : List StopEvent} {u t : Stops}
    (hcond : Along stopStep (fun s e => orderly s e = true) {} (front ++ back))
    (hfront : run stopStep {} front = some u) (hback : run stopStep u back = some t) :
    Authoritative u t ∧ ∀ j t', stopStep u (.flag j) = some t' → SparesSettled u t' := by
  obtain ⟨hcondFront, hcondBack⟩ := along_append.mp hcond
  have hinv := (kept_run stopInv_initial hcondFront hfront).inv
  exact ⟨authoritative_of_kept (kept_run hinv (hcondBack u hfront) hback), fun _ _ => sparesSettled_flag⟩

def startWorkflow : List StopEvent :=
  [.spawn .executeWorkflow 0 "run" "workflow", .move 0 .enter, .move 0 (.add true)]

/-- A run is flagged as its walk ends; the drain cancels it before its outcome is written. -/
theorem stopped_at_the_end :
    ∃ u t, run stopStep {} (startWorkflow ++ [.ask .workflowRuns "workflow" none, .flag 0]) = some u ∧
      run stopStep u [.scan 0 .workflowRuns, .move 0 (.outcome .success false), .apply 0 true,
        .move 0 (.close true)] = some t ∧
      (Authoritative u t ∧ ∀ j t', stopStep u (.flag j) = some t' → SparesSettled u t') ∧
      t.status ⟨.workflowRuns, "run"⟩ = some .cancelled := by
  have hfront : ((run stopStep {} (startWorkflow ++ [.ask .workflowRuns "workflow" none, .flag 0])).bind
      fun u => (run stopStep u [.scan 0 .workflowRuns, .move 0 (.outcome .success false), .apply 0 true,
        .move 0 (.close true)]).map fun t => t.status ⟨.workflowRuns, "run"⟩) = some (some .cancelled) := by
    rfl
  obtain ⟨u, hu, hrest⟩ := Option.bind_eq_some_iff.mp hfront
  obtain ⟨t, ht, hstatus⟩ := Option.map_eq_some_iff.mp hrest
  exact ⟨u, t, hu, ht, stop_is_authoritative (by decide) hu ht, hstatus⟩

def recordSuccess : List StopEvent :=
  [.spawn .interactiveWorkflow 0 "run" "workflow", .move 0 (.add true), .move 0 (.outcome .success false),
    .move 0 (.record true)]

/-- The turn of the client is cancelled before the driver returns, and the success is rewritten. -/
theorem success_rewritten :
    ∃ u t, run stopStep {} recordSuccess = some u ∧
      run stopStep u [.move 0 .cancel, .move 0 (.close true)] = some t ∧ ¬ Authoritative u t := by
  have htrace : ((run stopStep {} recordSuccess).bind fun u =>
      (run stopStep u [.move 0 .cancel, .move 0 (.close true)]).map fun t =>
        (u.status ⟨.workflowRuns, "run"⟩, t.status ⟨.workflowRuns, "run"⟩)) =
          some (some .success, some .cancelled) := by
    rfl
  obtain ⟨u, hu, hrest⟩ := Option.bind_eq_some_iff.mp htrace
  obtain ⟨t, ht, hstatus⟩ := Option.map_eq_some_iff.mp hrest
  rw [Prod.mk.injEq] at hstatus
  exact ⟨u, t, hu, ht, fun h => h.history _ hstatus.1 hstatus.2⟩

end OpenAgent.Stopping
