import OpenAgent.Runtime.Sessions
import OpenAgent.Runtime.Frame
import OpenAgent.Storage.Successes

/-!
# Which steps record a success

A runtime writes the status `success` in one place, at the end of `_execute`. Every other step of its calls, and every
step of its surroundings that does not report a success itself, leaves the successes of the ledger as they are.
-/

namespace OpenAgent

open Lib

variable {D P : Type}

namespace Runtime

open Ledger (Gains)

variable {env : Environment D} {s s' : Runtime D P} {p : String → Prop}

theorem submitStep_gains [DecidableEq D] {i : Nat} {a : SubmitAction D P} (h : s.submitStep env i a = some s') :
    Gains p s.ledger s'.ledger := by
  obtain ⟨call, -, hmove⟩ := submitStep_moves h
  cases hmove with
  | found g attempt record ledger hphase haccept => exact Store.accept_gains haccept
  | unleased g attempt record ledger error hphase haccept hdraining => exact Store.accept_gains haccept
  | leased g attempt record ledger graph revision hphase haccept hacquire => exact Store.accept_gains haccept
  | started g revision attempt record sequence payload ledger hphase happend => exact Store.appendEvent_gains happend
  | refused | entered | authorized | denied | unaccepted | rolledBack | withdrawn | interrupted => exact .refl _

theorem cancelStep_gains {k : Nat} {a : CancelAction D P} (h : s.cancelStep env k a = some s') :
    Gains p s.ledger s'.ledger := by
  cases a with
  | look denied =>
    rw [cancelStep, cancelLook] at h
    repeat' split at h
    all_goals cases h
    all_goals exact .refl _
  | reserve attempt =>
    rw [cancelStep, cancelReserve] at h
    repeat' split at h
    all_goals cases h
    · rename_i hok _
      exact Store.reserveCancel_gains (Store.transaction_ok hok)
    · rename_i hok _
      exact Store.reserveCancel_gains (Store.transaction_ok hok)
    · rename_i hraised
      obtain rfl := Store.transaction_error hraised
      exact .refl _
  | read denied =>
    rw [cancelStep, cancelRead] at h
    repeat' split at h
    all_goals cases h
    all_goals exact .refl _
  | request attempt =>
    rw [cancelStep, cancelRequest] at h
    repeat' split at h
    all_goals cases h
    · rename_i hraised
      obtain rfl := Store.transaction_error hraised
      exact .refl _
    · rename_i hok _ _
      exact Store.requestCancel_gains (Store.transaction_ok hok)
    · rename_i hok _ _ _
      exact Store.requestCancel_gains (Store.transaction_ok hok)
  | gathered =>
    rw [cancelStep, cancelGathered] at h
    repeat' split at h
    all_goals cases h
    exact .refl _
  | settle attempt =>
    rw [cancelStep, cancelSettle] at h
    repeat' split at h
    all_goals cases h
    · rename_i hok
      exact Store.transition_gains_none (by decide) (Store.transaction_ok hok)
    · rename_i hraised
      obtain rfl := Store.transaction_error hraised
      exact .refl _
  | abort =>
    rw [cancelStep, cancelAbort] at h
    repeat' split at h
    all_goals cases h
    all_goals exact .refl _

theorem spawnStep_gains {n : Nat} {a : SpawnAction D P} (h : s.spawnStep env n a = some s') :
    Gains p s.ledger s'.ledger := by
  cases a with
  | authorized failure =>
    rw [spawnStep, spawnAuthorized] at h
    repeat' split at h
    all_goals cases h
    all_goals exact .refl _
  | admitted =>
    rw [spawnStep, spawnAdmitted] at h
    repeat' split at h
    all_goals cases h
    all_goals exact .refl _
  | link attempt =>
    rw [spawnStep, spawnLink] at h
    repeat' split at h
    all_goals cases h
    · rename_i hok
      exact Store.appendEvent_gains (Store.transaction_ok hok)
    · rename_i hraised
      obtain rfl := Store.transaction_error hraised
      exact .refl _
  | observe denied =>
    rw [spawnStep, spawnObserve] at h
    repeat' split at h
    all_goals cases h
    all_goals exact .refl _
  | interrupt =>
    rw [spawnStep, spawnInterrupt] at h
    split at h
    · cases h
    dsimp only at h
    split at h
    case h_2 =>
      obtain ⟨submitted, hsubmit, rfl⟩ := Option.map_eq_some_iff.mp h
      obtain ⟨⟨_, rfl⟩, -⟩ := idle_submitInterrupt hsubmit
      exact .refl _
    all_goals cases h
    all_goals exact .refl _
  | request attempt =>
    rw [spawnStep, spawnRequest] at h
    repeat' split at h
    all_goals cases h
    · rename_i hraised
      obtain rfl := Store.transaction_error hraised
      exact .refl _
    · rename_i hok _ _
      exact Store.requestCancel_gains (Store.transaction_ok hok)
    · rename_i hok _ _ _
      exact Store.requestCancel_gains (Store.transaction_ok hok)
  | gathered =>
    rw [spawnStep, spawnGathered] at h
    repeat' split at h
    all_goals cases h
    exact .refl _
  | settle attempt =>
    rw [spawnStep, spawnSettle] at h
    repeat' split at h
    all_goals cases h
    · rename_i hok
      exact Store.transition_gains_none (by decide) (Store.transaction_ok hok)
    · rename_i hraised
      obtain rfl := Store.transaction_error hraised
      exact .refl _

theorem recoverStore_gains (attempt : Attempt D P) (further : List Moment) :
    Gains p s.ledger (s.recoverStore env attempt further).2 := by
  rw [recoverStore]
  split
  · exact Store.recover_gains _ _ _
  · exact .refl _

theorem startFail_ledger (i : Nat) : (s.startFail i).ledger = s.ledger := by
  rw [startFail]
  split <;> rfl

theorem startStep_gains {i : Nat} {a : StartAction D P} (h : s.startStep env i a = some s') :
    Gains p s.ledger s'.ledger := by
  cases a with
  | enter attempt further resolves =>
    have hrecover : Gains p s.ledger (s.recoverStore env attempt further).2 := recoverStore_gains attempt further
    rw [startStep, startEnter] at h
    dsimp only at h
    repeat' split at h
    all_goals cases h
    · exact .refl _
    · exact hrecover
    · rw [startFail_ledger]
      exact hrecover
  | prepared =>
    rw [startStep, startPrepared] at h
    repeat' split at h
    all_goals cases h
    · exact .refl _
    · rw [startFail_ledger]
      exact .refl _
  | done =>
    rw [startStep, startDone] at h
    repeat' split at h
    all_goals cases h
    exact .refl _
  | raises =>
    rw [startStep, startRaise] at h
    repeat' split at h
    all_goals cases h
    rw [startFail_ledger]
    exact .refl _
  | closed =>
    rw [startStep, startClosed] at h
    repeat' split at h
    all_goals cases h
    all_goals exact .refl _

theorem closeGraphs_ledger (j : Nat) (graphs : List Nat) : (s.closeGraphs j graphs).ledger = s.ledger := by
  cases graphs <;> rfl

theorem closeStep_gains {j : Nat} {a : CloseAction D P} (h : s.closeStep env j a = some s') :
    Gains p s.ledger s'.ledger := by
  cases a with
  | enter =>
    rw [closeStep, closeEnter] at h
    repeat' split at h
    all_goals cases h
    all_goals exact .refl _
  | gathered =>
    rw [closeStep, closeGathered] at h
    repeat' split at h
    all_goals cases h
    exact .refl _
  | leftover attempt =>
    rw [closeStep, closeLeftover] at h
    repeat' split at h
    all_goals cases h
    · rename_i hok
      exact Store.transition_gains_none (by decide) (Store.transaction_ok hok)
    · rename_i hraised
      obtain rfl := Store.transaction_error hraised
      exact .refl _
  | snapshot =>
    rw [closeStep, closeSnapshot] at h
    repeat' split at h
    all_goals cases h
    rw [closeGraphs_ledger]
    exact .refl _
  | next =>
    rw [closeStep, closeNext] at h
    repeat' split at h
    all_goals cases h
    · rw [closeGraphs_ledger]
      exact .refl _
    · exact .refl _
  | finish =>
    rw [closeStep, closeFinish] at h
    repeat' split at h
    all_goals cases h
    exact .refl _
  | abort =>
    rw [closeStep, closeAbort] at h
    repeat' split at h
    all_goals cases h
    all_goals exact .refl _

theorem prepareStep_ledger {g : Nat} {a : PrepareAction} (h : s.prepareStep g a = some s') : s'.ledger = s.ledger := by
  obtain ⟨graph, -, hmove⟩ := prepareStep_moves h
  cases hmove <;> rfl

theorem closingStep_ledger {c : Nat} {a : CloserAction} (h : s.closingStep c a = some s') : s'.ledger = s.ledger := by
  obtain ⟨closer, -, hmove⟩ := closingStep_moves h
  cases hmove <;> rfl

theorem reconfigureStep_ledger {k : Nat} {a : ReconfigureAction} (h : s.reconfigureStep k a = some s') :
    s'.ledger = s.ledger := by
  obtain ⟨call, -, hmove⟩ := reconfigureStep_moves h
  cases hmove <;> rfl

theorem hostStep_gains [DecidableEq D] {a : HostAction D P} (ha : Serial.beside (.host a : Action D P) = true) :
    Gains p s.ledger (s.hostStep env a).ledger := by
  cases a with
  | store publication moment further operation =>
    refine (Store.perform_gains s.ledger ⟨⟨env.fingerprint, publication⟩, moment, further, operation⟩).weaken ?_
    intro runId hreports
    cases operation with
    | transition id status output =>
      obtain ⟨-, rfl⟩ := hreports
      exact absurd ha Bool.false_ne_true
    | _ => exact hreports.elim
  | append attempt runId kind payload => exact Store.transaction_gains fun _ _ => Store.appendEvent_gains
  | catalog op => exact .refl _

theorem beside_gains [DecidableEq D] {a : Action D P} (ha : Serial.beside a = true) (h : s.step env a = some s') :
    Gains p s.ledger s'.ledger := by
  cases a with
  | call a =>
    cases h
    cases a <;> exact .refl _
  | submit i a => exact submitStep_gains h
  | execution t a => exact absurd ha Bool.false_ne_true
  | cancel k a => exact cancelStep_gains h
  | prepare g a => exact .of_runs_eq (congrArg Ledger.runs (prepareStep_ledger h))
  | closer c a => exact .of_runs_eq (congrArg Ledger.runs (closingStep_ledger h))
  | start i a => exact startStep_gains h
  | reconfigure k a => exact .of_runs_eq (congrArg Ledger.runs (reconfigureStep_ledger h))
  | close j a => exact closeStep_gains h
  | spawn n a => exact spawnStep_gains h
  | host a =>
    cases h
    exact hostStep_gains ha

end Runtime

end OpenAgent
