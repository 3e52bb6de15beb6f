import OpenAgent.Lib.Place
import OpenAgent.Runtime.GraphMoves

/-!
# What the other steps leave alone

Only a step of a submission or of an execution task binds runs, takes or gives back leases and starts
executors. Every other step may write to the ledger, cancel tasks and drop them from the table, and
begin or interrupt submissions, and nothing more.
-/

namespace OpenAgent

open Lib List

variable {D P : Type}

/-- What a step outside the submissions makes of one: it begins waiting, it is told of a cancellation,
or it is withdrawn before it holds the lifecycle lock. -/
inductive Submit.Idle : Option (Submit D) → Option (Submit D) → Prop
  | absent : Idle none none
  | same (call : Submit D) (interrupted : Bool) (hkept : call.interrupted = true → interrupted = true) :
      Idle (some call) (some { call with interrupted })
  | withdrawn (call : Submit D) (hphase : call.phase = .waiting) :
      Idle (some call) (some { call with phase := .ended (.error .cancelled) none, interrupted := true })
  | fresh (call : Submit D) (hphase : call.phase = .waiting) : Idle none (some call)

theorem Submit.idle_refl : ∀ call : Option (Submit D), Submit.Idle call call
  | none => .absent
  | some call => .same call call.interrupted id

def Execution.Idle (e e' : Execution) : Prop := e' = e ∨ e' = { e with cancelled := true }

namespace Execution.Idle

variable {e e' : Execution}

theorem request (h : e.Idle e') : e'.request = e.request := by
  rcases h with rfl | rfl <;> rfl

theorem graph (h : e.Idle e') : e'.graph = e.graph := by
  rcases h with rfl | rfl <;> rfl

theorem phase (h : e.Idle e') : e'.phase = e.phase := by
  rcases h with rfl | rfl <;> rfl

theorem done (h : e.Idle e') : e'.done = e.done := by
  rcases h with rfl | rfl <;> rfl

theorem fresh (h : e.Idle e') : e'.fresh = e.fresh := by
  rcases h with rfl | rfl <;> rfl

end Execution.Idle

theorem Execution.idle_cancel (e : Execution) : e.Idle e.cancel := by
  unfold Execution.cancel
  split
  · exact .inl rfl
  · exact .inr rfl

def SameTasks (xs ys : List Execution) : Prop := ∀ t : Nat, Option.Rel Execution.Idle xs[t]? ys[t]?

theorem SameTasks.refl (xs : List Execution) : SameTasks xs xs := by
  intro t
  cases xs[t]? with
  | none => exact .none
  | some e => exact .some (.inl rfl)

theorem SameTasks.back {xs ys : List Execution} (h : SameTasks xs ys) {t : Nat} {e' : Execution}
    (he' : ys[t]? = some e') : ∃ e, xs[t]? = some e ∧ e.Idle e' := by
  have hrel := h t
  rw [he'] at hrel
  cases he : xs[t]? with
  | none =>
    simp [he] at hrel
  | some e =>
    rw [he] at hrel
    obtain ⟨hidle⟩ := hrel
    exact ⟨e, rfl, hidle⟩

theorem SameTasks.forth {xs ys : List Execution} (h : SameTasks xs ys) {t : Nat} {e : Execution}
    (he : xs[t]? = some e) : ∃ e', ys[t]? = some e' ∧ e.Idle e' := by
  have hrel := h t
  rw [he] at hrel
  cases he' : ys[t]? with
  | none =>
    simp [he'] at hrel
  | some e' =>
    rw [he'] at hrel
    obtain ⟨hidle⟩ := hrel
    exact ⟨e', rfl, hidle⟩

namespace Runtime

def leasesOf (s : Runtime D P) (g : Nat) : Nat := (s.graphs[g]?.map Graph.leases).getD 0

structure Frame [DecidableEq D] (env : Environment D) (s s' : Runtime D P) : Prop where
  ledger : Store.Reaches env.fingerprint s.ledger s'.ledger
  runGraphs : s'.runGraphs = s.runGraphs
  executed : s'.executed = s.executed
  tasks : ∀ r t, s'.tasks.get? r = some t → s.tasks.get? r = some t
  executions : SameTasks s.executions s'.executions
  submits : ∀ i : Nat, Submit.Idle s.submits[i]? s'.submits[i]?
  leases : ∀ g, s'.leasesOf g = s.leasesOf g
  apart : s'.submits = s.submits ∨ s'.ledger = s.ledger

theorem idle_cancelTasks (s : Runtime D P) (ts : List Nat) :
    SameTasks s.executions (s.cancelTasks ts).executions := by
  intro t
  rw [cancelTasks, getElem?_mapIdx]
  cases s.executions[t]? with
  | none => exact .none
  | some e =>
    refine .some ?_
    split
    · exact Execution.idle_cancel e
    · exact .inl rfl

theorem idle_submits (s : Runtime D P) (i : Nat) : Submit.Idle s.submits[i]? s.submits[i]? :=
  Submit.idle_refl _

theorem idle_submitCall (s : Runtime D P) (request : RunRequest) (context : ExecutionContext) (i : Nat) :
    Submit.Idle s.submits[i]? (s.submitCall request context).submits[i]? := by
  cases hcall : (s.submitCall request context).submits[i]? with
  | none =>
    have hle : (s.submitCall request context).submits.length ≤ i := List.getElem?_eq_none_iff.mp hcall
    simp only [submitCall, length_append, length_singleton] at hle
    rw [getElem?_eq_none (by omega)]
    exact .absent
  | some call =>
    rcases getElem?_append_singleton.mp hcall with hold | ⟨hi, hnew⟩
    · rw [hold]
      exact Submit.idle_refl _
    · rw [hi, getElem?_eq_none (Nat.le_refl _)]
      exact .fresh call (by rw [← hnew])

variable {s s' : Runtime D P}

theorem idle_setSubmit {j : Nat} {call call' : Submit D} (hcall : s.submits[j]? = some call)
    (hidle : Submit.Idle (some call) (some call')) (i : Nat) :
    Submit.Idle s.submits[i]? (s.submits.set j call')[i]? := by
  by_cases hij : j = i
  · subst hij
    rwa [hcall, (getElem?_set_eq_some hcall).mpr (.inl ⟨rfl, rfl⟩)]
  · rw [getElem?_set_ne hij]
    exact Submit.idle_refl _

theorem idle_submitInterrupt {j : Nat} (h : s.submitInterrupt j = some s') :
    (∃ submits, s' = { s with submits }) ∧ ∀ i : Nat, Submit.Idle s.submits[i]? s'.submits[i]? := by
  unfold submitInterrupt at h
  split at h
  · cases h
  rename_i call hcall
  split at h
  · rename_i hphase
    cases h
    exact ⟨⟨_, rfl⟩, idle_setSubmit hcall (.withdrawn call hphase)⟩
  · cases h
  · cases h
    exact ⟨⟨_, rfl⟩, idle_setSubmit hcall (.same call true fun _ => rfl)⟩

/-! ### Leases under an update of a graph -/

theorem leasesOf_setGraph {g : Nat} {graph graph' : Graph} (hgraph : s.graphs[g]? = some graph)
    (hsame : graph'.leases = graph.leases) (x : Nat) :
    (s.setGraph g graph').leasesOf x = s.leasesOf x := by
  rw [leasesOf, leasesOf, setGraph, map_getElem?_set hgraph hsame]

theorem leasesOf_beginPreparation (s : Runtime D P) (generation x : Nat) :
    (s.beginPreparation generation).leasesOf x = s.leasesOf x := by
  rw [leasesOf, leasesOf, beginPreparation]
  rcases Nat.lt_trichotomy x s.graphs.length with hlt | rfl | hgt
  · rw [getElem?_append_left hlt]
  · rw [getElem?_eq_none (Nat.le_refl _), getElem?_concat_length]
    rfl
  · rw [getElem?_eq_none (Nat.le_of_lt hgt), getElem?_eq_none (by simp; omega)]

theorem leasesOf_retired (s : Runtime D P) (old x : Nat) :
    ((s.graphs.modify old Graph.retired)[x]?.map Graph.leases).getD 0 = s.leasesOf x := by
  rw [map_getElem?_modify (g := Graph.retired) fun _ => rfl, leasesOf]

/-! ### Every other step -/

variable [DecidableEq D] {env : Environment D}

theorem Frame.of_eq (hledger : Store.Reaches env.fingerprint s.ledger s'.ledger)
    (hruns : s'.runGraphs = s.runGraphs) (hexecuted : s'.executed = s.executed)
    (htasks : s'.tasks = s.tasks) (hexecutions : s'.executions = s.executions)
    (hsubmits : s'.submits = s.submits) (hgraphs : ∀ g, s'.leasesOf g = s.leasesOf g) :
    Frame env s s' where
  ledger := hledger
  runGraphs := hruns
  executed := hexecuted
  tasks r t h := by rwa [htasks] at h
  executions := by
    rw [hexecutions]
    exact .refl _
  submits i := by
    rw [hsubmits]
    exact idle_submits s i
  leases := hgraphs
  apart := .inl hsubmits

theorem prepareMove_frame {g : Nat} {graph : Graph} (hgraph : s.graphs[g]? = some graph)
    (h : PrepareMove s g graph s') : Frame env s s' := by
  cases h with
  | unbound started hphase => exact .of_eq .refl rfl rfl rfl rfl rfl (leasesOf_setGraph hgraph rfl)
  | registered started ids catalog capabilities hphase hcatalog =>
    exact .of_eq .refl rfl rfl rfl rfl rfl (leasesOf_setGraph hgraph rfl)
  | unregistered started ids catalog capabilities hphase hcatalog =>
    exact .of_eq .refl rfl rfl rfl rfl rfl (leasesOf_setGraph hgraph rfl)
  | raised started hphase => exact .of_eq .refl rfl rfl rfl rfl rfl (leasesOf_setGraph hgraph rfl)
  | unwound hphase => exact .of_eq .refl rfl rfl rfl rfl rfl (leasesOf_setGraph hgraph rfl)
  | closed x rest hphase => exact .of_eq .refl rfl rfl rfl rfl rfl (leasesOf_setGraph hgraph rfl)
  | aborted rest hphase => exact .of_eq .refl rfl rfl rfl rfl rfl (leasesOf_setGraph hgraph rfl)
  | done started hphase => exact .of_eq .refl rfl rfl rfl rfl rfl (leasesOf_setGraph hgraph rfl)

theorem closerMove_frame {c : Nat} {closer : Closer} (h : CloserMove s c closer s') : Frame env s s' := by
  cases h <;> exact .of_eq .refl rfl rfl rfl rfl rfl fun _ => rfl

theorem startFail_frame {i : Nat} (h : Frame env s s') :
    Frame env s (s'.startFail i) := by
  unfold startFail
  split
  · exact ⟨h.ledger, h.runGraphs, h.executed, h.tasks, h.executions, h.submits, h.leases, h.apart⟩
  · exact ⟨h.ledger, h.runGraphs, h.executed, h.tasks, h.executions, h.submits, h.leases, h.apart⟩

theorem startMove_frame {i : Nat} {phase : StartPhase} (h : StartMove env s i phase s') : Frame env s s' := by
  have hsame : Frame env s s := .of_eq .refl rfl rfl rfl rfl rfl fun _ => rfl
  cases h with
  | unrecovered ledger _ _ _ _ hledger =>
    exact startFail_frame (.of_eq hledger rfl rfl rfl rfl rfl fun _ => rfl)
  | began ledger _ _ _ _ hledger =>
    exact .of_eq hledger rfl rfl rfl rfl rfl (leasesOf_beginPreparation s s.initialGeneration)
  | unprepared => exact startFail_frame hsame
  | raised => exact startFail_frame hsame
  | rejected | prepared | done | closed | aborted =>
    exact .of_eq .refl rfl rfl rfl rfl rfl fun _ => rfl

theorem reconfigureMove_frame {k : Nat} {call : Reconfigure} (h : ReconfigureMove s k call s')
    : Frame env s s' := by
  cases h with
  | began hphase =>
    exact .of_eq .refl rfl rfl rfl rfl rfl (leasesOf_beginPreparation s call.generation)
  | swapped g old => exact .of_eq .refl rfl rfl rfl rfl rfl (leasesOf_retired s old)
  | forced g old hphase =>
    exact ⟨.refl, rfl, rfl, fun _ _ h => h, idle_cancelTasks s _, idle_submits s, fun _ => rfl, .inl rfl⟩
  | ungathered g old tasks hphase =>
    exact ⟨.refl, rfl, rfl, fun _ _ h => h, idle_cancelTasks s _, idle_submits s, fun _ => rfl, .inl rfl⟩
  | rejected | checked | unprepared | losing | lost | undrained | drained | gathered | emptied | closed
  | abandoned | aborted => exact .of_eq .refl rfl rfl rfl rfl rfl fun _ => rfl

theorem closeGraphs_frame (j : Nat) (graphs : List Nat) (h : Frame env s s') :
    Frame env s (s'.closeGraphs j graphs) := by
  cases graphs with
  | nil => exact ⟨h.ledger, h.runGraphs, h.executed, h.tasks, h.executions, h.submits, h.leases, h.apart⟩
  | cons g rest => exact ⟨h.ledger, h.runGraphs, h.executed, h.tasks, h.executions, h.submits, h.leases, h.apart⟩

theorem closeMove_frame {j : Nat} {phase : ClosePhase} (h : CloseMove env s j phase s') : Frame env s s' := by
  cases h with
  | entered hphase hfree hopen =>
    exact ⟨.refl, rfl, rfl, fun _ _ h => h, idle_cancelTasks s _, idle_submits s, fun _ => rfl, .inl rfl⟩
  | interrupted runId rest ledger hphase hledger =>
    exact .of_eq hledger rfl rfl rfl rfl rfl fun _ => rfl
  | snapshot hphase =>
    refine closeGraphs_frame j _ ⟨.refl, rfl, rfl, ?_, .refl _, idle_submits s, fun _ => rfl, .inl rfl⟩
    exact nofun
  | next c rest hphase hcloser =>
    exact closeGraphs_frame j rest (.of_eq .refl rfl rfl rfl rfl rfl fun _ => rfl)
  | ungathered tasks hphase =>
    exact ⟨.refl, rfl, rfl, fun _ _ h => h, idle_cancelTasks s _, idle_submits s, fun _ => rfl, .inl rfl⟩
  | rejected | gathered | raised | failed | finished | aborted =>
    exact .of_eq .refl rfl rfl rfl rfl rfl fun _ => rfl

theorem cancelMove_frame {k : Nat} {call : Cancel} (h : CancelMove env s k call s') : Frame env s s' := by
  cases h with
  | moved phase ledger hledger => exact .of_eq hledger rfl rfl rfl rfl rfl fun _ => rfl
  | asked t ledger hledger htask =>
    exact ⟨hledger, rfl, rfl, fun _ _ h => h, idle_cancelTasks s _, idle_submits s, fun _ => rfl, .inl rfl⟩
  | settled ledger hphase hledger =>
    refine ⟨hledger, rfl, rfl, ?_, .refl _, idle_submits s, fun _ => rfl, .inl rfl⟩
    intro r t h
    rw [show (setCancel _ k call _).tasks = s.tasks.pop call.runId from rfl, Dict.get?_pop] at h
    split at h
    · cases h
    · exact h
  | passed t hphase =>
    exact ⟨.refl, rfl, rfl, fun _ _ h => h, idle_cancelTasks s _, idle_submits s, fun _ => rfl, .inl rfl⟩

theorem spawnMove_frame {n : Nat} {call : Spawn D} {x : SpawnAction D P} (h : SpawnMove env s n call x s')
    : Frame env s s' := by
  cases h with
  | submitted hphase =>
    exact ⟨.refl, rfl, rfl, fun _ _ h => h, .refl _, idle_submitCall s _ _, fun _ => rfl, .inr rfl⟩
  | interruptedSubmit i submitted hphase hsubmit =>
    obtain ⟨⟨submits, rfl⟩, hidle⟩ := idle_submitInterrupt hsubmit
    exact ⟨.refl, rfl, rfl, fun _ _ h => h, .refl _, hidle, fun _ => rfl, .inr rfl⟩
  | linked child ledger hphase hledger => exact .of_eq hledger rfl rfl rfl rfl rfl fun _ => rfl
  | interruptedGathering child t hx hphase =>
    exact ⟨.refl, rfl, rfl, fun _ _ h => h, idle_cancelTasks s _, idle_submits s, fun _ => rfl, .inl rfl⟩
  | untracked child ledger hphase hledger htask =>
    exact .of_eq hledger rfl rfl rfl rfl rfl fun _ => rfl
  | asked child t ledger hphase hledger htask =>
    exact ⟨hledger, rfl, rfl, fun _ _ h => h, idle_cancelTasks s _, idle_submits s, fun _ => rfl, .inl rfl⟩
  | settled child record attempt ledger hphase htransition =>
    exact .of_eq (.single (.transition htransition)) rfl rfl rfl rfl rfl fun _ => rfl
  | denied | cut | admitted | refused | unlinked | returned | lost | interruptedEarly
  | interruptedLinking | interruptedWaiting | interruptedHandler | unrequested | gathered | unsettled =>
    exact .of_eq .refl rfl rfl rfl rfl rfl fun _ => rfl

theorem callStep_frame (s : Runtime D P) (a : CallAction) : Frame env s (s.callStep a) := by
  cases a with
  | submit request context =>
    exact ⟨.refl, rfl, rfl, fun _ _ h => h, .refl _, idle_submitCall s _ _, fun _ => rfl, .inr rfl⟩
  | cancel | start | reconfigure | close | spawn =>
    exact .of_eq .refl rfl rfl rfl rfl rfl fun _ => rfl

theorem hostStep_frame (s : Runtime D P) (a : HostAction D P) : Frame env s (s.hostStep env a) := by
  cases a with
  | store publication moment further operation =>
    exact .of_eq (Store.perform_reaches s.ledger ⟨⟨env.fingerprint, publication⟩, moment, further, operation⟩) rfl rfl rfl rfl rfl fun _ => rfl
  | append attempt runId kind payload =>
    exact .of_eq (Store.transaction_reaches fun _ _ => .appendEvent) rfl rfl rfl rfl rfl fun _ => rfl
  | catalog op => exact .of_eq .refl rfl rfl rfl rfl rfl fun _ => rfl

theorem step_cases {a : Action D P} (h : s.step env a = some s') :
    (∃ i x call, a = .submit i x ∧ s.submits[i]? = some call ∧ SubmitMove env s i call s') ∨
      (∃ t x e, a = .execution t x ∧ s.executions[t]? = some e ∧ ExecutionMove env s t e s') ∨
      Frame env s s' := by
  cases a with
  | call a =>
    cases h
    exact .inr (.inr (callStep_frame s a))
  | submit i a =>
    obtain ⟨call, hcall, hmove⟩ := submitStep_moves h
    exact .inl ⟨i, a, call, rfl, hcall, hmove⟩
  | execution t a =>
    obtain ⟨e, he, hmove⟩ := executionStep_moves h
    exact .inr (.inl ⟨t, a, e, rfl, he, hmove⟩)
  | cancel k a =>
    obtain ⟨call, -, hmove⟩ := cancelStep_moves h
    exact .inr (.inr (cancelMove_frame hmove))
  | prepare g a =>
    obtain ⟨graph, hgraph, hmove⟩ := prepareStep_moves h
    exact .inr (.inr (prepareMove_frame hgraph hmove))
  | closer c a =>
    obtain ⟨closer, -, hmove⟩ := closingStep_moves h
    exact .inr (.inr (closerMove_frame hmove))
  | start i a =>
    obtain ⟨phase, -, hmove⟩ := startStep_moves h
    exact .inr (.inr (startMove_frame hmove))
  | reconfigure k a =>
    obtain ⟨call, -, hmove⟩ := reconfigureStep_moves h
    exact .inr (.inr (reconfigureMove_frame hmove))
  | close j a =>
    obtain ⟨phase, -, hmove⟩ := closeStep_moves h
    exact .inr (.inr (closeMove_frame hmove))
  | spawn n a =>
    obtain ⟨call, -, hmove⟩ := spawnStep_moves h
    exact .inr (.inr (spawnMove_frame hmove))
  | host a =>
    cases h
    exact .inr (.inr (hostStep_frame s a))

theorem step_reaches {a : Action D P} (h : s.step env a = some s') :
    Store.Reaches env.fingerprint s.ledger s'.ledger := by
  rcases step_cases h with ⟨i, x, call, -, -, hmove⟩ | ⟨t, x, e, -, -, hmove⟩ | hframe
  · cases hmove with
    | found g attempt record ledger hphase haccept => exact .single (.accept rfl haccept)
    | unleased g attempt record ledger error hphase haccept hdraining =>
      exact .single (.accept rfl haccept)
    | leased g attempt record ledger graph revision hphase haccept hacquire =>
      exact .single (.accept rfl haccept)
    | started g revision attempt record sequence payload ledger hphase happend =>
      exact .single (.appendEvent happend)
    | refused | entered | authorized | denied | unaccepted | rolledBack | withdrawn | interrupted =>
      exact .refl
  · cases hmove with
    | moved phase cancelled ledger hledger => exact hledger
    | finalized ledger hledger => exact hledger
    | dropped | launched => exact .refl
  · exact hframe.ledger

end Runtime

end OpenAgent
