import OpenAgent.Runtime.Moves

/-!
# What the steps of a graph's life can do

The steps of preparations, of closings and of the three calls that begin them, read backwards.
-/

namespace OpenAgent

open Lib

variable {D P : Type}

namespace Runtime

/-! ### Preparing and closing -/

/-- What a step of the preparation of the graph `g`, which is `graph`, makes of a runtime. -/
inductive PrepareMove (s : Runtime D P) (g : Nat) (graph : Graph) : Runtime D P → Prop
  | unbound (started : List Nat) (hphase : graph.preparation = .building started) :
      PrepareMove s g graph
        (unwind { s with instances := s.instances ++ [Instance.started g] } g graph started)
  | registered (started ids : List Nat) (catalog : Catalog) (capabilities : List CapabilityContribution)
      (hphase : graph.preparation = .building started)
      (hcatalog : s.catalog.registerModule graph.generation capabilities = (ids, catalog, true)) :
      PrepareMove s g graph (setGraph { s with
        instances := s.instances ++ [Instance.started g]
        catalog } g { graph with
          registered := graph.registered ++ ids
          preparation := .building (started ++ [s.instances.length]) })
  | unregistered (started ids : List Nat) (catalog : Catalog)
      (capabilities : List CapabilityContribution) (hphase : graph.preparation = .building started)
      (hcatalog : s.catalog.registerModule graph.generation capabilities = (ids, catalog, false)) :
      PrepareMove s g graph (unwind { s with
        instances := s.instances ++ [Instance.started g]
        catalog } g { graph with registered := graph.registered ++ ids } started)
  | raised (started : List Nat) (hphase : graph.preparation = .building started) :
      PrepareMove s g graph (s.unwind g graph started)
  | unwound (hphase : graph.preparation = .unwinding []) :
      PrepareMove s g graph (s.setGraph g { graph with preparation := .failed })
  | closed (x : Nat) (rest : List Nat) (hphase : graph.preparation = .unwinding (x :: rest)) :
      PrepareMove s g graph ((s.closeInstance x).setGraph g { graph with preparation := .unwinding rest })
  | aborted (rest : List Nat) (hphase : graph.preparation = .unwinding rest) :
      PrepareMove s g graph (s.setGraph g { graph with preparation := .failed })
  | done (started : List Nat) (hphase : graph.preparation = .building started) :
      PrepareMove s g graph
        (s.setGraph g { graph with preparation := .ready, instances := started, drained := true })

variable {s s' : Runtime D P}

theorem prepareStep_moves {g : Nat} {a : PrepareAction} (h : s.prepareStep g a = some s') :
    ∃ graph, s.graphs[g]? = some graph ∧ PrepareMove s g graph s' := by
  cases a with
  | «instance» bound capabilities =>
    rw [prepareStep, prepareInstance] at h
    split at h
    · cases h
    rename_i graph hgraph
    refine ⟨graph, hgraph, ?_⟩
    split at h
    · rename_i started hphase
      dsimp only at h
      split at h
      · cases h
        exact .unbound started hphase
      split at h
      · rename_i hregistered
        cases h
        exact .registered started _ _ capabilities hphase (by rw [← hregistered])
      · rename_i hregistered
        cases h
        exact .unregistered started _ _ capabilities hphase
          (by rw [← Bool.eq_false_iff.mpr hregistered])
    · cases h
  | fail =>
    rw [prepareStep, prepareFail] at h
    split at h
    · cases h
    rename_i graph hgraph
    refine ⟨graph, hgraph, ?_⟩
    split at h
    · rename_i started hphase
      cases h
      exact .raised started hphase
    · cases h
  | unwind =>
    rw [prepareStep, prepareUnwind] at h
    split at h
    · cases h
    rename_i graph hgraph
    refine ⟨graph, hgraph, ?_⟩
    split at h
    · rename_i hphase
      cases h
      exact .unwound hphase
    · rename_i x rest hphase
      cases h
      exact .closed x rest hphase
    · cases h
  | abort =>
    rw [prepareStep, prepareAbort] at h
    split at h
    · cases h
    rename_i graph hgraph
    refine ⟨graph, hgraph, ?_⟩
    split at h
    · rename_i rest hphase
      cases h
      exact .aborted rest hphase
    · cases h
  | done =>
    rw [prepareStep, prepareDone] at h
    split at h
    · cases h
    rename_i graph hgraph
    refine ⟨graph, hgraph, ?_⟩
    split at h
    · rename_i started hphase
      cases h
      exact .done started hphase
    · cases h

/-- What a step of the closing `c`, which is `closer`, makes of a runtime. -/
inductive CloserMove (s : Runtime D P) (c : Nat) (closer : Closer) : Runtime D P → Prop
  | closed (x : Nat) (rest : List Nat) (hphase : closer.phase = .closing (x :: rest)) :
      CloserMove s c closer ((s.closeInstance x).setCloser c { closer with phase := .closing rest })
  | finished (hphase : closer.phase = .closing []) :
      CloserMove s c closer (setCloser { s with
        catalog := s.catalog.revokeGeneration (s.generationOf closer.graph)
        retiredGraphs := s.retiredGraphs.pop (s.generationOf closer.graph) } c
        { closer with phase := .finished })
  | aborted (rest : List Nat) (hphase : closer.phase = .closing rest) :
      CloserMove s c closer (s.setCloser c { closer with phase := .aborted })

theorem closingStep_moves {c : Nat} {a : CloserAction} (h : s.closingStep c a = some s') :
    ∃ closer, s.closers[c]? = some closer ∧ CloserMove s c closer s' := by
  cases a with
  | step =>
    rw [closingStep, closerStep] at h
    split at h
    · cases h
    rename_i closer hcloser
    refine ⟨closer, hcloser, ?_⟩
    split at h
    · rename_i x rest hphase
      cases h
      exact .closed x rest hphase
    · rename_i hphase
      cases h
      exact .finished hphase
    · cases h
  | abort =>
    rw [closingStep, closerAbort] at h
    split at h
    · cases h
    rename_i closer hcloser
    refine ⟨closer, hcloser, ?_⟩
    split at h
    · rename_i rest hphase
      cases h
      exact .aborted rest hphase
    · cases h

/-! ### Reconfiguring -/

/-- What a step of the reconfiguration `k`, which is `call`, makes of a runtime. -/
inductive ReconfigureMove (s : Runtime D P) (k : Nat) (call : Reconfigure) : Runtime D P → Prop
  | rejected (hphase : call.phase = .waiting ∨ call.phase = .preflight) :
      ReconfigureMove s k call (s.setReconfigure k call .lost)
  | checked (g : Nat) (hphase : call.phase = .waiting) (hactive : s.activeGraph = some g)
      (hexpected : s.generationOf g = call.expected) (hadvances : call.expected < call.generation)
      (hadmits : s.admits = true) :
      ReconfigureMove s k call (s.setReconfigure k call .preflight)
  | began (hphase : call.phase = .preflight) :
      ReconfigureMove s k call
        ((s.beginPreparation call.generation).setReconfigure k call (.preparing s.graphs.length))
  | unprepared (g : Nat) (graph : Graph) (hphase : call.phase = .preparing g)
      (hgraph : s.graphs[g]? = some graph) (hfailed : graph.preparation = .failed) :
      ReconfigureMove s k call (s.setReconfigure k call .lost)
  | losing (g : Nat) (graph : Graph) (hphase : call.phase = .preparing g)
      (hgraph : s.graphs[g]? = some graph) (hready : graph.preparation = .ready)
      (hfree : s.lifecycle = none) (hexpected : s.expectedGraph call.expected = none) :
      ReconfigureMove s k call (setReconfigure
        (beginClose { s with lifecycle := some (.reconfigure k) } g) k call (.losing g s.closers.length))
  | swapped (g old : Nat) (graph : Graph) (hphase : call.phase = .preparing g)
      (hgraph : s.graphs[g]? = some graph) (hready : graph.preparation = .ready)
      (hfree : s.lifecycle = none) (hactive : s.activeGraph = some old)
      (hexpected : s.generationOf old = call.expected) :
      ReconfigureMove s k call (setReconfigure { s with
        graphs := s.graphs.modify old Graph.retired
        retiredGraphs := s.retiredGraphs.set (s.generationOf old) old
        activeGraph := some g
        catalog := s.catalog.activateGeneration (some call.generation) } k call (.draining g old))
  | lost (g c : Nat) (hphase : call.phase = .losing g c)
      (hcloser : s.closerPhase c = some .finished ∨ s.closerPhase c = some .aborted) :
      ReconfigureMove s k call (setReconfigure { s with lifecycle := none } k call .lost)
  | undrained (g old : Nat) (hphase : call.phase = .draining g old) :
      ReconfigureMove s k call (s.setReconfigure k call (.won true))
  | forced (g old : Nat) (hphase : call.phase = .draining g old) :
      ReconfigureMove s k call
        ((s.cancelTasks (s.tasksOn old)).setReconfigure k call (.gathering g old (s.tasksOn old)))
  | drained (g old : Nat) (hphase : call.phase = .draining g old) :
      ReconfigureMove s k call (s.setReconfigure k call (.emptying g old))
  | gathered (g old : Nat) (tasks : List Nat) (hphase : call.phase = .gathering g old tasks)
      (hdone : tasks.all s.taskDone = true) :
      ReconfigureMove s k call
        ((s.beginClose old).setReconfigure k call (.closing g old s.closers.length))
  | emptied (g old : Nat) (hphase : call.phase = .emptying g old)
      (hdrained : s.graphs[old]?.any Graph.drained = true) :
      ReconfigureMove s k call
        ((s.beginClose old).setReconfigure k call (.closing g old s.closers.length))
  | closed (g old c : Nat) (errors : Bool) (hphase : call.phase = .closing g old c)
      (hcloser : s.closerPhase c = some .finished ∨ s.closerPhase c = some .aborted) :
      ReconfigureMove s k call (s.setReconfigure k call (.won errors))
  | abandoned (g : Nat) (graph : Graph) (hphase : call.phase = .preparing g)
      (hgraph : s.graphs[g]? = some graph) (hready : graph.preparation = .ready) :
      ReconfigureMove s k call (s.setReconfigure k call .lost)
  | aborted (g old : Nat) (hphase : call.phase = .draining g old ∨ call.phase = .emptying g old) :
      ReconfigureMove s k call (s.setReconfigure k call (.won true))
  | ungathered (g old : Nat) (tasks : List Nat) (hphase : call.phase = .gathering g old tasks) :
      ReconfigureMove s k call ((s.cancelTasks tasks).setReconfigure k call (.won true))

theorem expectedGraph_eq_some {expected g : Nat} :
    s.expectedGraph expected = some g ↔ s.activeGraph = some g ∧ s.generationOf g = expected := by
  simp [expectedGraph, Option.filter_eq_some_iff]

theorem reconfigureStep_moves {k : Nat} {a : ReconfigureAction} (h : s.reconfigureStep k a = some s') :
    ∃ call, s.reconfigures[k]? = some call ∧ ReconfigureMove s k call s' := by
  cases a with
  | check resolves =>
    rw [reconfigureStep, reconfigureCheck] at h
    split at h
    · cases h
    rename_i call hcall
    refine ⟨call, hcall, ?_⟩
    split at h
    · rename_i hphase
      split at h
      · cases h
      split at h
      · rename_i hpasses
        simp only [Bool.and_eq_true, decide_eq_true_eq] at hpasses
        obtain ⟨⟨⟨hadmits, hsome⟩, hadvances⟩, -⟩ := hpasses
        obtain ⟨g, hg⟩ := Option.isSome_iff_exists.mp hsome
        obtain ⟨hactive, hexpected⟩ := expectedGraph_eq_some.mp hg
        cases h
        exact .checked g hphase hactive hexpected hadvances hadmits
      · cases h
        exact .rejected (.inl hphase)
    · cases h
  | preflight passes =>
    rw [reconfigureStep, reconfigurePreflight] at h
    split at h
    · cases h
    rename_i call hcall
    refine ⟨call, hcall, ?_⟩
    split at h
    · rename_i hphase
      split at h
      · cases h
        exact .began hphase
      · cases h
        exact .rejected (.inr hphase)
    · cases h
  | swap =>
    rw [reconfigureStep, reconfigureSwap] at h
    split at h
    · cases h
    rename_i call hcall
    refine ⟨call, hcall, ?_⟩
    split at h
    · rename_i g hphase
      split at h
      · rename_i hfailed
        obtain ⟨graph, hgraph, hfailed⟩ := Option.map_eq_some_iff.mp hfailed
        cases h
        exact .unprepared g graph hphase hgraph hfailed
      · rename_i hready
        obtain ⟨graph, hgraph, hready⟩ := Option.map_eq_some_iff.mp hready
        split at h
        · cases h
        rename_i hfree
        rw [ne_eq, not_not] at hfree
        split at h
        · rename_i hexpected
          cases h
          exact .losing g graph hphase hgraph hready hfree hexpected
        · rename_i old hold
          obtain ⟨hactive, hexpected⟩ := expectedGraph_eq_some.mp hold
          cases h
          exact .swapped g old graph hphase hgraph hready hfree hactive hexpected
      · cases h
    · cases h
  | lost =>
    rw [reconfigureStep, reconfigureLost] at h
    split at h
    · cases h
    rename_i call hcall
    refine ⟨call, hcall, ?_⟩
    split at h
    · rename_i g c hphase
      split at h
      · rename_i hcloser
        cases h
        exact .lost g c hphase (.inl hcloser)
      · rename_i hcloser
        cases h
        exact .lost g c hphase (.inr hcloser)
      · cases h
    · cases h
  | drain drains =>
    rw [reconfigureStep, reconfigureDrain] at h
    split at h
    · cases h
    rename_i call hcall
    refine ⟨call, hcall, ?_⟩
    split at h
    · rename_i g old hphase
      split at h
      · cases h
        exact .undrained g old hphase
      split at h
      · cases h
        exact .forced g old hphase
      · cases h
        exact .drained g old hphase
    · cases h
  | empty =>
    rw [reconfigureStep, reconfigureEmpty] at h
    split at h
    · cases h
    rename_i call hcall
    refine ⟨call, hcall, ?_⟩
    split at h
    · rename_i g old tasks hphase
      split at h
      · rename_i hdone
        cases h
        exact .gathered g old tasks hphase hdone
      · cases h
    · rename_i g old hphase
      split at h
      · rename_i hdrained
        cases h
        exact .emptied g old hphase hdrained
      · cases h
    · cases h
  | closed errors =>
    rw [reconfigureStep, reconfigureClosed] at h
    split at h
    · cases h
    rename_i call hcall
    refine ⟨call, hcall, ?_⟩
    split at h
    · rename_i g old c hphase
      split at h
      · rename_i hcloser
        cases h
        exact .closed g old c errors hphase (.inl hcloser)
      · rename_i hcloser
        cases h
        exact .closed g old c true hphase (.inr hcloser)
      · cases h
    · cases h
  | abort =>
    rw [reconfigureStep, reconfigureAbort] at h
    split at h
    · cases h
    rename_i call hcall
    refine ⟨call, hcall, ?_⟩
    split at h
    · rename_i hphase
      cases h
      exact .rejected (.inl hphase)
    · rename_i hphase
      cases h
      exact .rejected (.inr hphase)
    · rename_i g hphase
      split at h
      · rename_i hready
        obtain ⟨graph, hgraph, hready⟩ := Option.map_eq_some_iff.mp hready
        cases h
        exact .abandoned g graph hphase hgraph hready
      · cases h
    · rename_i g old hphase
      cases h
      exact .aborted g old (.inl hphase)
    · rename_i g old hphase
      cases h
      exact .aborted g old (.inr hphase)
    · rename_i g old tasks hphase
      cases h
      exact .ungathered g old tasks hphase
    · cases h

/-! ### Starting -/

variable [DecidableEq D]

/-- What a step of the start `i`, which is at `phase`, makes of a runtime. -/
inductive StartMove (env : Environment D) (s : Runtime D P) (i : Nat) (phase : StartPhase) :
    Runtime D P → Prop
  | rejected (hphase : phase = .waiting) : StartMove env s i phase (s.setStart i .ended)
  | unrecovered (ledger : Ledger D P) (hphase : phase = .waiting) (hfree : s.lifecycle = none)
      (hidle : s.started = false) (hopen : s.closing = false)
      (hledger : Store.Reaches env.fingerprint s.ledger ledger) :
      StartMove env s i phase (startFail { s with ledger := ledger, lifecycle := some (.start i) } i)
  | began (ledger : Ledger D P) (hphase : phase = .waiting) (hfree : s.lifecycle = none)
      (hidle : s.started = false) (hopen : s.closing = false)
      (hledger : Store.Reaches env.fingerprint s.ledger ledger) :
      StartMove env s i phase (setStart (beginPreparation
        { s with ledger := ledger, lifecycle := some (.start i) } s.initialGeneration) i
        (.preparing s.graphs.length))
  | prepared (g : Nat) (graph : Graph) (hphase : phase = .preparing g)
      (hgraph : s.graphs[g]? = some graph) (hready : graph.preparation = .ready) :
      StartMove env s i phase (setStart { s with
        activeGraph := some g
        catalog := s.catalog.activateGeneration (some (s.generationOf g)) } i (.starting g))
  | unprepared (g : Nat) (graph : Graph) (hphase : phase = .preparing g)
      (hgraph : s.graphs[g]? = some graph) (hfailed : graph.preparation = .failed) :
      StartMove env s i phase (s.startFail i)
  | raised (g : Nat) (hphase : phase = .starting g) : StartMove env s i phase (s.startFail i)
  | done (g : Nat) (hphase : phase = .starting g) :
      StartMove env s i phase (setStart { s with started := true, lifecycle := none } i .ended)
  | closed (c : Nat) (hphase : phase = .failing c) (hcloser : s.closerPhase c = some .finished) :
      StartMove env s i phase (setStart { s with activeGraph := none, lifecycle := none } i .ended)
  | aborted (c : Nat) (hphase : phase = .failing c) (hcloser : s.closerPhase c = some .aborted) :
      StartMove env s i phase (setStart { s with lifecycle := none } i .ended)

theorem recoverStore_reaches (env : Environment D) (s : Runtime D P) (attempt : Attempt D P)
    (further : List Moment) :
    Store.Reaches env.fingerprint s.ledger (s.recoverStore env attempt further).2 := by
  rw [recoverStore]
  split
  · exact Store.recover_reaches _ _ _
  · exact .refl

theorem startEnter_moves {env : Environment D} {i : Nat} {attempt : Attempt D P} {further : List Moment}
    {resolves : Bool} (h : s.startEnter env i attempt further resolves = some s') :
    ∃ phase, s.starts[i]? = some phase ∧ StartMove env s i phase s' := by
  rw [startEnter] at h
  split at h
  · rename_i hphase
    refine ⟨.waiting, hphase, ?_⟩
    split at h
    · cases h
    rename_i hfree
    rw [ne_eq, not_not] at hfree
    split at h
    · cases h
      exact .rejected rfl
    rename_i hidle
    simp only [Bool.or_eq_true, not_or, Bool.not_eq_true] at hidle
    have hledger := s.recoverStore_reaches env attempt further
    dsimp only at h
    split at h
    · cases h
      exact .began _ rfl hfree hidle.1 hidle.2 hledger
    · cases h
      exact .unrecovered _ rfl hfree hidle.1 hidle.2 hledger
  · cases h

theorem startStep_moves {env : Environment D} {i : Nat} {a : StartAction D P}
    (h : s.startStep env i a = some s') :
    ∃ phase, s.starts[i]? = some phase ∧ StartMove env s i phase s' := by
  cases a with
  | enter attempt further resolves => exact startEnter_moves h
  | prepared =>
    rw [startStep, startPrepared] at h
    split at h
    · rename_i g hphase
      refine ⟨_, hphase, ?_⟩
      split at h
      · rename_i hready
        obtain ⟨graph, hgraph, hready⟩ := Option.map_eq_some_iff.mp hready
        cases h
        exact .prepared g graph rfl hgraph hready
      · rename_i hfailed
        obtain ⟨graph, hgraph, hfailed⟩ := Option.map_eq_some_iff.mp hfailed
        cases h
        exact .unprepared g graph rfl hgraph hfailed
      · cases h
    · cases h
  | done =>
    rw [startStep, startDone] at h
    split at h
    · rename_i g hphase
      cases h
      exact ⟨_, hphase, .done g rfl⟩
    · cases h
  | raises =>
    rw [startStep, startRaise] at h
    split at h
    · rename_i g hphase
      cases h
      exact ⟨_, hphase, .raised g rfl⟩
    · cases h
  | closed =>
    rw [startStep, startClosed] at h
    split at h
    · rename_i c hphase
      refine ⟨_, hphase, ?_⟩
      split at h
      · rename_i hcloser
        cases h
        exact .closed c rfl hcloser
      · rename_i hcloser
        cases h
        exact .aborted c rfl hcloser
      · cases h
    · cases h

/-! ### Closing the runtime -/

/-- What a step of the close `j`, which is at `phase`, makes of a runtime. -/
inductive CloseMove (env : Environment D) (s : Runtime D P) (j : Nat) (phase : ClosePhase) :
    Runtime D P → Prop
  | rejected (hphase : phase = .waiting) : CloseMove env s j phase (s.setClose j .ended)
  | entered (hphase : phase = .waiting) (hfree : s.lifecycle = none) (hopen : s.closing = false) :
      CloseMove env s j phase (setClose (cancelTasks
        { s with lifecycle := some (.close j), closing := true } s.tasks.values) j
        (.gathering s.tasks.values))
  | gathered (tasks : List Nat) (hphase : phase = .gathering tasks)
      (hdone : tasks.all s.taskDone = true) :
      CloseMove env s j phase (s.setClose j (.leftovers s.tasks.keys))
  | interrupted (runId : String) (rest : List String) (ledger : Ledger D P)
      (hphase : phase = .leftovers (runId :: rest))
      (hledger : Store.Reaches env.fingerprint s.ledger ledger) :
      CloseMove env s j phase (setClose { s with ledger } j (.leftovers rest))
  | raised (runId : String) (rest : List String) (hphase : phase = .leftovers (runId :: rest)) :
      CloseMove env s j phase (setClose { s with lifecycle := none } j .ended)
  | snapshot (hphase : phase = .leftovers []) :
      CloseMove env s j phase (closeGraphs { s with tasks := .empty } j
        (s.activeGraph.toList ++ s.retiredGraphs.values))
  | next (c : Nat) (rest : List Nat) (hphase : phase = .closing c rest)
      (hcloser : s.closerPhase c = some .finished) :
      CloseMove env s j phase (s.closeGraphs j rest)
  | failed (c : Nat) (rest : List Nat) (hphase : phase = .closing c rest)
      (hcloser : s.closerPhase c = some .aborted) :
      CloseMove env s j phase (setClose { s with lifecycle := none } j .ended)
  | finished (hphase : phase = .modules) :
      CloseMove env s j phase (setClose { s with started := false, lifecycle := none } j .ended)
  | ungathered (tasks : List Nat) (hphase : phase = .gathering tasks) :
      CloseMove env s j phase (setClose (cancelTasks { s with lifecycle := none } tasks) j .ended)
  | aborted (hphase : (∃ runs, phase = .leftovers runs) ∨ phase = .modules) :
      CloseMove env s j phase (setClose { s with lifecycle := none } j .ended)

theorem closeStep_moves {env : Environment D} {j : Nat} {a : CloseAction D P}
    (h : s.closeStep env j a = some s') :
    ∃ phase, s.closes[j]? = some phase ∧ CloseMove env s j phase s' := by
  cases a with
  | enter =>
    rw [closeStep, closeEnter] at h
    split at h
    · rename_i hphase
      refine ⟨_, hphase, ?_⟩
      split at h
      · cases h
      rename_i hfree
      rw [ne_eq, not_not] at hfree
      split at h
      · cases h
        exact .rejected rfl
      · rename_i hopen
        cases h
        exact .entered rfl hfree (by simpa using hopen)
    · cases h
  | gathered =>
    rw [closeStep, closeGathered] at h
    split at h
    · rename_i tasks hphase
      refine ⟨_, hphase, ?_⟩
      split at h
      · rename_i hdone
        cases h
        exact .gathered tasks rfl hdone
      · cases h
    · cases h
  | leftover attempt =>
    rw [closeStep, closeLeftover] at h
    split at h
    · rename_i runId rest hphase
      refine ⟨_, hphase, ?_⟩
      split at h
      · rename_i record ledger hok
        cases h
        exact .interrupted runId rest ledger rfl (.single (.transition (Store.transaction_ok hok)))
      · rename_i error ledger hraised
        obtain rfl := Store.transaction_error hraised
        cases h
        exact .raised runId rest rfl
    · cases h
  | snapshot =>
    rw [closeStep, closeSnapshot] at h
    split at h
    · rename_i hphase
      cases h
      exact ⟨_, hphase, .snapshot rfl⟩
    · cases h
  | next =>
    rw [closeStep, closeNext] at h
    split at h
    · rename_i c rest hphase
      refine ⟨_, hphase, ?_⟩
      split at h
      · rename_i hcloser
        cases h
        exact .next c rest rfl hcloser
      · rename_i hcloser
        cases h
        exact .failed c rest rfl hcloser
      · cases h
    · cases h
  | finish =>
    rw [closeStep, closeFinish] at h
    split at h
    · rename_i hphase
      cases h
      exact ⟨_, hphase, .finished rfl⟩
    · cases h
  | abort =>
    rw [closeStep, closeAbort] at h
    split at h
    · rename_i hphase
      cases h
      exact ⟨_, hphase, .rejected rfl⟩
    · rename_i tasks hphase
      cases h
      exact ⟨_, hphase, .ungathered tasks rfl⟩
    · rename_i runs hphase
      cases h
      exact ⟨_, hphase, .aborted (.inl ⟨runs, rfl⟩)⟩
    · rename_i hphase
      cases h
      exact ⟨_, hphase, .aborted (.inr rfl)⟩
    · cases h

end Runtime

end OpenAgent
