import OpenAgent.Runtime.Ownership

/-!
# Where a graph stands

Only the preparations and closings of graphs and the calls `start`, `reconfigure` and `close` move a
graph on. A candidate belongs to one call and is neither active nor draining; the active graph is ready
and takes leases; a graph that is ready reports that it has drained exactly while it has no lease.
-/

namespace OpenAgent

open Lib Option

variable {D P : Type}

def Graph.stage (graph : Graph) : Graph := { graph with leases := 0, drained := false }

theorem Graph.stage_acquire {graph graph' : Graph} (h : graph.acquire = some graph') :
    graph'.stage = graph.stage := by
  unfold Graph.acquire at h
  split at h
  · cases h
  · cases h
    rfl

theorem Graph.stage_release (graph : Graph) : graph.release.stage = graph.stage := by
  unfold Graph.release
  split <;> rfl

namespace Runtime

def Grows {α : Type} (waiting : α → Prop) (xs ys : List α) : Prop :=
  ∃ added, ys = xs ++ added ∧ ∀ call ∈ added, waiting call

theorem Grows.refl {α : Type} {waiting : α → Prop} (xs : List α) : Grows waiting xs xs :=
  ⟨[], by simp, by simp⟩

theorem Grows.push {α : Type} {waiting : α → Prop} {call : α} (h : waiting call) (xs : List α) :
    Grows waiting xs (xs ++ [call]) := ⟨[call], rfl, by simpa using h⟩

theorem Grows.old {α : Type} {waiting : α → Prop} {xs ys : List α} (h : Grows waiting xs ys) {i : Nat}
    {call : α} (hcall : ys[i]? = some call) : xs[i]? = some call ∨ waiting call := by
  obtain ⟨added, rfl, hwaiting⟩ := h
  rw [List.getElem?_append] at hcall
  split at hcall
  · exact .inl hcall
  · exact .inr (hwaiting call (List.mem_of_getElem? hcall))

theorem Grows.bind {α β : Type} {waiting : α → Prop} {xs ys : List α} (h : Grows waiting xs ys)
    {f : α → Option β} (hf : ∀ call, waiting call → f call = none) (i : Nat) :
    ys[i]?.bind f = xs[i]?.bind f := by
  obtain ⟨added, rfl, hwaiting⟩ := h
  rw [List.getElem?_append]
  split
  · rfl
  rename_i hlt
  rw [List.getElem?_eq_none (Nat.le_of_not_lt hlt)]
  cases hnew : added[i - xs.length]? with
  | none => rfl
  | some call => exact hf call (hwaiting call (List.mem_of_getElem? hnew))

theorem Grows.any {α : Type} {waiting : α → Prop} {xs ys : List α} (h : Grows waiting xs ys)
    {p : α → Bool} (hp : ∀ call, waiting call → p call = false) (i : Nat) :
    ys[i]?.any p = xs[i]?.any p := by
  obtain ⟨added, rfl, hwaiting⟩ := h
  rw [List.getElem?_append]
  split
  · rfl
  rename_i hlt
  rw [List.getElem?_eq_none (Nat.le_of_not_lt hlt)]
  cases hnew : added[i - xs.length]? with
  | none => rfl
  | some call => exact hp call (hwaiting call (List.mem_of_getElem? hnew))

structure StageFrame (s s' : Runtime D P) : Prop where
  activeGraph : s'.activeGraph = s.activeGraph
  retiredGraphs : s'.retiredGraphs = s.retiredGraphs
  started : s'.started = s.started
  closing : s'.closing = s.closing
  graphs : ∀ g : Nat, s'.graphs[g]?.map Graph.stage = s.graphs[g]?.map Graph.stage
  reconfigures : Grows (fun call => call.phase = .waiting) s.reconfigures s'.reconfigures
  starts : Grows (fun phase => phase = .waiting) s.starts s'.starts
  closes : Grows (fun phase => phase = .waiting) s.closes s'.closes

structure GraphFrame (s s' : Runtime D P) : Prop extends StageFrame s s' where
  initialGeneration : s'.initialGeneration = s.initialGeneration
  instances : s'.instances = s.instances
  closers : s'.closers = s.closers

def stageView (s : Runtime D P) :=
  (s.activeGraph, s.retiredGraphs, s.started, s.closing, s.graphs, s.reconfigures, s.starts, s.closes)

def graphView (s : Runtime D P) := (s.stageView, s.initialGeneration, s.instances, s.closers)

variable {s s' : Runtime D P}

theorem StageFrame.same (h : s'.stageView = s.stageView) : StageFrame s s' := by
  simp only [stageView, Prod.mk.injEq] at h
  obtain ⟨hactive, hretired, hstarted, hclosing, hgraphs, hreconfigures, hstarts, hcloses⟩ := h
  exact ⟨hactive, hretired, hstarted, hclosing, fun g => by rw [hgraphs], hreconfigures ▸ .refl _,
    hstarts ▸ .refl _, hcloses ▸ .refl _⟩

theorem GraphFrame.same (h : s'.graphView = s.graphView) : GraphFrame s s' := by
  simp only [graphView, Prod.mk.injEq] at h
  exact ⟨.same h.1, h.2.1, h.2.2.1, h.2.2.2⟩

inductive GraphMove [DecidableEq D] (env : Environment D) (s s' : Runtime D P) : Prop
  | prepare (g : Nat) (graph : Graph) (hgraph : s.graphs[g]? = some graph)
      (hmove : PrepareMove s g graph s')
  | closer (c : Nat) (closer : Closer) (hcloser : s.closers[c]? = some closer)
      (hmove : CloserMove s c closer s')
  | start (i : Nat) (phase : StartPhase) (hphase : s.starts[i]? = some phase)
      (hmove : StartMove env s i phase s')
  | reconfigure (k : Nat) (call : Reconfigure) (hcall : s.reconfigures[k]? = some call)
      (hmove : ReconfigureMove s k call s')
  | close (j : Nat) (phase : ClosePhase) (hphase : s.closes[j]? = some phase)
      (hmove : CloseMove env s j phase s')

variable {env : Environment D}

theorem submitMove_graphFrame [DecidableEq D] {i : Nat} {call : Submit D} (h : SubmitMove env s i call s')
    : GraphFrame s s' := by
  cases h with
  | leased g attempt record ledger graph revision hphase haccept hacquire =>
    obtain ⟨before, hbefore, hgraph⟩ := Option.bind_eq_some_iff.mp hacquire
    exact ⟨⟨rfl, rfl, rfl, rfl, map_getElem?_set hbefore (Graph.stage_acquire hgraph), .refl _, .refl _,
      .refl _⟩, rfl, rfl, rfl⟩
  | rolledBack g revision record error hphase =>
    exact ⟨⟨rfl, rfl, rfl, rfl, map_getElem?_modify (g := Graph.release) Graph.stage_release, .refl _,
      .refl _, .refl _⟩, rfl, rfl, rfl⟩
  | refused | entered | authorized | denied | unaccepted | found | unleased | started | withdrawn
  | interrupted => exact .same rfl

theorem executionMove_graphFrame [DecidableEq D] {t : Nat} {e : Execution} (h : ExecutionMove env s t e s')
    : GraphFrame s s' := by
  cases h with
  | finalized ledger hledger hlive =>
    exact ⟨⟨rfl, rfl, rfl, rfl, map_getElem?_modify (g := Graph.release) Graph.stage_release, .refl _,
      .refl _, .refl _⟩, rfl, rfl, rfl⟩
  | dropped | moved | launched => exact .same rfl

theorem spawnMove_graphFrame [DecidableEq D] {n : Nat} {call : Spawn D} {x : SpawnAction D P}
    (h : SpawnMove env s n call x s') : GraphFrame s s' := by
  cases h with
  | interruptedSubmit i submitted hphase hsubmit =>
    obtain ⟨⟨submits, rfl⟩, -⟩ := idle_submitInterrupt hsubmit
    exact .same rfl
  | submitted | denied | cut | admitted | refused | linked | unlinked | returned | lost
  | interruptedEarly | interruptedLinking | interruptedWaiting | interruptedGathering
  | interruptedHandler | unrequested | untracked | asked | gathered | settled | unsettled =>
    exact .same rfl

theorem callStep_graphFrame (s : Runtime D P) (a : CallAction) : GraphFrame s (s.callStep a) := by
  cases a with
  | start => exact ⟨⟨rfl, rfl, rfl, rfl, fun _ => rfl, .refl _, .push (by rfl) s.starts, .refl _⟩, rfl, rfl, rfl⟩
  | reconfigure generation expected force =>
    exact ⟨⟨rfl, rfl, rfl, rfl, fun _ => rfl, .push (by rfl) s.reconfigures, .refl _, .refl _⟩, rfl, rfl,
      rfl⟩
  | close => exact ⟨⟨rfl, rfl, rfl, rfl, fun _ => rfl, .refl _, .refl _, .push (by rfl) s.closes⟩, rfl, rfl, rfl⟩
  | submit | cancel | spawn => exact .same rfl

structure Quiet [DecidableEq D] (env : Environment D) (s s' : Runtime D P) : Prop
    extends Frame env s s', GraphFrame s s' where
  allGraphs : s'.graphs = s.graphs
  lifecycle : s'.lifecycle = s.lifecycle

theorem step_kinds [DecidableEq D] {a : Action D P} (h : s.step env a = some s') :
    (∃ i call, s.submits[i]? = some call ∧ SubmitMove env s i call s') ∨
      (∃ t e, s.executions[t]? = some e ∧ ExecutionMove env s t e s') ∨
      GraphMove env s s' ∨ Quiet env s s' := by
  cases a with
  | call a =>
    cases h
    refine .inr (.inr (.inr ⟨callStep_frame s a, callStep_graphFrame s a, ?_, ?_⟩)) <;>
      cases a <;> rfl
  | submit i a =>
    obtain ⟨call, hcall, hmove⟩ := submitStep_moves h
    exact .inl ⟨i, call, hcall, hmove⟩
  | execution t a =>
    obtain ⟨e, he, hmove⟩ := executionStep_moves h
    exact .inr (.inl ⟨t, e, he, hmove⟩)
  | cancel k a =>
    obtain ⟨call, -, hmove⟩ := cancelStep_moves h
    refine .inr (.inr (.inr ⟨cancelMove_frame hmove, ?_, ?_, ?_⟩)) <;> cases hmove <;>
      first | rfl | exact .same rfl
  | prepare g a =>
    obtain ⟨graph, hgraph, hmove⟩ := prepareStep_moves h
    exact .inr (.inr (.inl (.prepare g graph hgraph hmove)))
  | closer c a =>
    obtain ⟨closer, hcloser, hmove⟩ := closingStep_moves h
    exact .inr (.inr (.inl (.closer c closer hcloser hmove)))
  | start i a =>
    obtain ⟨phase, hphase, hmove⟩ := startStep_moves h
    exact .inr (.inr (.inl (.start i phase hphase hmove)))
  | reconfigure k a =>
    obtain ⟨call, hcall, hmove⟩ := reconfigureStep_moves h
    exact .inr (.inr (.inl (.reconfigure k call hcall hmove)))
  | close j a =>
    obtain ⟨phase, hphase, hmove⟩ := closeStep_moves h
    exact .inr (.inr (.inl (.close j phase hphase hmove)))
  | spawn n a =>
    obtain ⟨call, -, hmove⟩ := spawnStep_moves h
    refine .inr (.inr (.inr ⟨spawnMove_frame hmove, spawnMove_graphFrame hmove, ?_, ?_⟩)) <;>
      cases hmove
    all_goals first
      | rfl
      | (rename_i i submitted hphase hsubmit
         obtain ⟨⟨submits, rfl⟩, -⟩ := idle_submitInterrupt hsubmit
         rfl)
  | host a =>
    cases h
    refine .inr (.inr (.inr ⟨hostStep_frame s a, ?_, ?_, ?_⟩)) <;> cases a <;>
      first | rfl | exact .same rfl

theorem step_graph_cases [DecidableEq D] {a : Action D P} (h : s.step env a = some s')
    : GraphMove env s s' ∨ GraphFrame s s' := by
  rcases step_kinds h with ⟨i, call, -, hmove⟩ | ⟨t, e, -, hmove⟩ | hmove | hquiet
  · exact .inr (submitMove_graphFrame hmove)
  · exact .inr (executionMove_graphFrame hmove)
  · exact .inl hmove
  · exact .inr hquiet.toGraphFrame

theorem GraphMove.frame [DecidableEq D] (h : GraphMove env s s') : Frame env s s' := by
  cases h with
  | prepare g graph hgraph hmove => exact prepareMove_frame hgraph hmove
  | closer c closer hcloser hmove => exact closerMove_frame hmove
  | start i phase hphase hmove => exact startMove_frame hmove
  | reconfigure k call hcall hmove => exact reconfigureMove_frame hmove
  | close j phase hphase hmove => exact closeMove_frame hmove

/-! ### Candidates -/

end Runtime

def StartPhase.candidate : StartPhase → Option Nat
  | .preparing g => some g
  | _ => none

def Reconfigure.candidate (call : Reconfigure) : Option Nat :=
  match call.phase with
  | .preparing g | .losing g _ => some g
  | _ => none

def Reconfigure.old (call : Reconfigure) : Option Nat :=
  match call.phase with
  | .draining _ o | .gathering _ o _ | .emptying _ o | .closing _ o _ => some o
  | _ => none

def Reconfigure.idle (call : Reconfigure) : Bool :=
  match call.phase with
  | .waiting | .lost => true
  | _ => false

namespace Runtime

def candidateOf (s : Runtime D P) : Holder → Option Nat
  | .start i => s.starts[i]?.bind StartPhase.candidate
  | .reconfigure k => s.reconfigures[k]?.bind Reconfigure.candidate
  | .submit _ | .close _ => none

structure Staged (s : Runtime D P) : Prop where
  active : ∀ g, s.activeGraph = some g →
    ∃ graph, s.graphs[g]? = some graph ∧ graph.preparation = .ready ∧ graph.draining = false
  retired : ∀ n g, s.retiredGraphs.get? n = some g →
    ∃ graph, s.graphs[g]? = some graph ∧ graph.preparation = .ready ∧ graph.draining = true ∧
      graph.generation = n
  below : ∀ g n, s.activeGraph = some g → s.retiredGraphs.get? n ≠ none → n < s.generationOf g
  candidate : ∀ h g, s.candidateOf h = some g → s.activeGraph ≠ some g ∧
    ∃ graph, s.graphs[g]? = some graph ∧ graph.draining = false
  unique : ∀ h h' g, s.candidateOf h = some g → s.candidateOf h' = some g → h = h'
  target : ∀ (k : Nat) call g, s.reconfigures[k]? = some call → call.candidate = some g →
    s.generationOf g = call.generation
  advances : ∀ (k : Nat) call, s.reconfigures[k]? = some call → call.idle = false →
    call.expected < call.generation
  old : ∀ (k : Nat) call o, s.reconfigures[k]? = some call → call.old = some o →
    ∃ graph, s.graphs[o]? = some graph ∧ graph.preparation = .ready ∧ graph.draining = true
  asleep : s.started = false → s.closing = false → (∀ n, s.retiredGraphs.get? n = none) ∧
    ∀ (k : Nat) call, s.reconfigures[k]? = some call → call.idle = true
  starting : ∀ i, s.locks (.start i) = true → s.started = false ∧ s.closing = false
  closed : ∀ j, s.locks (.close j) = true → s.closing = true

theorem staged_construct (ledger : Ledger D P) (catalog : Catalog) (initialGeneration : Nat)
    (ownsStore : Bool) : (construct ledger catalog initialGeneration ownsStore).Staged where
  active g h := by cases h
  retired n g h := by cases h
  below g n h := by cases h
  candidate h g hg := by cases h <;> cases hg
  unique h h' g hg := by cases h <;> cases hg
  target k call g h := by cases h
  advances k call h := by cases h
  old k call o h := by cases h
  asleep _ _ := ⟨fun _ => rfl, fun k call h => by cases h⟩
  starting i h := by cases h
  closed j h := by cases h

def SameStages (s s' : Runtime D P) : Prop :=
  ∀ g : Nat, s'.graphs[g]?.map Graph.stage = s.graphs[g]?.map Graph.stage

variable {s s' : Runtime D P}

theorem SameStages.forth (h : SameStages s s') {g : Nat} {graph : Graph}
    (hgraph : s.graphs[g]? = some graph) : ∃ graph', s'.graphs[g]? = some graph' ∧
      graph'.preparation = graph.preparation ∧ graph'.draining = graph.draining ∧
      graph'.generation = graph.generation ∧ graph'.instances = graph.instances ∧
      graph'.registered = graph.registered := by
  have hg := h g
  rw [hgraph, map_some] at hg
  obtain ⟨graph', hgraph', hstage⟩ := Option.map_eq_some_iff.mp hg
  simp only [Graph.stage, Graph.mk.injEq] at hstage
  obtain ⟨hgeneration, hpreparation, hinstances, hregistered, -, hdraining, -⟩ := hstage
  exact ⟨graph', hgraph', hpreparation, hdraining, hgeneration, hinstances, hregistered⟩

theorem SameStages.generationOf (h : SameStages s s') (g : Nat) :
    s'.generationOf g = s.generationOf g := by
  have hg := congrArg (fun o => (o.map Graph.generation).getD 0) (h g)
  simp only [map_map] at hg
  exact hg

theorem StageFrame.candidateOf (h : StageFrame s s') (holder : Holder) :
    s'.candidateOf holder = s.candidateOf holder := by
  cases holder with
  | submit i => rfl
  | close j => rfl
  | start i =>
    refine h.starts.bind ?_ i
    rintro phase rfl
    rfl
  | reconfigure k =>
    refine h.reconfigures.bind ?_ k
    intro call hwaiting
    rw [Reconfigure.candidate, hwaiting]

theorem Staged.of_frame (hs : s.Staged) (h : StageFrame s s') : s'.Staged := by
  have hsame : SameStages s s' := h.graphs
  refine ⟨?_, ?_, ?_, ?_, ?_, ?_, ?_, ?_, ?_, ?_, ?_⟩
  · intro g hactive
    rw [h.activeGraph] at hactive
    obtain ⟨graph, hgraph, hready, hdraining⟩ := hs.active g hactive
    obtain ⟨graph', hgraph', hp, hd, -⟩ := hsame.forth hgraph
    exact ⟨graph', hgraph', hp.trans hready, hd.trans hdraining⟩
  · intro n g hretired
    rw [h.retiredGraphs] at hretired
    obtain ⟨graph, hgraph, hready, hdraining, hgeneration⟩ := hs.retired n g hretired
    obtain ⟨graph', hgraph', hp, hd, hn, -⟩ := hsame.forth hgraph
    exact ⟨graph', hgraph', hp.trans hready, hd.trans hdraining, hn.trans hgeneration⟩
  · intro g n hactive hretired
    rw [h.activeGraph] at hactive
    rw [h.retiredGraphs] at hretired
    rw [hsame.generationOf]
    exact hs.below g n hactive hretired
  · intro holder g hcandidate
    rw [h.candidateOf] at hcandidate
    obtain ⟨hidle, graph, hgraph, hdraining⟩ := hs.candidate holder g hcandidate
    obtain ⟨graph', hgraph', -, hd, -⟩ := hsame.forth hgraph
    exact ⟨by rwa [h.activeGraph], graph', hgraph', hd.trans hdraining⟩
  · intro holder holder' g hcandidate hcandidate'
    rw [h.candidateOf] at hcandidate hcandidate'
    exact hs.unique holder holder' g hcandidate hcandidate'
  · intro k call g hcall hcandidate
    rw [hsame.generationOf]
    rcases h.reconfigures.old hcall with hold | hwaiting
    · exact hs.target k call g hold hcandidate
    · simp [Reconfigure.candidate, hwaiting] at hcandidate
  · intro k call hcall hidle
    rcases h.reconfigures.old hcall with hold | hwaiting
    · exact hs.advances k call hold hidle
    · simp [Reconfigure.idle, hwaiting] at hidle
  · intro k call o hcall ho
    rcases h.reconfigures.old hcall with hold | hwaiting
    · obtain ⟨graph, hgraph, hready, hdraining⟩ := hs.old k call o hold ho
      obtain ⟨graph', hgraph', hp, hd, -⟩ := hsame.forth hgraph
      exact ⟨graph', hgraph', hp.trans hready, hd.trans hdraining⟩
    · simp [Reconfigure.old, hwaiting] at ho
  · intro hstarted hclosing
    rw [h.started] at hstarted
    rw [h.closing] at hclosing
    obtain ⟨hretired, hidle⟩ := hs.asleep hstarted hclosing
    refine ⟨by rwa [h.retiredGraphs], ?_⟩
    intro k call hcall
    rcases h.reconfigures.old hcall with hold | hwaiting
    · exact hidle k call hold
    · rw [Reconfigure.idle, hwaiting]
  · intro i hlocks
    rw [h.started, h.closing]
    refine hs.starting i ?_
    rwa [Runtime.locks, h.starts.any (by rintro phase rfl; rfl)] at hlocks
  · intro j hlocks
    rw [h.closing]
    refine hs.closed j ?_
    rwa [Runtime.locks, h.closes.any (by rintro phase rfl; rfl)] at hlocks

/-! ### Steps of the life of graphs -/

namespace Staged

variable {s : Runtime D P}

variable {g i k : Nat}

theorem ne_of_ready {x : Nat} {graph : Graph} (hgraph : s.graphs[g]? = some graph)
    (hbusy : graph.preparation ≠ .ready)
    (hx : ∃ other, s.graphs[x]? = some other ∧ other.preparation = .ready) : g ≠ x := by
  rintro rfl
  obtain ⟨other, hother, hready⟩ := hx
  cases hgraph.symm.trans hother
  exact hbusy hready

theorem set_graph (hs : s.Staged) {graph graph' : Graph} (hgraph : s.graphs[g]? = some graph)
    (hbusy : graph.preparation ≠ .ready) (hdraining : graph'.draining = graph.draining)
    (hgeneration : graph'.generation = graph.generation) : (s.setGraph g graph').Staged := by
  have hkept : ∀ x, g ≠ x → (s.setGraph g graph').graphs[x]? = s.graphs[x]? :=
    fun x hx => List.getElem?_set_ne hx
  have hsize : ∀ x, (s.setGraph g graph').generationOf x = s.generationOf x := by
    intro x
    rw [generationOf, generationOf, setGraph, map_getElem?_set hgraph hgeneration]
  refine { hs with active := ?_, retired := ?_, below := ?_, candidate := ?_, target := ?_, old := ?_ }
  · intro x hactive
    obtain ⟨other, hother, hready, hd⟩ := hs.active x hactive
    exact ⟨other, (hkept x (ne_of_ready hgraph hbusy ⟨other, hother, hready⟩)).trans hother, hready, hd⟩
  · intro n x hretired
    obtain ⟨other, hother, hready, hd⟩ := hs.retired n x hretired
    exact ⟨other, (hkept x (ne_of_ready hgraph hbusy ⟨other, hother, hready⟩)).trans hother, hready, hd⟩
  · intro x n hactive hretired
    rw [hsize]
    exact hs.below x n hactive hretired
  · intro h x hx
    obtain ⟨hidle, other, hother, hd⟩ := hs.candidate h x hx
    refine ⟨hidle, ?_⟩
    by_cases hgx : g = x
    · subst hgx
      cases hgraph.symm.trans hother
      exact ⟨graph', (getElem?_set_eq_some hgraph).mpr (.inl ⟨rfl, rfl⟩), hdraining.trans hd⟩
    · exact ⟨other, (hkept x hgx).trans hother, hd⟩
  · intro k call x hcall hx
    rw [hsize]
    exact hs.target k call x hcall hx
  · intro k call x hcall hx
    obtain ⟨other, hother, hready, hd⟩ := hs.old k call x hcall hx
    exact ⟨other, (hkept x (ne_of_ready hgraph hbusy ⟨other, hother, hready⟩)).trans hother, hready, hd⟩

theorem pop_retired (hs : s.Staged) (n : Nat) :
    Staged { s with retiredGraphs := s.retiredGraphs.pop n } := by
  have hless : ∀ m g, (s.retiredGraphs.pop n).get? m = some g → s.retiredGraphs.get? m = some g := by
    intro m g h
    rw [Dict.get?_pop] at h
    split at h
    · cases h
    · exact h
  refine { hs with retired := ?_, below := ?_, asleep := ?_ }
  · intro m g h
    exact hs.retired m g (hless m g h)
  · intro g m hactive h
    obtain ⟨x, hx⟩ := ne_none_iff_exists'.mp h
    refine hs.below g m hactive ?_
    rw [hless m x hx]
    exact some_ne_none x
  · intro hstarted hclosing
    obtain ⟨hnone, hidle⟩ := hs.asleep hstarted hclosing
    refine ⟨?_, hidle⟩
    intro m
    by_contra h
    obtain ⟨x, hx⟩ := ne_none_iff_exists'.mp h
    have hold := hless m x hx
    simp [hnone m] at hold

theorem deactivate (hs : s.Staged) : Staged { s with activeGraph := none } := by
  refine { hs with active := ?_, below := ?_, candidate := ?_ }
  · exact nofun
  · exact nofun
  · intro h g hg
    exact ⟨(some_ne_none g).symm, (hs.candidate h g hg).2⟩

theorem clear (hs : s.Staged) : Staged { s with activeGraph := none, retiredGraphs := .empty } := by
  refine { hs.deactivate with retired := ?_, below := ?_, asleep := ?_ }
  · exact nofun
  · exact nofun
  · intro hstarted hclosing
    exact ⟨fun n => rfl, (hs.asleep hstarted hclosing).2⟩

theorem close_down (hs : s.Staged) (hfree : s.lifecycle = none) (hlocked : s.Locked) :
    Staged { s with closing := true } := by
  refine { hs with asleep := ?_, starting := ?_, closed := ?_ }
  · exact nofun
  · intro i hlocks
    have hheld := hlocked (.start i) hlocks
    simp [hfree] at hheld
  · intro j _
    rfl

theorem begin_preparation (hs : s.Staged) (generation : Nat) : (s.beginPreparation generation).Staged := by
  have hkept : ∀ (x : Nat) graph, s.graphs[x]? = some graph →
      (s.beginPreparation generation).graphs[x]? = some graph :=
    fun x graph h => getElem?_append_singleton.mpr (.inl h)
  have hsize : ∀ (x : Nat) graph, s.graphs[x]? = some graph →
      (s.beginPreparation generation).generationOf x = s.generationOf x := by
    intro x graph h
    rw [generationOf, generationOf, hkept x graph h, h]
  refine { hs with active := ?_, retired := ?_, below := ?_, candidate := ?_, target := ?_, old := ?_ }
  · intro x h
    obtain ⟨graph, hgraph, hrest⟩ := hs.active x h
    exact ⟨graph, hkept x graph hgraph, hrest⟩
  · intro n x h
    obtain ⟨graph, hgraph, hrest⟩ := hs.retired n x h
    exact ⟨graph, hkept x graph hgraph, hrest⟩
  · intro x n h hretired
    obtain ⟨graph, hgraph, -⟩ := hs.active x h
    rw [hsize x graph hgraph]
    exact hs.below x n h hretired
  · intro h x hx
    obtain ⟨hidle, graph, hgraph, hd⟩ := hs.candidate h x hx
    exact ⟨hidle, graph, hkept x graph hgraph, hd⟩
  · intro k call x hcall hx
    have hcandidate : s.candidateOf (.reconfigure k) = some x :=
      Option.bind_eq_some_iff.mpr ⟨call, hcall, hx⟩
    obtain ⟨-, graph, hgraph, -⟩ := hs.candidate (.reconfigure k) x hcandidate
    rw [hsize x graph hgraph]
    exact hs.target k call x hcall hx
  · intro k call x hcall hx
    obtain ⟨graph, hgraph, hrest⟩ := hs.old k call x hcall hx
    exact ⟨graph, hkept x graph hgraph, hrest⟩

theorem set_close (hs : s.Staged) {j : Nat} {phase phase' : ClosePhase}
    (hphase : s.closes[j]? = some phase)
    (hlocks : phase'.locks = true → phase.locks = true ∨ s.closing = true) :
    (s.setClose j phase').Staged := by
  refine { hs with closed := ?_ }
  intro x hx
  by_cases hjx : j = x
  · subst hjx
    rw [Runtime.locks, setClose, (getElem?_set_eq_some hphase).mpr (.inl ⟨rfl, rfl⟩), any_some] at hx
    rcases hlocks hx with hheld | hclosing
    · exact hs.closed j (by rw [Runtime.locks, hphase, any_some, hheld])
    · exact hclosing
  · rw [Runtime.locks, setClose, List.getElem?_set_ne hjx] at hx
    exact hs.closed x hx

theorem candidateOf_setStart {phase : StartPhase} (phase' : StartPhase) (hphase : s.starts[i]? = some phase)
    (h : Holder) : (s.setStart i phase').candidateOf h =
      if h = .start i then phase'.candidate else s.candidateOf h := by
  cases h with
  | submit j => rfl
  | close j => rfl
  | reconfigure k => rfl
  | start x =>
    rw [candidateOf, setStart]
    by_cases hix : i = x
    · subst hix
      rw [if_pos rfl, (getElem?_set_eq_some hphase).mpr (.inl ⟨rfl, rfl⟩), bind_some]
    · rw [if_neg (by simp [Ne.symm hix]), List.getElem?_set_ne hix, candidateOf]

theorem set_start (hs : s.Staged) {phase phase' : StartPhase} (hphase : s.starts[i]? = some phase)
    (hcandidate : phase'.candidate = none ∨ phase'.candidate = phase.candidate)
    (hlocks : phase'.locks = true → s.started = false ∧ s.closing = false) :
    (s.setStart i phase').Staged := by
  have hless : ∀ h g, (s.setStart i phase').candidateOf h = some g → s.candidateOf h = some g := by
    intro h g hg
    rw [candidateOf_setStart _ hphase] at hg
    split at hg
    · rename_i hi
      rcases hcandidate with hnone | hsame
      · simp [hnone] at hg
      · rw [hi, candidateOf, hphase, bind_some, ← hsame, hg]
    · exact hg
  refine { hs with candidate := ?_, unique := ?_, starting := ?_ }
  · intro h g hg
    exact hs.candidate h g (hless h g hg)
  · intro h h' g hg hg'
    exact hs.unique h h' g (hless h g hg) (hless h' g hg')
  · intro x hx
    by_cases hix : i = x
    · subst hix
      rw [Runtime.locks, setStart, (getElem?_set_eq_some hphase).mpr (.inl ⟨rfl, rfl⟩), any_some]
        at hx
      exact hlocks hx
    · rw [Runtime.locks, setStart, List.getElem?_set_ne hix] at hx
      exact hs.starting x hx

variable {call : Reconfigure}

theorem candidateOf_setReconfigure (phase : ReconfigurePhase)
    (hcall : s.reconfigures[k]? = some call) (h : Holder) :
    (s.setReconfigure k call phase).candidateOf h =
      if h = .reconfigure k then ({ call with phase } : Reconfigure).candidate else s.candidateOf h := by
  cases h with
  | submit j => rfl
  | close j => rfl
  | start i => rfl
  | reconfigure x =>
    rw [candidateOf, setReconfigure]
    by_cases hkx : k = x
    · subst hkx
      rw [if_pos rfl, (getElem?_set_eq_some hcall).mpr (.inl ⟨rfl, rfl⟩), bind_some]
    · rw [if_neg (by simp [Ne.symm hkx]), List.getElem?_set_ne hkx, candidateOf]

theorem set_reconfigure (hs : s.Staged) {phase : ReconfigurePhase}
    (hcall : s.reconfigures[k]? = some call)
    (hcandidate : ({ call with phase } : Reconfigure).candidate = none ∨
      ({ call with phase } : Reconfigure).candidate = call.candidate)
    (hold : ({ call with phase } : Reconfigure).old = none ∨
      ({ call with phase } : Reconfigure).old = call.old)
    (hidle : ({ call with phase } : Reconfigure).idle = true ∨ call.idle = false) :
    (s.setReconfigure k call phase).Staged := by
  have hless : ∀ h g, (s.setReconfigure k call phase).candidateOf h = some g →
      s.candidateOf h = some g := by
    intro h g hg
    rw [candidateOf_setReconfigure _ hcall] at hg
    split at hg
    · rename_i hk
      rcases hcandidate with hnone | hsame
      · simp [hnone] at hg
      · rw [hk, candidateOf, hcall, bind_some, ← hsame, hg]
    · exact hg
  refine { hs with candidate := ?_, unique := ?_, target := ?_, advances := ?_, old := ?_, asleep := ?_ }
  · intro h g hg
    exact hs.candidate h g (hless h g hg)
  · intro h h' g hg hg'
    exact hs.unique h h' g (hless h g hg) (hless h' g hg')
  · intro x found g hfound hg
    rcases (getElem?_set_eq_some hcall).mp hfound with ⟨-, rfl⟩ | ⟨-, hsame⟩
    · rcases hcandidate with hnone | hsame
      · simp [hnone] at hg
      · exact hs.target k call g hcall (hsame.symm.trans hg)
    · exact hs.target x found g hsame hg
  · intro x found hfound hbusy
    rcases (getElem?_set_eq_some hcall).mp hfound with ⟨-, rfl⟩ | ⟨-, hsame⟩
    · rcases hidle with hnow | hbefore
      · simp [hnow] at hbusy
      · exact hs.advances k call hcall hbefore
    · exact hs.advances x found hsame hbusy
  · intro x found o hfound ho
    rcases (getElem?_set_eq_some hcall).mp hfound with ⟨-, rfl⟩ | ⟨-, hsame⟩
    · rcases hold with hnone | hsame
      · simp [hnone] at ho
      · exact hs.old k call o hcall (hsame.symm.trans ho)
    · exact hs.old x found o hsame ho
  · intro hstarted hclosing
    obtain ⟨hretired, hall⟩ := hs.asleep hstarted hclosing
    refine ⟨hretired, ?_⟩
    intro x found hfound
    rcases (getElem?_set_eq_some hcall).mp hfound with ⟨-, rfl⟩ | ⟨-, hsame⟩
    · rcases hidle with hnow | hbefore
      · exact hnow
      · simp [hall k call hcall] at hbefore
    · exact hall x found hsame

theorem fresh (hs : s.Staged) : s.activeGraph ≠ some s.graphs.length ∧
    ∀ h, s.candidateOf h ≠ some s.graphs.length := by
  have hnone : s.graphs[s.graphs.length]? = none := List.getElem?_eq_none (Nat.le_refl _)
  refine ⟨?_, ?_⟩
  · intro h
    obtain ⟨graph, hgraph, -⟩ := hs.active _ h
    simp [hnone] at hgraph
  · intro h hcandidate
    obtain ⟨-, graph, hgraph, -⟩ := hs.candidate h _ hcandidate
    simp [hnone] at hgraph

theorem begin_reconfigure (hs : s.Staged) (hcall : s.reconfigures[k]? = some call)
    (hphase : call.phase = .preflight) :
    ((s.beginPreparation call.generation).setReconfigure k call (.preparing s.graphs.length)).Staged := by
  have ht := hs.begin_preparation call.generation
  have hnew : (s.beginPreparation call.generation).graphs[s.graphs.length]? =
      some (Graph.ofGeneration call.generation) := getElem?_append_singleton.mpr (.inr ⟨rfl, rfl⟩)
  have hbusy : call.idle = false := by rw [Reconfigure.idle, hphase]
  have hcandidateOf := fun h => candidateOf_setReconfigure (s := s.beginPreparation call.generation)
    (.preparing s.graphs.length) hcall h
  refine { ht with candidate := ?_, unique := ?_, target := ?_, advances := ?_, old := ?_, asleep := ?_ }
  · intro h g hg
    rw [hcandidateOf] at hg
    split at hg
    · cases hg
      exact ⟨hs.fresh.1, _, hnew, rfl⟩
    · exact ht.candidate h g hg
  · intro h h' g hg hg'
    rw [hcandidateOf] at hg hg'
    split at hg <;> split at hg'
    · rename_i hk hk'
      rw [hk, hk']
    · cases hg
      exact absurd hg' (hs.fresh.2 h')
    · cases hg'
      exact absurd hg (hs.fresh.2 h)
    · exact ht.unique h h' g hg hg'
  · intro x found g hfound hg
    rcases (getElem?_set_eq_some hcall).mp hfound with ⟨-, rfl⟩ | ⟨-, hsame⟩
    · cases hg
      rw [generationOf, setReconfigure, hnew]
      rfl
    · exact ht.target x found g hsame hg
  · intro x found hfound hidle
    rcases (getElem?_set_eq_some hcall).mp hfound with ⟨-, rfl⟩ | ⟨-, hsame⟩
    · exact hs.advances k call hcall hbusy
    · exact hs.advances x found hsame hidle
  · intro x found o hfound ho
    rcases (getElem?_set_eq_some hcall).mp hfound with ⟨-, rfl⟩ | ⟨-, hsame⟩
    · cases ho
    · exact ht.old x found o hsame ho
  · intro hstarted hclosing
    have hidle := (hs.asleep hstarted hclosing).2 k call hcall
    simp [hbusy] at hidle

theorem begin_start (hs : s.Staged) (generation : Nat) (hwaiting : s.starts[i]? = some .waiting)
    (hidle : s.started = false) (hopen : s.closing = false) :
    ((s.beginPreparation generation).setStart i (.preparing s.graphs.length)).Staged := by
  have ht := hs.begin_preparation generation
  have hnew : (s.beginPreparation generation).graphs[s.graphs.length]? =
      some (Graph.ofGeneration generation) := getElem?_append_singleton.mpr (.inr ⟨rfl, rfl⟩)
  have hcandidateOf := fun h => candidateOf_setStart (s := s.beginPreparation generation)
    (.preparing s.graphs.length) hwaiting h
  refine { ht with candidate := ?_, unique := ?_, starting := ?_ }
  · intro h g hg
    rw [hcandidateOf] at hg
    split at hg
    · cases hg
      exact ⟨hs.fresh.1, _, hnew, rfl⟩
    · exact ht.candidate h g hg
  · intro h h' g hg hg'
    rw [hcandidateOf] at hg hg'
    split at hg <;> split at hg'
    · rename_i hk hk'
      rw [hk, hk']
    · cases hg
      exact absurd hg' (hs.fresh.2 h')
    · cases hg'
      exact absurd hg (hs.fresh.2 h)
    · exact ht.unique h h' g hg hg'
  · intro x _
    exact ⟨hidle, hopen⟩

theorem activate (hs : s.Staged) {graph : Graph} (hpreparing : s.starts[i]? = some (.preparing g))
    (hgraph : s.graphs[g]? = some graph) (hready : graph.preparation = .ready) :
    (setStart { s with activeGraph := some g } i (.starting g)).Staged := by
  have hcandidate : s.candidateOf (.start i) = some g :=
    Option.bind_eq_some_iff.mpr ⟨_, hpreparing, rfl⟩
  obtain ⟨hidle, hopen⟩ := hs.starting i (by rw [Runtime.locks, hpreparing]; rfl)
  have hcandidateOf := fun h => candidateOf_setStart (s := { s with activeGraph := some g })
    (.starting g) hpreparing h
  have hless : ∀ h x, (setStart { s with activeGraph := some g } i (.starting g)).candidateOf h = some x →
      h ≠ .start i ∧ s.candidateOf h = some x := by
    intro h x hx
    rw [hcandidateOf] at hx
    split at hx
    · cases hx
    · rename_i hne
      exact ⟨hne, hx⟩
  refine { hs with active := ?_, below := ?_, candidate := ?_, unique := ?_, starting := ?_ }
  · intro x hx
    cases hx
    obtain ⟨-, other, hother, hdraining⟩ := hs.candidate _ _ hcandidate
    cases hgraph.symm.trans hother
    exact ⟨graph, hgraph, hready, hdraining⟩
  · intro x n hx hretired
    exact absurd ((hs.asleep hidle hopen).1 n) hretired
  · intro h x hx
    obtain ⟨hne, hold⟩ := hless h x hx
    refine ⟨?_, (hs.candidate h x hold).2⟩
    rintro heq
    cases heq
    exact hne (hs.unique h (.start i) g hold hcandidate)
  · intro h h' x hx hx'
    exact hs.unique h h' x (hless h x hx).2 (hless h' x hx').2
  · intro x _
    exact ⟨hidle, hopen⟩

theorem swap (hs : s.Staged) {old : Nat} {graph : Graph}
    (hcall : s.reconfigures[k]? = some call) (hphase : call.phase = .preparing g)
    (hgraph : s.graphs[g]? = some graph) (hready : graph.preparation = .ready)
    (hactive : s.activeGraph = some old) (hexpected : s.generationOf old = call.expected) :
    (setReconfigure { s with
      graphs := s.graphs.modify old Graph.retired
      retiredGraphs := s.retiredGraphs.set (s.generationOf old) old
      activeGraph := some g } k call (.draining g old)).Staged := by
  have hcandidate : s.candidateOf (.reconfigure k) = some g :=
    Option.bind_eq_some_iff.mpr ⟨call, hcall, by rw [Reconfigure.candidate, hphase]⟩
  have hbusy : call.idle = false := by rw [Reconfigure.idle, hphase]
  obtain ⟨hgold, other, hother, hdraining⟩ := hs.candidate _ _ hcandidate
  cases hgraph.symm.trans hother
  obtain ⟨before, hbefore, hbeforeReady, hbeforeDraining⟩ := hs.active old hactive
  have hat : ∀ x : Nat, (s.graphs.modify old Graph.retired)[x]? =
      if old = x then some before.retired else s.graphs[x]? := by
    intro x
    rw [List.getElem?_modify]
    split
    · rename_i hx
      rw [← hx, hbefore]
      rfl
    · cases s.graphs[x]? <;> rfl
  have hkept : ∀ (x : Nat) (other : Graph), s.graphs[x]? = some other → other.draining = true →
      (s.graphs.modify old Graph.retired)[x]? = some other := by
    intro x other hx hd
    have hne : old ≠ x := by
      rintro rfl
      cases hbefore.symm.trans hx
      simp [hbeforeDraining] at hd
    rw [hat, if_neg hne, hx]
  have hsize : ∀ x : Nat, (((s.graphs.modify old Graph.retired)[x]?).map Graph.generation).getD 0 =
      s.generationOf x := by
    intro x
    rw [map_getElem?_modify (g := Graph.retired) fun _ => rfl, generationOf]
  have hcandidateOf := fun h => candidateOf_setReconfigure (.draining g old)
    (s := { s with
      graphs := s.graphs.modify old Graph.retired
      retiredGraphs := s.retiredGraphs.set (s.generationOf old) old
      activeGraph := some g }) hcall h
  have hless : ∀ h x, (setReconfigure { s with
      graphs := s.graphs.modify old Graph.retired
      retiredGraphs := s.retiredGraphs.set (s.generationOf old) old
      activeGraph := some g } k call (.draining g old)).candidateOf h = some x →
      h ≠ .reconfigure k ∧ s.candidateOf h = some x := by
    intro h x hx
    rw [hcandidateOf] at hx
    split at hx
    · cases hx
    · rename_i hne
      exact ⟨hne, hx⟩
  refine ⟨?_, ?_, ?_, ?_, ?_, ?_, ?_, ?_, ?_, hs.starting, hs.closed⟩
  · intro x hx
    cases hx
    have hne : old ≠ g := by
      rintro rfl
      exact hgold hactive
    exact ⟨graph, (hat g).trans (by rw [if_neg hne, hgraph]), hready, hdraining⟩
  · intro n x hx
    replace hx : (s.retiredGraphs.set (s.generationOf old) old).get? n = some x := hx
    rw [Dict.get?_set] at hx
    split at hx
    · rename_i hn
      cases hx
      refine ⟨before.retired, (hat old).trans (if_pos rfl), hbeforeReady, rfl, ?_⟩
      rw [hn, generationOf, hbefore]
      rfl
    · obtain ⟨other, hother, hr, hd, hn⟩ := hs.retired n x hx
      exact ⟨other, hkept x other hother hd, hr, hd, hn⟩
  · intro x n hx hretired
    cases hx
    have htarget := hs.target k call g hcall (by rw [Reconfigure.candidate, hphase])
    have hadvances := hs.advances k call hcall hbusy
    refine Nat.lt_of_lt_of_eq ?_ (hsize g).symm
    replace hretired : (s.retiredGraphs.set (s.generationOf old) old).get? n ≠ none := hretired
    rw [Dict.get?_set] at hretired
    split at hretired
    · omega
    · have hbelow := hs.below old n hactive hretired
      omega
  · intro h x hx
    obtain ⟨hne, hold⟩ := hless h x hx
    obtain ⟨hidle, other, hother, hd⟩ := hs.candidate h x hold
    refine ⟨?_, other, (hat x).trans ?_, hd⟩
    · rintro heq
      cases heq
      exact hne (hs.unique h (.reconfigure k) g hold hcandidate)
    · rw [if_neg ?_, hother]
      rintro rfl
      exact hidle hactive
  · intro h h' x hx hx'
    exact hs.unique h h' x (hless h x hx).2 (hless h' x hx').2
  · intro x found y hfound hy
    rcases (getElem?_set_eq_some hcall).mp hfound with ⟨-, rfl⟩ | ⟨-, hsame⟩
    · cases hy
    · exact (hsize y).trans (hs.target x found y hsame hy)
  · intro x found hfound hidle
    rcases (getElem?_set_eq_some hcall).mp hfound with ⟨-, rfl⟩ | ⟨-, hsame⟩
    · exact hs.advances k call hcall hbusy
    · exact hs.advances x found hsame hidle
  · intro x found o hfound ho
    rcases (getElem?_set_eq_some hcall).mp hfound with ⟨-, rfl⟩ | ⟨-, hsame⟩
    · cases ho
      exact ⟨before.retired, (hat old).trans (if_pos rfl), hbeforeReady, rfl⟩
    · obtain ⟨other, hother, hr, hd⟩ := hs.old x found o hsame ho
      exact ⟨other, hkept o other hother hd, hr, hd⟩
  · intro hstarted hclosing
    have hidle := (hs.asleep hstarted hclosing).2 k call hcall
    simp [hbusy] at hidle

theorem start_done (hs : s.Staged) (hlocked : s.Locked) (hstarting : s.starts[i]? = some (.starting g)) :
    (setStart { s with started := true } i .ended).Staged := by
  have ht : (s.setStart i .ended).Staged := hs.set_start hstarting (.inl rfl) (by simp [StartPhase.locks])
  have honly : ∀ x, (s.setStart i .ended).locks (.start x) = false := by
    intro x
    by_cases hix : i = x
    · subst hix
      rw [Runtime.locks, setStart, (getElem?_set_eq_some hstarting).mpr (.inl ⟨rfl, rfl⟩)]
      rfl
    · rw [Runtime.locks, setStart, List.getElem?_set_ne hix]
      by_contra hheld
      rw [Bool.not_eq_false] at hheld
      have hlocks : s.locks (.start i) = true := by rw [Runtime.locks, hstarting]; rfl
      have hother : s.locks (.start x) = true := hheld
      cases hlocked.unique hlocks hother
      exact hix rfl
  refine { ht with asleep := ?_, starting := ?_ }
  · simp [setStart]
  · intro x hx
    replace hx : (s.setStart i .ended).locks (.start x) = true := hx
    simp [honly] at hx

theorem close_done (hs : s.Staged) {j : Nat} (hmodules : s.closes[j]? = some .modules) :
    (setClose { s with started := false } j .ended).Staged := by
  have hclosing := hs.closed j (by rw [Runtime.locks, hmodules]; rfl)
  have ht : (s.setClose j .ended).Staged := hs.set_close hmodules (by simp [ClosePhase.locks])
  refine { ht with asleep := ?_, starting := ?_ }
  · intro _ hopen
    simp [show s.closing = false from hopen] at hclosing
  · intro x hx
    exact ⟨rfl, (ht.starting x hx).2⟩

end Staged

theorem Staged.prepareMove {g : Nat} {graph : Graph} (hs : s.Staged) (hgraph : s.graphs[g]? = some graph)
    (h : PrepareMove s g graph s') : s'.Staged := by
  cases h with
  | unbound started hphase =>
    refine Staged.set_graph (hs.of_frame ?_) hgraph (by simp [hphase]) rfl rfl
    exact .same rfl
  | registered started ids catalog capabilities hphase hcatalog =>
    refine Staged.set_graph (hs.of_frame ?_) hgraph (by simp [hphase]) rfl rfl
    exact .same rfl
  | unregistered started ids catalog capabilities hphase hcatalog =>
    refine Staged.set_graph (hs.of_frame ?_) hgraph (by simp [hphase]) rfl rfl
    exact .same rfl
  | raised started hphase =>
    refine Staged.set_graph (hs.of_frame ?_) hgraph (by simp [hphase]) rfl rfl
    exact .same rfl
  | unwound hphase => exact hs.set_graph hgraph (by simp [hphase]) rfl rfl
  | closed x rest hphase =>
    refine Staged.set_graph (hs.of_frame ?_) hgraph (by simp [hphase]) rfl rfl
    exact .same rfl
  | aborted rest hphase => exact hs.set_graph hgraph (by simp [hphase]) rfl rfl
  | done started hphase => exact hs.set_graph hgraph (by simp [hphase]) rfl rfl

theorem Staged.closerMove {c : Nat} {closer : Closer} (hs : s.Staged) (h : CloserMove s c closer s')
    : s'.Staged := by
  cases h with
  | closed x rest hphase => exact hs.of_frame (.same rfl)
  | finished hphase => exact (hs.pop_retired _).of_frame (.same rfl)
  | aborted rest hphase => exact hs.of_frame (.same rfl)

theorem Staged.startFail {i : Nat} {phase : StartPhase} (hs : s.Staged) (hphase : s.starts[i]? = some phase)
    (hidle : s.started = false) (hopen : s.closing = false) :
    (s.startFail i).Staged := by
  rcases startFail_cases s i with ⟨g, -, heq⟩ | ⟨-, heq⟩
  · rw [heq]
    exact Staged.set_start (s := s.beginClose g) (hs.of_frame (.same rfl)) hphase (.inl rfl) fun _ => ⟨hidle, hopen⟩
  · rw [heq]
    exact Staged.set_start (s := { s with lifecycle := none }) (hs.of_frame (.same rfl)) hphase (.inl rfl)
      nofun

theorem Staged.startMove [DecidableEq D] {env : Environment D} {i : Nat} {phase : StartPhase}
    (hs : s.Staged) (hlocked : s.Locked) (hphase : s.starts[i]? = some phase)
    (h : StartMove env s i phase s') : s'.Staged := by
  have hheld : phase.locks = true → s.started = false ∧ s.closing = false :=
    fun hlocks => hs.starting i (by rw [Runtime.locks, hphase, any_some, hlocks])
  cases h with
  | rejected hwaiting => exact hs.set_start hphase (.inl rfl) (by simp [StartPhase.locks])
  | unrecovered ledger hwaiting hfree hidle hopen hledger =>
    exact Staged.startFail (hs.of_frame (.same rfl)) hphase hidle hopen
  | began ledger hwaiting hfree hidle hopen hledger =>
    subst hwaiting
    exact Staged.begin_start (s := { s with ledger := ledger, lifecycle := some (.start i) })
      (hs.of_frame (.same rfl)) s.initialGeneration hphase hidle hopen
  | prepared g graph hpreparing hgraph hready =>
    subst hpreparing
    exact (hs.activate hphase hgraph hready).of_frame (.same rfl)
  | unprepared g graph hpreparing hgraph hfailed =>
    obtain ⟨hidle, hopen⟩ := hheld (by rw [hpreparing]; rfl)
    exact hs.startFail hphase hidle hopen
  | raised g hstarting =>
    obtain ⟨hidle, hopen⟩ := hheld (by rw [hstarting]; rfl)
    exact hs.startFail hphase hidle hopen
  | done g hstarting =>
    subst hstarting
    exact (hs.start_done hlocked hphase).of_frame (.same rfl)
  | closed c hfailing hcloser =>
    exact Staged.set_start (s := { s with activeGraph := none, lifecycle := none })
      (hs.deactivate.of_frame (.same rfl)) hphase (.inl rfl) (by simp [StartPhase.locks])
  | aborted c hfailing hcloser =>
    exact Staged.set_start (s := { s with lifecycle := none }) (hs.of_frame (.same rfl)) hphase (.inl rfl)
      (by simp [StartPhase.locks])

theorem Staged.reconfigureMove {k : Nat} {call : Reconfigure} (hs : s.Staged)
    (hcall : s.reconfigures[k]? = some call) (h : ReconfigureMove s k call s') : s'.Staged := by
  have hold : ∀ {g o}, call.phase = .draining g o ∨ call.phase = .emptying g o ∨
      (∃ tasks, call.phase = .gathering g o tasks) → call.old = some o ∧ call.idle = false := by
    rintro g o (hphase | hphase | ⟨tasks, hphase⟩) <;>
      exact ⟨by rw [Reconfigure.old, hphase], by rw [Reconfigure.idle, hphase]⟩
  cases h with
  | rejected hphase => exact hs.set_reconfigure hcall (.inl rfl) (.inl rfl) (.inl rfl)
  | checked g hphase hactive hexpected hadvances hadmits =>
    have hawake : s.started = true ∧ s.closing = false := by
      simpa [admits] using hadmits
    refine { hs with candidate := ?_, unique := ?_, target := ?_, advances := ?_, old := ?_, asleep := ?_ }
    · intro h x hx
      refine hs.candidate h x ?_
      rw [candidateOf_setReconfigure _ hcall] at hx
      split at hx
      · cases hx
      · exact hx
    · intro h h' x hx hx'
      rw [candidateOf_setReconfigure _ hcall] at hx hx'
      split at hx
      · cases hx
      split at hx'
      · cases hx'
      exact hs.unique h h' x hx hx'
    · intro x found y hfound hy
      rcases (getElem?_set_eq_some hcall).mp hfound with ⟨-, rfl⟩ | ⟨-, hsame⟩
      · cases hy
      · exact hs.target x found y hsame hy
    · intro x found hfound hidle
      rcases (getElem?_set_eq_some hcall).mp hfound with ⟨-, rfl⟩ | ⟨-, hsame⟩
      · exact hadvances
      · exact hs.advances x found hsame hidle
    · intro x found o hfound ho
      rcases (getElem?_set_eq_some hcall).mp hfound with ⟨-, rfl⟩ | ⟨-, hsame⟩
      · cases ho
      · exact hs.old x found o hsame ho
    · intro hstarted
      rw [show s.started = false from hstarted] at hawake
      cases hawake.1
  | began hphase => exact hs.begin_reconfigure hcall hphase
  | unprepared g graph hphase hgraph hfailed =>
    exact hs.set_reconfigure hcall (.inl rfl) (.inl rfl) (.inl rfl)
  | losing g graph hphase hgraph hready hfree hexpected =>
    exact Staged.set_reconfigure (s := beginClose { s with lifecycle := some (.reconfigure k) } g)
      (hs.of_frame (.same rfl)) hcall (.inr (by rw [Reconfigure.candidate, Reconfigure.candidate, hphase]))
      (.inl rfl) (.inr (by rw [Reconfigure.idle, hphase]))
  | swapped g old graph hphase hgraph hready hfree hactive hexpected =>
    exact (hs.swap hcall hphase hgraph hready hactive hexpected).of_frame (.same rfl)
  | lost g c hphase hcloser =>
    exact Staged.set_reconfigure (s := { s with lifecycle := none }) (hs.of_frame (.same rfl)) hcall (.inl rfl)
      (.inl rfl) (.inl rfl)
  | undrained g old hphase =>
    exact hs.set_reconfigure hcall (.inl rfl) (.inl rfl) (.inr (hold (.inl hphase)).2)
  | forced g old hphase =>
    exact Staged.set_reconfigure (s := s.cancelTasks (s.tasksOn old)) (hs.of_frame (.same rfl)) hcall (.inl rfl)
      (.inr (hold (.inl hphase)).1.symm) (.inr (hold (.inl hphase)).2)
  | drained g old hphase =>
    exact hs.set_reconfigure hcall (.inl rfl) (.inr (hold (.inl hphase)).1.symm)
      (.inr (hold (.inl hphase)).2)
  | gathered g old tasks hphase hdone =>
    exact Staged.set_reconfigure (s := s.beginClose old) (hs.of_frame (.same rfl)) hcall (.inl rfl)
      (.inr (hold (.inr (.inr ⟨tasks, hphase⟩))).1.symm) (.inr (hold (.inr (.inr ⟨tasks, hphase⟩))).2)
  | emptied g old hphase hdrained =>
    exact Staged.set_reconfigure (s := s.beginClose old) (hs.of_frame (.same rfl)) hcall (.inl rfl)
      (.inr (hold (.inr (.inl hphase))).1.symm) (.inr (hold (.inr (.inl hphase))).2)
  | closed g old c errors hphase hcloser =>
    exact hs.set_reconfigure hcall (.inl rfl) (.inl rfl) (.inr (by rw [Reconfigure.idle, hphase]))
  | abandoned g graph hphase hgraph hready =>
    exact hs.set_reconfigure hcall (.inl rfl) (.inl rfl) (.inl rfl)
  | aborted g old hphase =>
    have hbusy : call.idle = false := by
      rcases hphase with hphase | hphase <;> rw [Reconfigure.idle, hphase]
    exact hs.set_reconfigure hcall (.inl rfl) (.inl rfl) (.inr hbusy)
  | ungathered g old tasks hphase =>
    exact Staged.set_reconfigure (s := s.cancelTasks tasks) (hs.of_frame (.same rfl)) hcall (.inl rfl) (.inl rfl)
      (.inr (by rw [Reconfigure.idle, hphase]))

theorem Staged.closeGraphs {j : Nat} {phase : ClosePhase} (hs : s.Staged)
    (hphase : s.closes[j]? = some phase) (hlocks : phase.locks = true) (graphs : List Nat) :
    (s.closeGraphs j graphs).Staged := by
  cases graphs with
  | nil =>
    exact Staged.set_close (s := { s with activeGraph := none, retiredGraphs := .empty }) hs.clear hphase
      fun _ => .inl hlocks
  | cons g rest =>
    exact Staged.set_close (s := s.beginClose g) (hs.of_frame (.same rfl)) hphase fun _ => .inl hlocks

theorem Staged.closeMove [DecidableEq D] {env : Environment D} {j : Nat} {phase : ClosePhase}
    (hs : s.Staged) (hlocked : s.Locked) (hphase : s.closes[j]? = some phase)
    (h : CloseMove env s j phase s') : s'.Staged := by
  have hout : ∀ {t : Runtime D P}, t.Staged → t.closes = s.closes → (t.setClose j .ended).Staged := by
    intro t ht heq
    exact ht.set_close (heq ▸ hphase) nofun
  cases h with
  | rejected hwaiting => exact hout hs rfl
  | entered hwaiting hfree hopen =>
    refine Staged.set_close (s := cancelTasks { s with lifecycle := some (.close j), closing := true }
      s.tasks.values) ((hs.close_down hfree hlocked).of_frame ?_) hphase fun _ => .inr rfl
    exact .same rfl
  | gathered tasks hgathering hdone => exact hs.set_close hphase fun _ => .inl (by rw [hgathering]; rfl)
  | interrupted runId rest ledger hleftovers hledger =>
    exact Staged.set_close (s := { s with ledger }) (hs.of_frame (.same rfl)) hphase
      fun _ => .inl (by rw [hleftovers]; rfl)
  | raised runId rest hleftovers => exact hout (t := { s with lifecycle := none }) (hs.of_frame (.same rfl)) rfl
  | snapshot hleftovers =>
    exact Staged.closeGraphs (s := { s with tasks := .empty }) (hs.of_frame (.same rfl)) hphase
      (by rw [hleftovers]; rfl) _
  | next c rest hclosing hcloser => exact hs.closeGraphs hphase (by rw [hclosing]; rfl) rest
  | failed c rest hclosing hcloser => exact hout (t := { s with lifecycle := none }) (hs.of_frame (.same rfl)) rfl
  | finished hmodules =>
    subst hmodules
    exact (hs.close_done hphase).of_frame (.same rfl)
  | ungathered tasks hgathering =>
    exact hout (t := cancelTasks { s with lifecycle := none } tasks) (hs.of_frame (.same rfl)) rfl
  | aborted hinner => exact hout (t := { s with lifecycle := none }) (hs.of_frame (.same rfl)) rfl

theorem staged_step [DecidableEq D] {env : Environment D} {a : Action D P} (hs : s.Staged)
    (hlocked : s.Locked) (h : s.step env a = some s') : s'.Staged := by
  rcases step_graph_cases h with hmove | hframe
  · cases hmove with
    | prepare g graph hgraph hmove => exact hs.prepareMove hgraph hmove
    | closer c closer hcloser hmove => exact hs.closerMove hmove
    | start i phase hphase hmove => exact hs.startMove hlocked hphase hmove
    | reconfigure k call hcall hmove => exact hs.reconfigureMove hcall hmove
    | close j phase hphase hmove => exact hs.closeMove hlocked hphase hmove
  · exact hs.of_frame hframe.toStageFrame

end Runtime

end OpenAgent
