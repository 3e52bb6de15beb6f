import OpenAgent.Lib.Transition
import OpenAgent.Runtime.Tracking

/-!
# Leases and drains

A submission holds on to the graph that was active when it took the lifecycle lock, and nothing makes
another graph active before it gives the lock back. So leases are only taken on the active graph, and a
graph that is ready reports that it has drained exactly while it has no lease. What leases count are the
runs bound to a graph; these are the runs that have not ended as long as no task is dropped before its
first step, since a dropped task never runs the `finally` that gives its lease back.
-/

namespace OpenAgent

open Lib

variable {D P : Type}

def Submit.selected (call : Submit D) : Option Nat :=
  match call.phase with
  | .authorizing g | .accepting g => some g
  | _ => none

theorem Submit.locks_of_selected {call : Submit D} {g : Nat} (h : call.selected = some g) :
    call.locks = true := by
  unfold Submit.selected at h
  unfold Submit.locks
  split at h <;> simp_all

theorem Submit.Idle.selected {o : Option (Submit D)} {call' : Submit D}
    (h : Submit.Idle o (some call')) {g : Nat} (hselected : call'.selected = some g) :
    ∃ call, o = some call ∧ call.selected = some g := by
  cases h with
  | same call interrupted => exact ⟨call, rfl, hselected⟩
  | withdrawn call hphase => cases hselected
  | fresh call hphase =>
    simp [Submit.selected, hphase] at hselected

/-- Only a graph that is ready has leases, and it has drained exactly while it has none. -/
structure Graph.Counted (graph : Graph) : Prop where
  unready : graph.preparation ≠ .ready → graph.leases = 0
  drained : graph.preparation = .ready → (graph.drained = true ↔ graph.leases = 0)

namespace Graph.Counted

variable {graph graph' : Graph}

theorem acquire (hready : graph.preparation = .ready) (h : graph.acquire = some graph') :
    graph'.Counted := by
  unfold Graph.acquire at h
  split at h
  · cases h
  · cases h
    exact ⟨fun hnot => absurd hready hnot, fun _ => by simp⟩

theorem release (h : graph.Counted) : graph.release.Counted := by
  unfold Graph.release
  split
  · exact h
  · rename_i hleases
    refine ⟨fun hnot => ?_, fun hready => ?_⟩
    · have hzero := h.unready hnot
      omega
    · have hdrained := h.drained hready
      by_cases hlast : graph.leases - 1 = 0
      · simp [hlast]
      · simp only [if_neg hlast]
        constructor
        · intro hd
          have hzero := hdrained.mp hd
          omega
        · intro hzero
          exact absurd hzero hlast

theorem retired (h : graph.Counted) : graph.retired.Counted := by
  refine ⟨h.unready, fun hready => ?_⟩
  have hdrained := h.drained hready
  unfold Graph.retired
  by_cases hzero : graph.leases = 0
  · simp [hzero]
  · simpa [hzero] using hdrained

theorem prepared (h : graph.Counted) (hbusy : graph.preparation ≠ .ready)
    (hsame : graph'.leases = graph.leases) (hready : graph'.preparation = .ready → graph'.drained = true) :
    graph'.Counted := by
  have hzero : graph'.leases = 0 := hsame.trans (h.unready hbusy)
  exact ⟨fun _ => hzero, fun hr => ⟨fun _ => hzero, fun _ => hready hr⟩⟩

end Graph.Counted

namespace Runtime

structure Leasing (s : Runtime D P) : Prop where
  selected : ∀ (i : Nat) call g, s.submits[i]? = some call → call.selected = some g →
    s.activeGraph = some g
  counted : ∀ (g : Nat) graph, s.graphs[g]? = some graph → graph.Counted

theorem leasing_construct (ledger : Ledger D P) (catalog : Catalog) (initialGeneration : Nat)
    (ownsStore : Bool) : (construct ledger catalog initialGeneration ownsStore).Leasing where
  selected i call g h := by cases h
  counted g graph h := by cases h

/-! ### What the steps keep -/

variable {env : Environment D} {s s' : Runtime D P}

theorem GraphMove.activeGraph [DecidableEq D] (h : GraphMove env s s') (hlocked : s.Locked) :
    s'.activeGraph = s.activeGraph ∨ ∀ i, s.locks (.submit i) = false := by
  have hfree : s.lifecycle = none → ∀ i, s.locks (.submit i) = false := by
    intro hnone i
    by_contra hheld
    rw [Bool.not_eq_false] at hheld
    have hholds := hlocked _ hheld
    simp [hnone] at hholds
  have hother : ∀ holder : Holder, s.locks holder = true → (∀ i, holder ≠ .submit i) →
      ∀ i, s.locks (.submit i) = false := by
    intro holder hholds hne i
    by_contra hheld
    rw [Bool.not_eq_false] at hheld
    exact hne i (hlocked.unique hholds hheld)
  cases h with
  | prepare g graph hgraph hmove => cases hmove <;> exact .inl rfl
  | closer c closer hcloser hmove => cases hmove <;> exact .inl rfl
  | start i phase hphase hmove =>
    cases hmove with
    | unrecovered ledger hwaiting hnone => exact .inr (hfree hnone)
    | prepared g graph hpreparing =>
      refine .inr (hother (.start i) ?_ (by simp))
      rw [Runtime.locks, hphase, hpreparing]
      rfl
    | unprepared g graph hpreparing =>
      refine .inr (hother (.start i) ?_ (by simp))
      rw [Runtime.locks, hphase, hpreparing]
      rfl
    | raised g hstarting =>
      refine .inr (hother (.start i) ?_ (by simp))
      rw [Runtime.locks, hphase, hstarting]
      rfl
    | closed c hfailing =>
      refine .inr (hother (.start i) ?_ (by simp))
      rw [Runtime.locks, hphase, hfailing]
      rfl
    | rejected | began | done | aborted => exact .inl rfl
  | reconfigure k call hcall hmove =>
    cases hmove with
    | swapped g old graph hpreparing hgraph hready hnone => exact .inr (hfree hnone)
    | rejected | checked | began | unprepared | losing | lost | undrained | forced | drained | gathered
    | emptied | closed | abandoned | aborted | ungathered => exact .inl rfl
  | close j phase hphase hmove =>
    cases hmove with
    | snapshot hleftovers =>
      refine .inr (hother (.close j) ?_ (by simp))
      rw [Runtime.locks, hphase, hleftovers]
      rfl
    | next c rest hclosing =>
      refine .inr (hother (.close j) ?_ (by simp))
      rw [Runtime.locks, hphase, hclosing]
      rfl
    | rejected | entered | gathered | interrupted | raised | failed | finished | ungathered | aborted =>
      exact .inl rfl

theorem counted_set (hs : s.Leasing) {g : Nat} {graph graph' : Graph} (hgraph : s.graphs[g]? = some graph)
    (hcounted : graph'.Counted) :
    ∀ (x : Nat) other, (s.graphs.set g graph')[x]? = some other → other.Counted := by
  intro x other hother
  rcases (getElem?_set_eq_some hgraph).mp hother with ⟨-, rfl⟩ | ⟨-, hsame⟩
  · exact hcounted
  · exact hs.counted x other hsame

theorem counted_modify (hs : s.Leasing) {f : Graph → Graph}
    (hf : ∀ graph : Graph, graph.Counted → (f graph).Counted) (g : Nat) :
    ∀ (x : Nat) other, (s.graphs.modify g f)[x]? = some other → other.Counted := by
  intro x other hother
  obtain ⟨before, hbefore, rfl⟩ := getElem?_modify_eq_some.mp hother
  split
  · exact hf before (hs.counted x before hbefore)
  · exact hs.counted x before hbefore

theorem counted_begin (hs : s.Leasing) (generation : Nat) :
    ∀ (x : Nat) other, (s.beginPreparation generation).graphs[x]? = some other → other.Counted := by
  intro x other hother
  rcases getElem?_append_singleton.mp hother with hold | ⟨-, rfl⟩
  · exact hs.counted x other hold
  · exact ⟨fun _ => rfl, nofun⟩

theorem PrepareMove.counted {g : Nat} {graph : Graph} (hs : s.Leasing) (hgraph : s.graphs[g]? = some graph)
    (h : PrepareMove s g graph s') :
    ∀ (x : Nat) other, s'.graphs[x]? = some other → other.Counted := by
  have hbefore := hs.counted g graph hgraph
  have hset : ∀ graph' : Graph, graph.preparation ≠ .ready → graph'.leases = graph.leases →
      (graph'.preparation = .ready → graph'.drained = true) →
      ∀ (x : Nat) other, (s.graphs.set g graph')[x]? = some other → other.Counted :=
    fun graph' hbusy hsame hready => counted_set hs hgraph (hbefore.prepared hbusy hsame hready)
  cases h with
  | unbound started hphase => exact hset _ (by simp [hphase]) rfl nofun
  | registered started ids catalog capabilities hphase hcatalog =>
    exact hset _ (by simp [hphase]) rfl nofun
  | unregistered started ids catalog capabilities hphase hcatalog =>
    exact hset _ (by simp [hphase]) rfl nofun
  | raised started hphase => exact hset _ (by simp [hphase]) rfl nofun
  | unwound hphase => exact hset _ (by simp [hphase]) rfl nofun
  | closed x rest hphase => exact hset _ (by simp [hphase]) rfl nofun
  | aborted rest hphase => exact hset _ (by simp [hphase]) rfl nofun
  | done started hphase => exact hset _ (by simp [hphase]) rfl fun _ => rfl

theorem startFail_graphs (s : Runtime D P) (i : Nat) : (s.startFail i).graphs = s.graphs := by
  rcases startFail_cases s i with ⟨g, -, heq⟩ | ⟨-, heq⟩ <;> rw [heq] <;> rfl

theorem closeGraphs_graphs (s : Runtime D P) (j : Nat) (graphs : List Nat) :
    (s.closeGraphs j graphs).graphs = s.graphs := by
  cases graphs <;> rfl

theorem GraphMove.counted [DecidableEq D] (hs : s.Leasing) (h : GraphMove env s s')
    : ∀ (x : Nat) other, s'.graphs[x]? = some other → other.Counted := by
  cases h with
  | prepare g graph hgraph hmove => exact hmove.counted hs hgraph
  | closer c closer hcloser hmove => cases hmove <;> exact hs.counted
  | start i phase hphase hmove =>
    cases hmove with
    | began => exact counted_begin hs s.initialGeneration
    | unrecovered | unprepared | raised =>
      rw [startFail_graphs]
      exact hs.counted
    | rejected | prepared | done | closed | aborted => exact hs.counted
  | reconfigure k call hcall hmove =>
    cases hmove with
    | began => exact counted_begin hs call.generation
    | swapped g old => exact counted_modify hs (fun _ h => h.retired) old
    | rejected | checked | unprepared | losing | lost | undrained | forced | drained | gathered | emptied
    | closed | abandoned | aborted | ungathered => exact hs.counted
  | close j phase hphase hmove =>
    cases hmove with
    | snapshot | next =>
      rw [closeGraphs_graphs]
      exact hs.counted
    | rejected | entered | gathered | interrupted | raised | failed | finished | ungathered | aborted =>
      exact hs.counted

theorem Leasing.of_submitMove [DecidableEq D] {i : Nat} {call : Submit D} (hs : s.Leasing)
    (hstaged : s.Staged) (hcall : s.submits[i]? = some call) (h : SubmitMove env s i call s')
    : s'.Leasing := by
  have hset : ∀ (call' : Submit D), (∀ g, call'.selected = some g → s.activeGraph = some g) →
      ∀ (j : Nat) other g, (s.submits.set i call')[j]? = some other → other.selected = some g →
        s.activeGraph = some g := by
    intro call' hkept j other g hother hselected
    rcases (getElem?_set_eq_some hcall).mp hother with ⟨-, rfl⟩ | ⟨-, hsame⟩
    · exact hkept g hselected
    · exact hs.selected j other g hsame hselected
  cases h with
  | refused | denied | unaccepted | found | unleased | started | withdrawn =>
    exact ⟨hset _ fun g hg => (by cases hg), hs.counted⟩
  | entered g hphase hfree hactive =>
    refine ⟨hset _ fun x hx => ?_, hs.counted⟩
    cases hx
    exact hactive
  | authorized g hphase =>
    refine ⟨hset _ fun x hx => ?_, hs.counted⟩
    cases hx
    exact hs.selected i call g hcall (by rw [Submit.selected, hphase])
  | leased g attempt record ledger graph revision hphase haccept hacquire =>
    obtain ⟨before, hbefore, hgraph⟩ := Option.bind_eq_some_iff.mp hacquire
    have hactive := hs.selected i call g hcall (by rw [Submit.selected, hphase])
    obtain ⟨active, hfound, hready, -⟩ := hstaged.active g hactive
    cases hbefore.symm.trans hfound
    exact ⟨hset _ fun x hx => (by cases hx), counted_set hs hbefore (.acquire hready hgraph)⟩
  | rolledBack g revision record error hphase =>
    exact ⟨hset _ fun x hx => (by cases hx), counted_modify hs (fun _ h => h.release) g⟩
  | interrupted hpending => exact ⟨hset _ fun g hg => hs.selected i call g hcall hg, hs.counted⟩

theorem Leasing.of_executionMove [DecidableEq D] {t : Nat} {e : Execution} (hs : s.Leasing)
    (h : ExecutionMove env s t e s') : s'.Leasing := by
  cases h with
  | finalized ledger hledger hlive =>
    exact ⟨hs.selected, counted_modify hs (fun _ h => h.release) e.graph⟩
  | dropped | moved | launched => exact ⟨hs.selected, hs.counted⟩

theorem leasing_step [DecidableEq D] {a : Action D P} (hs : s.Leasing) (hlocked : s.Locked)
    (hstaged : s.Staged) (h : s.step env a = some s') :
    s'.Leasing := by
  have hidle : (∀ j : Nat, Submit.Idle s.submits[j]? s'.submits[j]?) →
      (s'.activeGraph = s.activeGraph ∨ ∀ i, s.locks (.submit i) = false) →
      ∀ (i : Nat) call g, s'.submits[i]? = some call → call.selected = some g →
        s'.activeGraph = some g := by
    intro hsubmits hactive i call' g hcall' hselected'
    have hsubmit := hsubmits i
    rw [hcall'] at hsubmit
    obtain ⟨call, hcall, hselected⟩ := hsubmit.selected hselected'
    rcases hactive with hsame | hfree
    · rw [hsame]
      exact hs.selected i call g hcall hselected
    · have hheld := hfree i
      simp [Runtime.locks, hcall, Option.any_some, Submit.locks_of_selected hselected] at hheld
  rcases step_kinds h with ⟨i, call, hcall, hmove⟩ | ⟨t, e, he, hmove⟩ | hmove | hquiet
  · exact hs.of_submitMove hstaged hcall hmove
  · exact hs.of_executionMove hmove
  · exact ⟨hidle hmove.frame.submits (hmove.activeGraph hlocked), hmove.counted hs⟩
  · refine ⟨hidle hquiet.submits (.inl hquiet.activeGraph), ?_⟩
    rw [hquiet.allGraphs]
    exact hs.counted

/-! ### Every reachable state -/

structure Sound (s : Runtime D P) : Prop where
  locked : s.Locked
  owned : s.Owned
  staged : s.Staged
  tracked : s.Tracked
  leasing : s.Leasing

theorem sound_construct (ledger : Ledger D P) (catalog : Catalog) (initialGeneration : Nat)
    (ownsStore : Bool) : (construct ledger catalog initialGeneration ownsStore).Sound where
  locked h hlocks := by cases h <;> cases hlocks
  owned := owned_construct ledger catalog initialGeneration ownsStore
  staged := staged_construct ledger catalog initialGeneration ownsStore
  tracked := tracked_construct ledger catalog initialGeneration ownsStore
  leasing := leasing_construct ledger catalog initialGeneration ownsStore

theorem sound_step [DecidableEq D] {a : Action D P} (hs : s.Sound) (h : s.step env a = some s')
    : s'.Sound where
  locked := (step_lockMove h).locked hs.locked
  owned := owned_step hs.owned hs.locked h
  staged := staged_step hs.staged hs.locked h
  tracked := tracked_step hs.tracked hs.owned hs.locked h
  leasing := leasing_step hs.leasing hs.locked hs.staged h

theorem sound_run [DecidableEq D] {schedule : List (Action D P)} (hs : s.Sound)
    (h : run (step env) s schedule = some s') : s'.Sound :=
  run_invariant (fun _ _ _ hs h => sound_step hs h) hs h

/-- In every run, no two tasks serve one run, those that are not done can be cancelled, and the graph in service is
ready, while those that it replaced are older and drain. -/
theorem runtimes_stay_sound [DecidableEq D] {ledger : Ledger D P} {catalog : Catalog} {initialGeneration : Nat}
    {ownsStore : Bool} {schedule : List (Action D P)}
    (h : run (step env) (construct ledger catalog initialGeneration ownsStore) schedule = some s) : s.Sound :=
  sound_run (sound_construct ..) h

theorem runtimes_stay_sound_swapped : ∃ s : Runtime String Nat, s.activeGraph = some 1 ∧ s.Sound := by
  obtain ⟨s, hrun, hactive⟩ := Option.map_eq_some_iff.mp (rfl : (run (step Sample.environment) Sample.runtime
    (Sample.opening ++ [.call (.reconfigure 2 1 false), .reconfigure 0 (.check true), .reconfigure 0 (.preflight true),
      .prepare 1 .done, .reconfigure 0 .swap])).map Runtime.activeGraph = some (some 1))
  exact ⟨s, hactive, runtimes_stay_sound hrun⟩

end Runtime

end OpenAgent
