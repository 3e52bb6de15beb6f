import OpenAgent.Workflow.Runs

/-!
# What a run keeps to

Each walk of a run keeps the invariant of walks, its calls are the nodes it ran in the order it ran them,
and the walks in loop bodies are walks of just those bodies. All walks of a run over a graph that passed
the validation are shown here to be so, and the run to end; what is said of runs afterwards is read off
these facts.
-/

namespace OpenAgent.Workflow

open List

def Call.handles (host : Host) (c : Call) : Option (List String) :=
  match c.outcome with
  | .returned taken => taken
  | .raised => if host.onError c.id = "branch" then some ["error"] else none
  | _ => none

def Call.Allowed (host : Host) (c : Call) : Prop :=
  (∃ taken, c.outcome = .returned taken) ∨ c.outcome = .raised ∧ host.onError c.id ≠ "halt"

def Leads (g : Graph) : String → String → Prop :=
  Relation.TransGen fun a b => ∃ e ∈ g.edges, e.source = a ∧ e.target = b

structure CallOk (g : Graph) (c : Call) : Prop where
  node : c.id ∈ g.ids
  steered : ∀ handles, c.outcome = .returned (some handles) → "error" ∉ handles ∧ "body" ∉ handles
  ofLoop : g.isLoop c.id = true →
    c.outcome = .returned (some ["done"]) ∨ c.outcome = .raised ∨ c.outcome = .cut ∨ c.outcome = .unsaved
  iterates : c.iterations ≠ [] → g.isLoop c.id = true
  bodies : ∀ v ∈ c.iterations, v.entry = none ∧ BodyOf g c.id v.graph
  stopped : ∀ v ∈ c.iterations, v.ending = .stopped → c.outcome = .cut
  complete : ∀ taken, c.outcome = .returned taken → ∀ v ∈ c.iterations, v.ending = .finished

structure WalkOk (host : Host) (r : Ran) : Prop where
  proper : Proper r.graph
  inv : ∃ todo, Inv r.graph r.entry r.walk [] todo ∧ (r.ending = .finished → todo = [] ∧ r.walk.ready = [])
  ids : r.calls.map (·.id) = r.walk.executed
  completed : r.walk.completed = ((r.calls.filter (·.routed)).map fun c => (c.id, c.handles host)).reverse
  passed : ∀ c ∈ r.calls, c.routed = true → c.Allowed host ∨ c.outcome = .cancelled
  finished : r.ending = .finished → ∀ c ∈ r.calls, c.routed = true
  cut : ∀ c ∈ r.calls, c.outcome = .cut → r.ending = .stopped
  ordered : ∀ c ∈ r.calls, ∀ d ∈ r.calls, Leads r.graph c.id d.id → c.round < d.round
  calls : ∀ c ∈ r.calls, CallOk r.graph c

variable {host : Host} {g : Graph} {entry : Option String} {s : Walk} {todo : List String}

/-! ### The walk's own facts -/

theorem Inv.ancestors (h : Inv g entry s [] todo) {a b : String} (hlead : Leads g a b)
    (hb : b ∈ s.ready ++ todo ∨ s.settled b = true) : s.settled a = true := by
  have hsource : ∀ e ∈ g.edges, e.target ∈ s.ready ++ todo ∨ s.settled e.target = true →
      s.settled e.source = true := by
    intro e he htarget
    have hin : e ∈ g.incoming e.target := mem_incoming.mpr ⟨he, rfl⟩
    have hfired : e.target ∈ s.ready ++ todo ∨ e.target ∈ s.completed.map Prod.fst → s.settled e.source = true := by
      intro hran
      rcases h.fired _ hran with ⟨hchosen, -⟩ | ⟨hall, -⟩
      · rw [(mem_defaultEntries.mp hchosen).2] at hin
        exact absurd hin not_mem_nil
      · exact hall e hin
    rcases htarget with hready | hsettled
    · exact hfired (.inl hready)
    · rw [Walk.settled, Bool.or_eq_true, decide_eq_true_eq, decide_eq_true_eq] at hsettled
      rcases hsettled with hdone | hdead
      · exact hfired (.inr hdone)
      · exact (h.skipped _ hdead e hin).1
  induction hlead with
  | single hedge =>
    obtain ⟨e, he, rfl, rfl⟩ := hedge
    exact hsource e he hb
  | tail _ hedge ih =>
    obtain ⟨e, he, rfl, rfl⟩ := hedge
    exact ih (.inr (hsource e he hb))

variable {fuel round : Nat}

theorem resolveEdges_completed {agenda : List (Edge × Bool)} {t : Walk}
    (h : resolveEdges g fuel s agenda = some t) : t.completed = s.completed := by
  induction fuel generalizing s agenda with
  | zero =>
    cases agenda with
    | nil =>
      cases h
      rfl
    | cons => cases h
  | succ fuel ih =>
    cases agenda with
    | nil =>
      rw [resolveEdges] at h
      cases h
      rfl
    | cons item rest =>
      obtain ⟨e, b⟩ := item
      rw [resolveEdges] at h
      split at h
      · exact ih h
      · simp only at h
        split at h
        · exact (ih h).trans rfl
        · split at h
          · have hpromote : ((s.count e.target b).promote e.target).completed = s.completed := by
              rw [Walk.promote]
              split <;> rfl
            exact (ih h).trans hpromote
          · exact (ih h).trans rfl

theorem settleBatch_completed {results : List (String × Option (List String))} {t : Walk}
    (h : settleBatch g fuel s results = some t) : t.completed = results.reverse ++ s.completed := by
  induction results generalizing s with
  | nil =>
    cases h
    rfl
  | cons result rest ih =>
    rw [settleBatch] at h
    obtain ⟨m, hm, hrest⟩ := Option.bind_eq_some_iff.mp h
    rw [ih hrest, resolveEdges_completed hm, reverse_cons, append_assoc]
    rfl

/-! ### The nodes of a batch -/

/-- What is used of the call of a node: `good` holds of the walks of its iterations. -/
structure NodeOk (host : Host) (g : Graph) (good : Ran → Prop) (round : Nat) (id : String) (n : NodeRan)
    (c : Call) : Prop where
  called : n.call = some c
  id_eq : c.id = id
  round_eq : c.round = round
  call : CallOk g c
  good : ∀ v ∈ c.iterations, good v
  took : n.result ≠ .cut → n.result ≠ .raised →
    n.result.handles = c.handles host ∧ (c.Allowed host ∨ c.outcome = .cancelled)
  cut : c.outcome = .cut → n.result = .cut

theorem mapM_calls {good : Ran → Prop} {call : String → Option NodeRan} {batch : List String}
    (h : ∀ id ∈ batch, ∃ n c, call id = some n ∧ NodeOk host g good round id n c) :
    ∃ runs, batch.mapM call = some runs ∧
      List.Forall₂ (fun id n => ∃ c, NodeOk host g good round id n c) batch runs := by
  induction batch with
  | nil => exact ⟨[], rfl, .nil⟩
  | cons id rest ih =>
    obtain ⟨n, c, hn, hok⟩ := h id mem_cons_self
    obtain ⟨runs, hruns, hall⟩ := ih fun other hother => h other (mem_cons_of_mem _ hother)
    refine ⟨n :: runs, ?_, .cons ⟨c, hok⟩ hall⟩
    rw [mapM_cons, hn, hruns]
    rfl

variable {runs : List NodeRan}

theorem batchCalls_ok {good : Ran → Prop} {batch : List String}
    (h : List.Forall₂ (fun id n => ∃ c, NodeOk host g good round id n c) batch runs) (routed : Bool) :
    (batchCalls routed runs).map (·.id) = batch ∧
      ∀ c ∈ batchCalls routed runs, c.routed = routed ∧ c.round = round ∧ c.id ∈ batch ∧ CallOk g c ∧
        (∀ v ∈ c.iterations, good v) ∧
        ∃ n ∈ runs, (n.result ≠ .cut → n.result ≠ .raised →
          n.result.handles = c.handles host ∧ (c.Allowed host ∨ c.outcome = .cancelled)) ∧
        (c.outcome = .cut → n.result = .cut) := by
  induction h with
  | nil => exact ⟨rfl, fun c hc => absurd hc not_mem_nil⟩
  | @cons id n batch runs hhead _ ih =>
    obtain ⟨c, hok⟩ := hhead
    obtain ⟨hids, hcalls⟩ := ih
    have hcons : batchCalls routed (n :: runs) = { c with routed } :: batchCalls routed runs := by
      rw [batchCalls, filterMap_cons, hok.called]
      rfl
    rw [hcons]
    constructor
    · rw [map_cons, hids]
      exact congrArg (· :: batch) hok.id_eq
    · intro d hd
      rcases List.mem_cons.mp hd with rfl | hd
      · obtain ⟨hnode, hsteered, hloop, hiterates, hbodies, hstopped, hcomplete⟩ := hok.call
        exact ⟨rfl, hok.round_eq, hok.id_eq ▸ mem_cons_self,
          ⟨hnode, hsteered, hloop, hiterates, hbodies, hstopped, hcomplete⟩, hok.good, n, mem_cons_self,
          hok.took, hok.cut⟩
      · obtain ⟨hrouted, hround, hmem, hcall, hgood, m, hm, hresult⟩ := hcalls d hd
        exact ⟨hrouted, hround, mem_cons_of_mem _ hmem, hcall, hgood, m, mem_cons_of_mem _ hm, hresult⟩

theorem batch_results {good : Ran → Prop} {batch : List String}
    (h : List.Forall₂ (fun id n => ∃ c, NodeOk host g good round id n c) batch runs)
    (hcut : ∀ n ∈ runs, n.result ≠ .cut) (hraised : ∀ n ∈ runs, n.result ≠ .raised) :
    batch.zip (runs.map fun n => n.result.handles) =
      (batchCalls true runs).map fun c => (c.id, c.handles host) := by
  induction h with
  | nil => rfl
  | @cons id n batch runs hhead _ ih =>
    obtain ⟨c, hok⟩ := hhead
    obtain ⟨hhandles, -⟩ := hok.took (hcut n mem_cons_self) (hraised n mem_cons_self)
    have hcons : batchCalls true (n :: runs) = { c with routed := true } :: batchCalls true runs := by
      rw [batchCalls, filterMap_cons, hok.called]
      rfl
    rw [hcons, map_cons, zip_cons_cons, map_cons,
      ih (fun m hm => hcut m (mem_cons_of_mem _ hm)) (fun m hm => hraised m (mem_cons_of_mem _ hm)),
      hhandles, ← hok.id_eq]
    rfl

/-! ### The batches -/

structure BatchesOk (host : Host) (g : Graph) (entry : Option String) (good : Ran → Prop) (round : Nat)
    (p : Progress) : Prop where
  inv : Inv g entry p.walk [] []
  ids : p.calls.map (·.id) = p.walk.executed
  completed : p.walk.completed = (p.calls.map fun c => (c.id, c.handles host)).reverse
  calls : ∀ c ∈ p.calls, CallOk g c ∧ (∀ v ∈ c.iterations, good v) ∧ (c.Allowed host ∨ c.outcome = .cancelled)
  routed : ∀ c ∈ p.calls, c.routed = true
  rounds : ∀ c ∈ p.calls, c.round < round
  ordered : ∀ c ∈ p.calls, ∀ d ∈ p.calls, Leads g c.id d.id → c.round < d.round

variable {good : Ran → Prop} {round : Nat} {p : Progress}

theorem BatchesOk.ordered_append (h : BatchesOk host g entry good round p) {calls : List Call}
    (hround : ∀ c ∈ calls, c.round = round) (hready : ∀ c ∈ calls, c.id ∈ p.walk.ready) :
    ∀ c ∈ p.calls ++ calls, ∀ d ∈ p.calls ++ calls, Leads g c.id d.id → c.round < d.round := by
  have hopen : ∀ c ∈ calls, p.walk.settled c.id = false := by
    intro c hc
    exact (h.inv.open_ids _ (by rw [append_nil]; exact hready c hc)).2
  intro c hc d hd hlead
  rcases List.mem_append.mp hd with hold | hnew
  · rcases List.mem_append.mp hc with hc | hc
    · exact h.ordered c hc d hold hlead
    · have hran : d.id ∈ p.walk.executed := by
        rw [← h.ids]
        exact mem_map_of_mem hold
      have hdone : p.walk.settled d.id = true := by
        rcases (h.inv.executed.2 _).mp hran with hmem | hmem
        · exact absurd hmem not_mem_nil
        · rw [Walk.settled, Bool.or_eq_true, decide_eq_true_eq]
          exact .inl hmem
      have hsettled := h.inv.ancestors hlead (.inr hdone)
      simp [hopen c hc] at hsettled
  · rcases List.mem_append.mp hc with hc | hc
    · rw [hround d hnew]
      exact h.rounds c hc
    · have hsettled := h.inv.ancestors hlead (.inl (by rw [append_nil]; exact hready d hnew))
      simp [hopen c hc] at hsettled

theorem BatchesOk.abort (hproper : Proper g) (h : BatchesOk host g entry good round p)
    (hruns : List.Forall₂ (fun id n => ∃ c, NodeOk host g good round id n c) p.walk.ready runs)
    {ending : Ending} (hending : ending ≠ .finished)
    (hcut : ending ≠ .stopped → ∀ n ∈ runs, n.result ≠ .cut) (trace : List (String × TraceStatus)) :
    WalkOk host
        { graph := g, entry, ending
          walk := { p.walk with ready := [], executed := p.walk.executed ++ p.walk.ready, trace }
          calls := p.calls ++ batchCalls false runs } ∧
      ∀ c ∈ p.calls ++ batchCalls false runs, ∀ v ∈ c.iterations, good v := by
  obtain ⟨hids, hcalls⟩ := batchCalls_ok hruns false
  constructor
  · constructor
    · exact hproper
    · exact ⟨p.walk.ready, h.inv.begin trace, fun hfinished => absurd hfinished hending⟩
    · show (p.calls ++ batchCalls false runs).map (·.id) = _
      rw [map_append, h.ids, hids]
    · have hnone : (batchCalls false runs).filter (·.routed) = [] := by
        apply List.filter_eq_nil_iff.mpr
        intro c hc
        rw [(hcalls c hc).1]
        exact Bool.false_ne_true
      have hall : p.calls.filter (·.routed) = p.calls := List.filter_eq_self.mpr h.routed
      show p.walk.completed = (((p.calls ++ batchCalls false runs).filter (·.routed)).map _).reverse
      rw [filter_append, hnone, hall, append_nil]
      exact h.completed
    · intro c hc hrouted
      rcases List.mem_append.mp hc with hold | hnew
      · exact (h.calls c hold).2.2
      · simp [(hcalls c hnew).1] at hrouted
    · exact fun hfinished => absurd hfinished hending
    · intro c hc hcutcall
      rcases List.mem_append.mp hc with hold | hnew
      · rcases (h.calls c hold).2.2 with (⟨taken, hret⟩ | ⟨hraised, -⟩) | hcancelled
        · simp [hcutcall] at hret
        · simp [hcutcall] at hraised
        · simp [hcutcall] at hcancelled
      · obtain ⟨-, -, -, -, -, n, hn, -, hresult⟩ := hcalls c hnew
        by_contra hne
        exact hcut hne n hn (hresult hcutcall)
    · exact h.ordered_append (fun c hc => (hcalls c hc).2.1) fun c hc => (hcalls c hc).2.2.1
    · intro c hc
      rcases List.mem_append.mp hc with hold | hnew
      · exact (h.calls c hold).1
      · exact (hcalls c hnew).2.2.2.1
  · intro c hc
    rcases List.mem_append.mp hc with hold | hnew
    · exact (h.calls c hold).2.1
    · exact (hcalls c hnew).2.2.2.2.1

theorem BatchesOk.advance (hproper : Proper g) (h : BatchesOk host g entry good round p)
    (hruns : List.Forall₂ (fun id n => ∃ c, NodeOk host g good round id n c) p.walk.ready runs)
    (hcut : ∀ n ∈ runs, n.result ≠ .cut) (hraised : ∀ n ∈ runs, n.result ≠ .raised) {fuel : Nat}
    (hfuel : 2 * g.edges.length ≤ fuel) (trace : List (String × TraceStatus)) :
    ∃ m, settleBatch g fuel { p.walk with ready := [], executed := p.walk.executed ++ p.walk.ready, trace }
        (p.walk.ready.zip (runs.map fun n => n.result.handles)) = some m ∧
      m.executed = p.walk.executed ++ p.walk.ready ∧
      BatchesOk host g entry good (round + 1) ⟨m, p.calls ++ batchCalls true runs⟩ := by
  obtain ⟨hids, hcalls⟩ := batchCalls_ok hruns true
  have hresults := batch_results hruns hcut hraised
  have hbegin := h.inv.begin trace
  have hfirst : ((p.walk.ready.zip (runs.map fun n => n.result.handles)).map Prod.fst) = p.walk.ready := by
    rw [hresults, map_map]
    exact hids
  rw [← hfirst] at hbegin
  obtain ⟨m, hm, hinv, hran⟩ := settleBatch_inv hproper.toSound hfuel hbegin
  rw [hfirst] at hm hran
  refine ⟨m, hm, hran, hinv, ?_, ?_, ?_, ?_, ?_, ?_⟩
  · show (p.calls ++ batchCalls true runs).map (·.id) = m.executed
    rw [map_append, h.ids, hids, hran]
  · show m.completed = _
    rw [settleBatch_completed hm, hresults]
    show _ ++ p.walk.completed = ((p.calls ++ batchCalls true runs).map _).reverse
    rw [map_append, reverse_append, h.completed]
  · intro c hc
    rcases List.mem_append.mp hc with hold | hnew
    · exact h.calls c hold
    · obtain ⟨-, -, -, hcall, hgood, n, hn, htook, -⟩ := hcalls c hnew
      exact ⟨hcall, hgood, (htook (hcut n hn) (hraised n hn)).2⟩
  · intro c hc
    rcases List.mem_append.mp hc with hold | hnew
    · exact h.routed c hold
    · exact (hcalls c hnew).1
  · intro c hc
    rcases List.mem_append.mp hc with hold | hnew
    · exact Nat.lt_succ_of_lt (h.rounds c hold)
    · rw [(hcalls c hnew).2.1]
      exact Nat.lt_succ_self round
  · exact h.ordered_append (fun c hc => (hcalls c hc).2.1) fun c hc => (hcalls c hc).2.2.1

theorem BatchesOk.finish (hproper : Proper g) (h : BatchesOk host g entry good round p) (hready : p.walk.ready = []) :
    WalkOk host { graph := g, entry, ending := .finished, walk := { p.walk with ready := [] }, calls := p.calls } ∧
      ∀ c ∈ p.calls, ∀ v ∈ c.iterations, good v := by
  have hsame : { p.walk with ready := [] } = p.walk := by rw [← hready]
  rw [hsame]
  have hall : p.calls.filter (·.routed) = p.calls := List.filter_eq_self.mpr h.routed
  refine ⟨⟨hproper, ⟨[], h.inv, fun _ => ⟨rfl, hready⟩⟩, h.ids, ?_, fun c hc _ => (h.calls c hc).2.2,
    fun _ => h.routed, ?_, h.ordered, fun c hc => (h.calls c hc).1⟩, fun c hc => (h.calls c hc).2.1⟩
  · show p.walk.completed = ((p.calls.filter (·.routed)).map _).reverse
    rw [hall]
    exact h.completed
  · intro c hc hcut
    rcases (h.calls c hc).2.2 with (⟨taken, hret⟩ | ⟨hraised, -⟩) | hcancelled
    · simp [hcut] at hret
    · simp [hcut] at hraised
    · simp [hcut] at hcancelled

theorem runBatches_ok (hproper : Proper g) {place : Place} (hfuel : 2 * g.edges.length ≤ fuel)
    {call : Nat → String → Option NodeRan}
    (hcall : ∀ round, ∀ id ∈ g.ids, ∃ n c, call round id = some n ∧ NodeOk host g good round id n c)
    {rounds : Nat} (h : BatchesOk host g entry good round p)
    (hrounds : g.ids.length < p.walk.executed.length + rounds) :
    ∃ ending q, runBatches host place g fuel call rounds round p = some (ending, q) ∧
      WalkOk host { graph := g, entry, ending, walk := q.walk, calls := q.calls } ∧
      ∀ c ∈ q.calls, ∀ v ∈ c.iterations, good v := by
  have hshort : ∀ {t todo}, Inv g entry t [] todo → t.executed.length ≤ g.ids.length := fun ht =>
    (subperm_of_subset ht.executed.1 (ht.executed_ids hproper.toSound)).length_le
  induction rounds generalizing p round with
  | zero =>
    have hle := hshort h.inv
    omega
  | succ rounds ih =>
    rw [runBatches]
    simp only [h.inv.batch]
    split
    · rename_i hempty
      exact ⟨_, _, rfl, h.finish hproper (List.isEmpty_iff.mp hempty)⟩
    · rename_i hsome
      obtain ⟨runs, hruns, hall⟩ := mapM_calls fun id hid =>
        hcall round id (h.inv.open_ids id (mem_append_left _ hid)).1
      simp only [hruns, Option.bind_some]
      split
      · exact ⟨_, _, rfl, h.abort hproper hall (by decide) (fun hne => absurd rfl hne) _⟩
      · rename_i hgoes
        rw [Bool.or_eq_true, not_or, any_eq_true, not_exists] at hgoes
        have hcut : ∀ n ∈ runs, n.result ≠ .cut := fun n hn heq => hgoes.2 n ⟨hn, decide_eq_true heq⟩
        split
        · exact ⟨_, _, rfl, h.abort hproper hall (by decide) (fun _ => hcut) _⟩
        · rename_i hfine
          rw [any_eq_true, not_exists] at hfine
          have hraised : ∀ n ∈ runs, n.result ≠ .raised := fun n hn heq => hfine n ⟨hn, decide_eq_true heq⟩
          obtain ⟨m, hm, hran, hnext⟩ := h.advance hproper hall hcut hraised hfuel
            (p.walk.trace ++ p.walk.ready.map fun id => (id, TraceStatus.ran))
          simp only [hm, Option.bind_some]
          refine ih hnext ?_
          have hpos : 0 < p.walk.ready.length :=
            length_pos_of_ne_nil fun hnil => hsome (List.isEmpty_iff.mpr hnil)
          show g.ids.length < m.executed.length + rounds
          rw [hran, length_append]
          omega

/-! ### One node -/

theorem closeNode_took (host : Host) (place : Place) (c : Call)
    (hcut : closeNode host place c.id c.outcome ≠ .cut) (hraised : closeNode host place c.id c.outcome ≠ .raised) :
    (closeNode host place c.id c.outcome).handles = c.handles host ∧ (c.Allowed host ∨ c.outcome = .cancelled) := by
  rw [Call.handles, Call.Allowed]
  cases hout : c.outcome with
  | unsaved =>
    rw [hout] at hraised
    exact absurd rfl hraised
  | cut =>
    rw [hout] at hcut
    exact absurd rfl hcut
  | cancelled => exact ⟨rfl, .inr rfl⟩
  | returned taken =>
    rw [hout, closeNode] at hcut hraised
    rw [closeNode]
    cases hsave : host.closing place c.id with
    | written => exact ⟨rfl, .inl (.inl ⟨taken, rfl⟩)⟩
    | failed =>
      rw [hsave] at hraised
      exact absurd rfl hraised
    | cut =>
      rw [hsave] at hcut
      exact absurd rfl hcut
  | raised =>
    rw [hout, closeNode] at hcut hraised
    rw [closeNode]
    cases hsave : host.closing place c.id with
    | written =>
      rw [hsave] at hraised
      dsimp only at hraised ⊢
      split at hraised
      · exact absurd rfl hraised
      · rename_i hhalt
        rw [if_neg hhalt]
        refine ⟨?_, .inl (.inr ⟨rfl, hhalt⟩)⟩
        split <;> rfl
    | failed =>
      rw [hsave] at hraised
      exact absurd rfl hraised
    | cut =>
      rw [hsave] at hcut
      exact absurd rfl hcut

theorem iterate_ok {sub : Nat → Option Ran} {body : Graph}
    (hsub : ∀ i, ∃ v, sub i = some v ∧ v.graph = body ∧ v.entry = none ∧ good v) (left i : Nat) :
    ∃ out, iterate sub left i = some out ∧
      (out.1 = .returned (some ["done"]) ∨ out.1 = .raised ∨ out.1 = .cut) ∧
      ∀ v ∈ out.2, (v.graph = body ∧ v.entry = none ∧ good v) ∧ (v.ending = .stopped → out.1 = .cut) ∧
        ∀ taken, out.1 = .returned taken → v.ending = .finished := by
  induction left generalizing i with
  | zero => exact ⟨_, rfl, .inl rfl, fun v hv => absurd hv not_mem_nil⟩
  | succ left ih =>
    obtain ⟨v, hv, hgood⟩ := hsub i
    rw [iterate, hv, Option.bind_some]
    cases hending : v.ending with
    | finished =>
      obtain ⟨out, hout, hend, hall⟩ := ih (i + 1)
      rw [hout]
      refine ⟨_, rfl, hend, fun w hw => ?_⟩
      rcases List.mem_cons.mp hw with rfl | hw
      · refine ⟨hgood, fun hstop => ?_, fun _ _ => hending⟩
        simp [hending] at hstop
      · exact hall w hw
    | failed =>
      refine ⟨_, rfl, .inr (.inl rfl), fun w hw => ?_⟩
      cases List.mem_singleton.mp hw
      refine ⟨hgood, fun hstop => ?_, fun taken htaken => by cases htaken⟩
      simp [hending] at hstop
    | stopped =>
      refine ⟨_, rfl, .inr (.inr rfl), fun w hw => ?_⟩
      cases List.mem_singleton.mp hw
      exact ⟨hgood, fun _ => rfl, fun taken htaken => by cases htaken⟩

theorem takenBy_steered {type : String} {verdict : Bool} {handles : List String}
    (h : takenBy type verdict = some handles) : "error" ∉ handles ∧ "body" ∉ handles := by
  rw [takenBy] at h
  split at h
  · cases h
    cases verdict <;> decide
  · cases h

theorem mem_handlers : ∀ type ∈ blockCatalog, type ∈ handlers := by decide

theorem runHandler_ok (hproper : Proper g) {fuel : Nat} (hfuel : 2 * g.edges.length ≤ fuel)
    {sub : Place → Graph → Option Ran} {place : Place} {node : Node} (hnode : node ∈ g.nodes)
    (hsub : ∀ place body, BodyOf g node.id body → Proper body →
      ∃ v, sub place body = some v ∧ v.graph = body ∧ v.entry = none ∧ good v) (round : Nat) :
    ∃ out, runHandler host fuel sub place g node = some out ∧
      CallOk g { id := node.id, round, outcome := out.1, iterations := out.2 } ∧ ∀ v ∈ out.2, good v := by
  have hids : node.id ∈ g.ids := mem_map_of_mem hnode
  have hfind := nodeOf_self hproper.nodup hnode
  rw [runHandler]
  split
  · rename_i htype
    have hloop : g.isLoop node.id = true := isLoop_iff.mpr ⟨node, hfind, htype⟩
    have hplain : ∀ end', (end' = CallEnd.returned (some ["done"]) ∨ end' = .raised ∨ end' = .cut) →
        ∀ handles, end' = .returned (some handles) → "error" ∉ handles ∧ "body" ∉ handles := by
      rintro end' (rfl | rfl | rfl) handles hhandles
      · cases CallEnd.returned.inj hhandles
        decide
      · cases hhandles
      · cases hhandles
    cases hitems : host.items place node.id with
    | none =>
      refine ⟨_, rfl, ⟨hids, hplain _ (.inr (.inl rfl)), fun _ => .inr (.inl rfl), fun hne => absurd rfl hne, ?_,
        ?_, ?_⟩, ?_⟩
      · exact fun v hv => absurd hv not_mem_nil
      · exact fun v hv => absurd hv not_mem_nil
      · exact fun taken htaken => by cases htaken
      · exact fun v hv => absurd hv not_mem_nil
    | some items =>
      obtain ⟨length, maxIterations⟩ := items
      obtain ⟨body, hbody, hpart, hproper'⟩ := extractBodySubgraph_ok hproper (host.order place) node.id hfuel
      obtain ⟨out, hout, hend, hall⟩ := iterate_ok
        (fun i => hsub ((node.id, i) :: place) body hpart hproper') (min length maxIterations.toNat) 0
      simp only [hbody, Option.bind_some]
      refine ⟨out, hout, ⟨hids, hplain _ hend, fun _ => ?_, fun _ => hloop, ?_, ?_, ?_⟩, ?_⟩
      · rcases hend with h | h | h
        · exact .inl h
        · exact .inr (.inl h)
        · exact .inr (.inr (.inl h))
      · intro v hv
        obtain ⟨⟨hgraph, hentry, -⟩, -⟩ := hall v hv
        rw [hgraph]
        exact ⟨hentry, hpart⟩
      · exact fun v hv hstop => (hall v hv).2.1 hstop
      · exact fun taken htaken v hv => (hall v hv).2.2 taken htaken
      · exact fun v hv => (hall v hv).1.2.2
  · rename_i htype
    have hloop : g.isLoop node.id ≠ true := by
      intro hloop
      obtain ⟨n, hn, hntype⟩ := isLoop_iff.mp hloop
      rw [hfind] at hn
      cases hn
      exact htype hntype
    have hnone : ∀ out : CallEnd, (∀ handles, out = .returned (some handles) → "error" ∉ handles ∧ "body" ∉ handles) →
        CallOk g { id := node.id, round, outcome := out } ∧ ∀ v ∈ ([] : List Ran), good v := by
      intro out hsteered
      refine ⟨⟨hids, hsteered, fun h => absurd h hloop, fun hne => absurd rfl hne, ?_, ?_, ?_⟩, ?_⟩
      · exact fun v hv => absurd hv not_mem_nil
      · exact fun v hv => absurd hv not_mem_nil
      · exact fun taken _ v hv => absurd hv not_mem_nil
      · exact fun v hv => absurd hv not_mem_nil
    cases hact : host.act place node.id with
    | returns verdict =>
      exact ⟨_, rfl, hnone _ fun handles h => takenBy_steered (CallEnd.returned.inj h)⟩
    | raises => exact ⟨_, rfl, hnone _ fun handles h => by cases h⟩
    | cancels => exact ⟨_, rfl, hnone _ fun handles h => by cases h⟩
    | cut => exact ⟨_, rfl, hnone _ fun handles h => by cases h⟩

theorem runNode_ok (hproper : Proper g) (hfuel : 2 * g.edges.length ≤ fuel)
    {sub : Place → Graph → Option Ran} {place : Place} {node : Node} (hnode : node ∈ g.nodes)
    (hsub : ∀ place body, BodyOf g node.id body → Proper body →
      ∃ v, sub place body = some v ∧ v.graph = body ∧ v.entry = none ∧ good v) (round : Nat) :
    ∃ n c, runNode host fuel sub place g round node = some n ∧ NodeOk host g good round node.id n c := by
  have hids : node.id ∈ g.ids := mem_map_of_mem hnode
  have hcold : ∀ out, (out = CallEnd.unsaved ∨ out = .cut) → CallOk g { id := node.id, round, outcome := out } := by
    intro out hout
    refine ⟨hids, ?_, fun _ => ?_, fun hne => absurd rfl hne, ?_, ?_, ?_⟩
    · rintro handles rfl
      rcases hout with h | h
      · cases h
      · cases h
    · rcases hout with h | h
      · exact .inr (.inr (.inr h))
      · exact .inr (.inr (.inl h))
    · exact fun v hv => absurd hv not_mem_nil
    · exact fun v hv => absurd hv not_mem_nil
    · exact fun taken _ v hv => absurd hv not_mem_nil
  rw [runNode, if_neg (not_not.mpr (mem_handlers _ (hproper.typed node hnode)))]
  cases hopening : host.opening place node.id with
  | failed =>
    exact ⟨_, { id := node.id, round, outcome := .unsaved }, rfl, rfl, rfl, rfl, hcold _ (.inl rfl),
      fun v hv => absurd hv not_mem_nil, fun _ hraised => absurd rfl hraised, nofun⟩
  | cut =>
    exact ⟨_, { id := node.id, round, outcome := .cut }, rfl, rfl, rfl, rfl, hcold _ (.inr rfl),
      fun v hv => absurd hv not_mem_nil, fun hcut => absurd rfl hcut, fun _ => rfl⟩
  | written =>
    obtain ⟨out, hout, hcall, hgood⟩ := @runHandler_ok host _ _ hproper _ hfuel _ place _ hnode hsub round
    rw [hout]
    refine ⟨_, { id := node.id, round, outcome := out.1, iterations := out.2 }, rfl, rfl, rfl, rfl, hcall, hgood,
      closeNode_took host place { id := node.id, round, outcome := out.1, iterations := out.2 }, ?_⟩
    intro hcut
    show closeNode host place node.id out.1 = .cut
    rw [show out.1 = CallEnd.cut from hcut]
    rfl

/-! ### The walks -/

theorem Inv.withTrace {agenda : List (Edge × Bool)} (h : Inv g entry s agenda todo)
    (trace : List (String × TraceStatus)) : Inv g entry { s with trace } agenda todo :=
  ⟨h.agenda_edges, h.waiting, h.counted, h.free, h.open_ids, h.once, h.fired, h.started, h.skipped, h.apart,
    h.executed, h.stuck⟩

theorem startWalk_completed {order : SetOrder} (h : startWalk g order entry fuel = some (.ok s)) :
    s.completed = [] := by
  cases entry with
  | none =>
    cases Option.some.inj h
    rfl
  | some id =>
    rw [startWalk] at h
    simp only at h
    split at h
    · cases h
    · split at h
      · cases h
      · obtain ⟨t, ht, hs⟩ := Option.map_eq_some_iff.mp h
        cases hs
        exact resolveEdges_completed ht

structure Started (g : Graph) (entry : Option String) (s : Walk) : Prop where
  inv : Inv g entry s [] []
  completed : s.completed = []

theorem Started.executed (h : Started g entry s) : s.executed = [] := by
  apply List.eq_nil_iff_forall_not_mem.mpr
  intro id hid
  rcases (h.inv.executed.2 id).mp hid with hmem | hmem
  · exact not_mem_nil hmem
  · rw [h.completed] at hmem
    exact not_mem_nil hmem

theorem started_freshWalk (hproper : Proper g) : Started g none (freshWalk g) := by
  obtain ⟨r, hr, hinv⟩ := @startWalk_inv g none hproper.toSound ⟨fun l => l, List.Perm.refl⟩ _
    (Nat.le_refl g.edges.length)
  rw [startWalk_none] at hr
  cases hr
  exact ⟨hinv _ rfl, rfl⟩

theorem runWalk_ok (host : Host) {depth : Nat} {place : Place} (hproper : Proper g)
    (hfuel : 2 * g.edges.length + g.ids.length < fuel) (hdepth : g.ids.length < depth)
    (hs : Started g entry s) :
    ∃ r, runWalk host fuel depth place g entry s = some r ∧ r.graph = g ∧ r.entry = entry ∧
      ∀ w, w.Within r → WalkOk host w := by
  induction depth generalizing g entry s place with
  | zero => omega
  | succ depth ih =>
    have hcall : ∀ round, ∀ id ∈ g.ids, ∃ n c,
        (g.nodeOf id).bind (runNode host fuel
          (fun place body => runWalk host fuel depth place body none (freshWalk body)) place g round) = some n ∧
        NodeOk host g (fun v => ∀ w, w.Within v → WalkOk host w) round id n c := by
      intro round id hid
      obtain ⟨node, hnode⟩ := nodeOf_of_mem hid
      obtain ⟨hmem, rfl⟩ := nodeOf_id hnode
      rw [hnode, Option.bind_some]
      apply runNode_ok hproper (by omega) hmem
      intro place body hpart hproper'
      have hsmall := hpart.length_lt hproper hproper'.nodup hid
      have hsize := hpart.size
      exact ih hproper' (by omega) (by omega) (started_freshWalk hproper')
    have hstart : BatchesOk host g entry (fun v => ∀ w, w.Within v → WalkOk host w) 0 { walk := s } := by
      refine ⟨hs.inv, hs.executed.symm, hs.completed, ?_, ?_, ?_, ?_⟩
      · exact fun c hc => absurd hc not_mem_nil
      · exact fun c hc => absurd hc not_mem_nil
      · exact fun c hc => absurd hc not_mem_nil
      · exact fun c hc => absurd hc not_mem_nil
    have hedges : 2 * g.edges.length ≤ fuel := by omega
    have hrounds : g.ids.length < s.executed.length + fuel := by omega
    obtain ⟨ending, q, hrun, hok, hgood⟩ := runBatches_ok hproper hedges hcall hstart hrounds
    rw [runWalk, hrun]
    refine ⟨_, rfl, rfl, rfl, ?_⟩
    intro w hw
    cases hw with
    | self =>
      obtain ⟨hproper', ⟨todo, hinv, hend⟩, hids, hcompleted, hrouted, hfinished, hcut, hordered, hcalls⟩ := hok
      by_cases hdone : ending = .finished
      · simp only [hdone, if_true]
        refine ⟨hproper', ⟨todo, hinv.withTrace _, fun _ => hend hdone⟩, hids, hcompleted, hrouted,
          fun _ => hfinished hdone, fun c hc hcutc => ?_, hordered, hcalls⟩
        have hstop := hcut c hc hcutc
        simp [hdone] at hstop
      · simp only [if_neg hdone]
        exact ⟨hproper', ⟨todo, hinv, hend⟩, hids, hcompleted, hrouted, hfinished, hcut, hordered, hcalls⟩
    | nested hc hv hw => exact hgood _ hc _ hv w hw

theorem runWorkflow_ok (hproper : Proper g) (host : Host) (entry : Option String)
    (hfuel : 2 * g.edges.length + g.ids.length < fuel) :
    ∃ result, runWorkflow host g entry fuel = some result ∧
      ∀ r, result = .ok r → r.graph = g ∧ r.entry = entry ∧ ∀ w, w.Within r → WalkOk host w := by
  obtain ⟨start, hstart, hinv⟩ := @startWalk_inv g entry hproper.toSound (host.order []) fuel (by omega)
  rw [runWorkflow, hstart]
  cases start with
  | error e => exact ⟨_, rfl, fun r hr => by cases hr⟩
  | ok s =>
    have hdepth : g.ids.length < fuel := by omega
    have hrun : ∃ r, runWalk host fuel fuel [] g entry s = some r ∧ r.graph = g ∧ r.entry = entry ∧
        ∀ w, w.Within r → WalkOk host w :=
      runWalk_ok host hproper hfuel hdepth ⟨hinv s rfl, startWalk_completed hstart⟩
    obtain ⟨r, hr, hgraph, hentry, hall⟩ := hrun
    simp only [hr, Option.map_some]
    refine ⟨_, rfl, fun r' hr' => ?_⟩
    cases hr'
    exact ⟨hgraph, hentry, hall⟩

/-! ### What the facts say -/

variable {w : Ran}

theorem WalkOk.mem_completed (h : WalkOk host w) {id : String} {handles : Option (List String)} :
    (id, handles) ∈ w.walk.completed ↔ ∃ c ∈ w.calls, c.routed = true ∧ c.id = id ∧ c.handles host = handles := by
  rw [h.completed, mem_reverse, mem_map]
  constructor
  · rintro ⟨c, hc, heq⟩
    obtain ⟨hmem, hrouted⟩ := List.mem_filter.mp hc
    obtain ⟨hid, hhandles⟩ := Prod.mk.inj heq
    exact ⟨c, hmem, hrouted, hid, hhandles⟩
  · rintro ⟨c, hmem, hrouted, rfl, rfl⟩
    exact ⟨c, List.mem_filter.mpr ⟨hmem, hrouted⟩, rfl⟩

theorem WalkOk.satisfied_iff (h : WalkOk host w) {e : Edge} :
    w.walk.satisfied e = true ↔
      ∃ c ∈ w.calls, c.routed = true ∧ c.id = e.source ∧ routed (c.handles host) e = true := by
  rw [Walk.satisfied, any_eq_true]
  constructor
  · rintro ⟨⟨id, handles⟩, hmem, heq⟩
    rw [Bool.and_eq_true, decide_eq_true_eq] at heq
    obtain ⟨c, hc, hrouted, rfl, rfl⟩ := h.mem_completed.mp hmem
    exact ⟨c, hc, hrouted, heq⟩
  · rintro ⟨c, hc, hrouted, hid, htaken⟩
    refine ⟨(c.id, c.handles host), h.mem_completed.mpr ⟨c, hc, hrouted, rfl, rfl⟩, ?_⟩
    rw [Bool.and_eq_true, decide_eq_true_eq]
    exact ⟨hid, htaken⟩

theorem WalkOk.call_unique (h : WalkOk host w) {c d : Call} (hc : c ∈ w.calls) (hd : d ∈ w.calls)
    (hid : c.id = d.id) : c = d := by
  obtain ⟨todo, hinv, -⟩ := h.inv
  have hnodup : (w.calls.map (·.id)).Nodup := by
    rw [h.ids]
    exact hinv.executed.1
  exact inj_on_of_nodup_map hnodup hc hd hid

theorem WalkOk.fired (h : WalkOk host w) {d : Call} (hd : d ∈ w.calls) :
    chosen w.graph w.entry d.id ∨ ((∀ e ∈ w.graph.incoming d.id, w.walk.settled e.source = true) ∧
      ∃ e ∈ w.graph.incoming d.id, w.walk.satisfied e = true) := by
  obtain ⟨todo, hinv, -⟩ := h.inv
  have hran : d.id ∈ w.walk.executed := by
    rw [← h.ids]
    exact mem_map_of_mem hd
  apply hinv.fired d.id
  rcases (hinv.executed.2 d.id).mp hran with htodo | hdone
  · exact .inl (mem_append_right _ htodo)
  · exact .inr hdone

theorem WalkOk.not_exempt (h : WalkOk host w) {e : Edge} (he : e ∈ w.graph.edges)
    (hsat : w.walk.satisfied e = true) : w.graph.exempt e = false := by
  obtain ⟨todo, hinv, -⟩ := h.inv
  cases hexempt : w.graph.exempt e with
  | false => rfl
  | true =>
    have hopen := hinv.stuck e.source ⟨e, he, hexempt, rfl⟩
    obtain ⟨c, hc, hrouted, hid, -⟩ := h.satisfied_iff.mp hsat
    have hdone : e.source ∈ w.walk.completed.map Prod.fst :=
      mem_map_of_mem (h.mem_completed.mpr ⟨c, hc, hrouted, hid, rfl⟩)
    rw [Walk.settled, Bool.or_eq_false_iff] at hopen
    exact absurd hdone (of_decide_eq_false hopen.1)

end OpenAgent.Workflow
