import OpenAgent.Workflow.RunFacts

/-!
# Loops in a run

Each iteration of a loop is a walk of the loop's body of its own. What runs in it is told by the edges of
the body alone. The outer walk resolves the loop's body edges as not taken, so that it comes into the body
only over other edges, if the graph has them; and what the done handle leads to waits for the loop.
-/

namespace OpenAgent.Workflow

def Ran.times (v : Ran) (id : String) : Nat := v.calls.countP fun d => d.id = id

def Ran.Reached (v : Ran) (id : String) : Prop :=
  v.graph.incoming id = [] ∨ ((∀ e ∈ v.graph.incoming id, v.walk.settled e.source = true) ∧
    ∃ e ∈ v.graph.incoming id, v.walk.satisfied e = true)

inductive OnDone (g : Graph) (loop : String) : String → Prop
  | root {e : Edge} (he : e ∈ g.edges) (hsource : e.source = loop) (hhandle : e.handle = "done") :
      OnDone g loop e.target
  | next {e : Edge} (he : e ∈ g.edges) (hsource : OnDone g loop e.source) : OnDone g loop e.target

/-- The walk came to the node over an edge into the loop's body which starts outside the body and is none
of the loop's body edges. -/
def Ran.EntersBody (w : Ran) (loop id : String) : Prop :=
  ∃ e ∈ w.graph.edges, InBody w.graph loop e.target ∧ ¬ InBody w.graph loop e.source ∧
    ¬ (e.source = loop ∧ e.handle = "body") ∧ w.walk.satisfied e = true ∧
    (e.target = id ∨ Leads w.graph e.target id)

def Call.Continued (host : Host) (c : Call) : Prop :=
  c.outcome = .raised ∧ host.onError c.id ≠ "halt" ∧ host.onError c.id ≠ "branch"

structure LoopLaw (host : Host) (w : Ran) (c : Call) : Prop where
  bodies : ∀ v ∈ c.iterations, ∀ id, id ∈ v.graph.ids ↔ InBody w.graph c.id id
  once : ∀ v ∈ c.iterations, ∀ id, v.times id ≤ 1
  only : ∀ v ∈ c.iterations, ∀ id, v.times id = 1 → InBody w.graph c.id id ∧ v.Reached id
  all : ∀ v ∈ c.iterations, v.ending = .finished → ∀ id, InBody w.graph c.id id → v.Reached id → v.times id = 1
  outer : ∀ d ∈ w.calls, InBody w.graph c.id d.id → w.EntersBody c.id d.id ∨ c.Continued host
  done : ∀ id, OnDone w.graph c.id id → ¬ InBody w.graph c.id id →
    (∀ v ∈ c.iterations, ∀ u : Ran, u.Within v → u.times id = 0) ∧ ∀ d ∈ w.calls, d.id = id → c.round < d.round

variable {host : Host} {w v : Ran} {id loop : String}

theorem times_pos {v : Ran} : 0 < v.times id ↔ id ∈ v.calls.map (·.id) := by
  rw [Ran.times, List.countP_pos_iff]
  constructor
  · rintro ⟨d, hd, heq⟩
    exact List.mem_map.mpr ⟨d, hd, of_decide_eq_true heq⟩
  · intro hmem
    obtain ⟨d, hd, heq⟩ := List.mem_map.mp hmem
    exact ⟨d, hd, decide_eq_true heq⟩

theorem WalkOk.times_le (h : WalkOk host v) (id : String) : v.times id ≤ 1 := by
  obtain ⟨todo, hinv, -⟩ := h.inv
  have hnodup : (v.calls.map (·.id)).Nodup := by
    rw [h.ids]
    exact hinv.executed.1
  have hcount : v.times id = (v.calls.map (·.id)).count id := by
    rw [Ran.times, List.count, List.countP_map]
    rfl
  rw [hcount]
  exact List.nodup_iff_count_le_one.mp hnodup id

theorem WalkOk.reached (h : WalkOk host v) (htimes : 0 < v.times id) : id ∈ v.graph.ids ∧ v.Reached id := by
  obtain ⟨d, hd, rfl⟩ := List.mem_map.mp (times_pos.mp htimes)
  refine ⟨(h.calls d hd).node, ?_⟩
  rcases h.fired hd with ⟨hentry, -⟩ | hreached
  · exact .inl (mem_defaultEntries.mp hentry).2
  · exact .inr hreached

theorem WalkOk.times_eq_one (h : WalkOk host v) (hfinished : v.ending = .finished) (hentry : v.entry = none)
    (hids : id ∈ v.graph.ids) (hreached : v.Reached id) : v.times id = 1 := by
  obtain ⟨todo, hinv, hend⟩ := h.inv
  obtain ⟨rfl, hready⟩ := hend hfinished
  have hran : id ∈ v.walk.executed := by
    rw [(ended_of_inv hinv hready).ran id hids]
    rcases hreached with hnone | hreached
    · exact .inl ⟨mem_defaultEntries.mpr ⟨hids, hnone⟩, fun n hn => by rw [hentry] at hn; cases hn⟩
    · exact .inr hreached
  rw [← h.ids] at hran
  have hpos := times_pos.mpr hran
  have hle := h.times_le id
  omega

theorem ids_of_within (h : ∀ u : Ran, u.Within v → WalkOk host u) {u : Ran} (hu : u.Within v)
    (hids : id ∈ u.graph.ids) : id ∈ v.graph.ids := by
  induction hu with
  | self => exact hids
  | @nested r x d hd hx _ ih =>
    have hbody := ih fun u hu => h u (.nested hd hx hu)
    have hok := h r (.self r)
    obtain ⟨-, hpart⟩ := (hok.calls d hd).bodies x hx
    exact ((hpart.ids hok.proper).mp hbody).mem_ids hok.proper

theorem OnDone.leads {g : Graph} (h : OnDone g loop id) : Leads g loop id := by
  induction h with
  | root he hsource _ => exact .single ⟨_, he, hsource, rfl⟩
  | next he _ ih => exact .tail ih ⟨_, he, rfl, rfl⟩

theorem InBody.incoming {g : Graph} (h : InBody g loop id) : ∃ e, e ∈ g.incoming id := by
  cases h with
  | root he => exact ⟨_, mem_incoming.mpr ⟨he, rfl⟩⟩
  | next he => exact ⟨_, mem_incoming.mpr ⟨he, rfl⟩⟩

theorem WalkOk.continued_of_body (h : WalkOk host w) {c : Call} (hc : c ∈ w.calls)
    (hloop : w.graph.isLoop c.id = true) (hrouted : c.routed = true) {e : Edge} (hhandle : e.handle = "body")
    (htaken : routed (c.handles host) e = true) : c.Continued host := by
  rw [Call.handles] at htaken
  rcases (h.calls c hc).ofLoop hloop with hout | hout | hout | hout
  · rw [hout] at htaken
    have hmem : e.handle ∈ ["done"] := of_decide_eq_true htaken
    rw [hhandle] at hmem
    exact absurd hmem (by decide)
  · rw [hout] at htaken
    refine ⟨hout, ?_, ?_⟩
    · rcases h.passed c hc hrouted with (⟨taken, hret⟩ | ⟨-, hhalt⟩) | hcancelled
      · simp [hout] at hret
      · exact hhalt
      · simp [hout] at hcancelled
    · intro hbranch
      simp only [if_pos hbranch] at htaken
      have hmem : e.handle ∈ ["error"] := of_decide_eq_true htaken
      rw [hhandle] at hmem
      exact absurd hmem (by decide)
  · have hwrong := h.passed c hc hrouted
    rw [Call.Allowed, hout] at hwrong
    rcases hwrong with (⟨taken, hret⟩ | ⟨hraised, -⟩) | hcancelled
    · cases hret
    · cases hraised
    · cases hcancelled
  · have hwrong := h.passed c hc hrouted
    rw [Call.Allowed, hout] at hwrong
    rcases hwrong with (⟨taken, hret⟩ | ⟨hraised, -⟩) | hcancelled
    · cases hret
    · cases hraised
    · cases hcancelled

theorem WalkOk.enters (h : WalkOk host w) {c : Call} (hc : c ∈ w.calls) (hloop : w.graph.isLoop c.id = true)
    {d : Call} (hd : d ∈ w.calls) (hbody : InBody w.graph c.id d.id) :
    w.EntersBody c.id d.id ∨ c.Continued host := by
  obtain ⟨rank, hrank⟩ := h.proper.ranked
  induction hn : rank d.id using Nat.strongRecOn generalizing d with
  | _ n ih =>
    rcases h.fired hd with ⟨hentry, -⟩ | ⟨-, e, he, hsat⟩
    · obtain ⟨e, he⟩ := hbody.incoming
      rw [(mem_defaultEntries.mp hentry).2] at he
      exact absurd he List.not_mem_nil
    · obtain ⟨hedge, htarget⟩ := mem_incoming.mp he
      obtain ⟨x, hx, hrouted, hid, htaken⟩ := h.satisfied_iff.mp hsat
      by_cases hsource : InBody w.graph c.id e.source
      · have hlower : rank x.id < n := by
          rw [hid, ← hn, ← htarget]
          exact hrank e hedge (h.not_exempt hedge hsat)
        have hstep : ∃ e ∈ w.graph.edges, e.source = x.id ∧ e.target = d.id := ⟨e, hedge, hid.symm, htarget⟩
        rcases ih (rank x.id) hlower hx (hid ▸ hsource) rfl with ⟨f, hf, hin, hout, hnot, hfsat, hpath⟩ | hcont
        · refine .inl ⟨f, hf, hin, hout, hnot, hfsat, .inr ?_⟩
          rcases hpath with hself | hlead
          · rw [hself]
            exact .single hstep
          · exact .tail hlead hstep
        · exact .inr hcont
      · by_cases hown : e.source = c.id ∧ e.handle = "body"
        · obtain ⟨hsame, hhandle⟩ := hown
          obtain rfl := h.call_unique hx hc (hid.trans hsame)
          exact .inr (h.continued_of_body hx hloop hrouted hhandle htaken)
        · exact .inl ⟨e, hedge, htarget ▸ hbody, hsource, hown, hsat, .inl htarget⟩

theorem loopLaw_of_walkOk (h : ∀ u : Ran, u.Within w → WalkOk host u) {c : Call} (hc : c ∈ w.calls)
    (hloop : w.graph.isLoop c.id = true) : LoopLaw host w c := by
  have hok := h w (.self w)
  have hinner : ∀ v ∈ c.iterations, ∀ u : Ran, u.Within v → WalkOk host u :=
    fun v hv u hu => h u (.nested hc hv hu)
  have hids : ∀ v ∈ c.iterations, ∀ id, id ∈ v.graph.ids ↔ InBody w.graph c.id id := by
    intro v hv id
    exact ((hok.calls c hc).bodies v hv).2.ids hok.proper
  refine ⟨hids, ?_, ?_, ?_, fun d hd hbody => hok.enters hc hloop hd hbody, ?_⟩
  · exact fun v hv id => (hinner v hv v (.self v)).times_le id
  · intro v hv id htimes
    obtain ⟨hmem, hreached⟩ := (hinner v hv v (.self v)).reached (by omega : 0 < v.times id)
    exact ⟨(hids v hv id).mp hmem, hreached⟩
  · intro v hv hfinished id hbody hreached
    exact (hinner v hv v (.self v)).times_eq_one hfinished ((hok.calls c hc).bodies v hv).1
      ((hids v hv id).mpr hbody) hreached
  · intro id hdone hnot
    constructor
    · intro v hv u hu
      by_contra hne
      obtain ⟨hmem, -⟩ := (hinner v hv u hu).reached (Nat.pos_of_ne_zero hne)
      exact hnot ((hids v hv id).mp (ids_of_within (hinner v hv) hu hmem))
    · rintro d hd rfl
      exact hok.ordered c hc d hd hdone.leads

/-- In every walk of a run, each loop that is called runs its body once for each iteration, the walk around
it comes into the body only from outside, and what the done handle leads to comes after the last
iteration. -/
theorem loops_iterate {checkConfig : Node → Bool} {g : Graph} (h : Accepted checkConfig g) (host : Host)
    (entry : Option String) {fuel : Nat} (hfuel : 2 * g.edges.length + g.ids.length < fuel) :
    ∃ result, runWorkflow host g entry fuel = some result ∧ ∀ r, result = .ok r → ∀ w : Ran, w.Within r →
      ∀ c ∈ w.calls, w.graph.isLoop c.id = true → LoopLaw host w c := by
  obtain ⟨result, hresult, hall⟩ := runWorkflow_ok (proper_of_accepted h) host entry hfuel
  refine ⟨result, hresult, fun r hr w hw c hc hloop => ?_⟩
  obtain ⟨-, -, hwalks⟩ := hall r hr
  exact loopLaw_of_walkOk (fun u hu => hwalks u (hu.trans hw)) hc hloop

/-- The loop over two items runs its body twice, and what comes after it once. -/
theorem plainLoop_iterates :
    ∃ r, runWorkflow quiet plainLoop none 20 = some (.ok r) ∧ r.calls.map (·.id) = ["start", "each", "after"] ∧
      ∀ c ∈ r.calls, c.id = "each" → c.iterations.map (fun v => v.calls.map (·.id)) = [["work"], ["work"]] ∧
        LoopLaw quiet r c := by
  have htrace : ((runWorkflow quiet plainLoop none 20).bind Except.toOption).map
      (fun r => (r.calls.map (·.id), r.graph.isLoop "each", r.calls.all fun c => decide (c.id ≠ "each") ||
        decide (c.iterations.map (fun v => v.calls.map (·.id)) = [["work"], ["work"]]))) =
      some (["start", "each", "after"], true, true) := rfl
  obtain ⟨result, hrun, hlaw⟩ := @loops_iterate (fun _ => true) plainLoop ⟨20, rfl⟩ quiet none 20
    (by decide)
  rw [hrun] at htrace ⊢
  cases result with
  | error e => cases htrace
  | ok r =>
    obtain ⟨hcalls, hrest⟩ := Prod.mk.inj (Option.some.inj htrace)
    obtain ⟨hloop, hall⟩ := Prod.mk.inj hrest
    refine ⟨r, rfl, hcalls, fun c hc hid => ⟨?_, ?_⟩⟩
    · rcases Bool.or_eq_true_iff.mp (List.all_eq_true.mp hall c hc) with hne | hiterations
      · exact absurd hid (of_decide_eq_true hne)
      · exact of_decide_eq_true hiterations
    · exact hlaw r rfl r (.self r) c hc (by rw [hid]; exact hloop)

def sharedLoop : Graph where
  nodes := [⟨"start", "trigger-manual"⟩, ⟨"each", "loop"⟩, ⟨"work", "ai-prompt"⟩]
  edges := [⟨"start", "each", none⟩, ⟨"each", "work", some "body"⟩, ⟨"each", "work", some "done"⟩]

/-- The node of the body runs in each iteration, and in the outer walk too. -/
theorem shared_node_runs_outside :
    Accepted (fun _ => true) sharedLoop ∧ InBody sharedLoop "each" "work" ∧ OnDone sharedLoop "each" "work" ∧
      ((runWorkflow quiet sharedLoop none 20).bind Except.toOption).map (fun r => r.calls.map fun c =>
        (c.id, c.iterations.map fun v => v.calls.map (·.id))) =
      some [("start", []), ("each", [["work"], ["work"]]), ("work", [])] := by
  have hbody : InBody sharedLoop "each" (⟨"each", "work", some "body"⟩ : Edge).target :=
    .root (by decide) rfl rfl (by decide)
  have hdone : OnDone sharedLoop "each" (⟨"each", "work", some "done"⟩ : Edge).target :=
    .root (by decide) rfl rfl
  exact ⟨⟨20, rfl⟩, hbody, hdone, rfl⟩

end OpenAgent.Workflow
