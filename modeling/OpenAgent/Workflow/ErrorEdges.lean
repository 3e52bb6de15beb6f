import OpenAgent.Workflow.RunFacts

/-!
# Error edges

An edge from the error handle of a node is meant for the failure of that node under the policy `branch`.
A handler that returns without a word on its handles takes them all, the error handle with them, and so
does a failure that the walk goes on after. Only the nodes that say which handles they take keep the error
edges to themselves.
-/

namespace OpenAgent.Workflow

def Call.Branched (host : Host) (c : Call) : Prop := c.outcome = .raised ∧ host.onError c.id = "branch"

def Call.Steered (host : Host) (c : Call) : Prop :=
  (∃ handles, c.outcome = .returned (some handles)) ∨ c.Branched host

/-- The node can be reached from where the walk starts without an error edge. -/
inductive Plainly (g : Graph) : String → Prop
  | start {id : String} (h : id ∈ defaultEntries g) : Plainly g id
  | step {e : Edge} (he : e ∈ g.edges) (hsource : Plainly g e.source) (hplain : e.handle ≠ "error") :
      Plainly g e.target

/-- Error edges are taken when the node before them failed under `branch`, and only so do the nodes run
that are reached through error edges alone. -/
structure ErrorLaw (host : Host) (w : Ran) : Prop where
  edges : ∀ e ∈ w.graph.edges, e.handle = "error" → w.walk.satisfied e = true →
    ∃ c ∈ w.calls, c.id = e.source ∧ c.Branched host
  nodes : ∀ d ∈ w.calls, ¬ Plainly w.graph d.id → ∃ e ∈ w.graph.edges, e.handle = "error" ∧
    (e.target = d.id ∨ Leads w.graph e.target d.id) ∧ ∃ c ∈ w.calls, c.id = e.source ∧ c.Branched host

variable {host : Host} {w : Ran}

theorem errorLaw_of_edges (h : WalkOk host w)
    (hedges : ∀ e ∈ w.graph.edges, e.handle = "error" → w.walk.satisfied e = true →
      ∃ c ∈ w.calls, c.id = e.source ∧ c.Branched host) : ErrorLaw host w := by
  obtain ⟨rank, hrank⟩ := h.proper.ranked
  refine ⟨hedges, fun d hd hnot => ?_⟩
  induction hn : rank d.id using Nat.strongRecOn generalizing d with
  | _ n ih =>
    rcases h.fired hd with ⟨hentry, -⟩ | ⟨-, e, he, hsat⟩
    · exact absurd (.start hentry) hnot
    · obtain ⟨hedge, htarget⟩ := mem_incoming.mp he
      obtain ⟨c, hc, -, hid, -⟩ := h.satisfied_iff.mp hsat
      by_cases herror : e.handle = "error"
      · exact ⟨e, hedge, herror, .inl htarget, hedges e hedge herror hsat⟩
      · have hsource : ¬ Plainly w.graph c.id := by
          intro hplainly
          rw [hid] at hplainly
          exact hnot (htarget ▸ .step hedge hplainly herror)
        have hlower : rank c.id < n := by
          rw [hid, ← hn, ← htarget]
          exact hrank e hedge (h.not_exempt hedge hsat)
        have hstep : ∃ e ∈ w.graph.edges, e.source = c.id ∧ e.target = d.id := ⟨e, hedge, hid.symm, htarget⟩
        obtain ⟨first, hfirst, hhandle, hpath, hbranched⟩ := ih (rank c.id) hlower c hc hsource rfl
        refine ⟨first, hfirst, hhandle, .inr ?_, hbranched⟩
        rcases hpath with hself | hlead
        · rw [hself]
          exact .single hstep
        · exact .tail hlead hstep

theorem Call.handles_none (h : WalkOk host w) {c : Call} (hc : c ∈ w.calls) (hrouted : c.routed = true)
    (hplain : ¬ c.Steered host) : c.handles host = none := by
  rw [Call.handles]
  rcases h.passed c hc hrouted with (⟨taken, hret⟩ | ⟨hraised, -⟩) | hcancelled
  · rw [hret]
    cases taken with
    | none => rfl
    | some handles => exact absurd (.inl ⟨handles, hret⟩) hplain
  · rw [hraised]
    exact if_neg fun hbranch => hplain (.inr ⟨hraised, hbranch⟩)
  · rw [hcancelled]

theorem WalkOk.branched_of_error (h : WalkOk host w) {c : Call} (hc : c ∈ w.calls) (hsteered : c.Steered host)
    {e : Edge} (herror : e.handle = "error") (htaken : routed (c.handles host) e = true) : c.Branched host := by
  rcases hsteered with ⟨handles, hret⟩ | hbranched
  · have hnot := ((h.calls c hc).steered handles hret).1
    rw [Call.handles, hret] at htaken
    have hmem : e.handle ∈ handles := of_decide_eq_true htaken
    rw [herror] at hmem
    exact absurd hmem hnot
  · exact hbranched

/-- In every walk of a run, error edges are kept for failures if and only if every routed node that has an
error edge says which handles it takes. -/
theorem error_edges_iff {checkConfig : Node → Bool} {g : Graph} (h : Accepted checkConfig g) (host : Host)
    (entry : Option String) {fuel : Nat} (hfuel : 2 * g.edges.length + g.ids.length < fuel) :
    ∃ result, runWorkflow host g entry fuel = some result ∧ ∀ r, result = .ok r → ∀ w : Ran, w.Within r →
      (ErrorLaw host w ↔ ∀ c ∈ w.calls, c.routed = true →
        (∃ e ∈ w.graph.outgoing c.id, e.handle = "error") → c.Steered host) := by
  obtain ⟨result, hresult, hall⟩ := runWorkflow_ok (proper_of_accepted h) host entry hfuel
  refine ⟨result, hresult, fun r hr w hw => ?_⟩
  obtain ⟨-, -, hwalks⟩ := hall r hr
  have hok := hwalks w hw
  constructor
  · rintro hlaw c hc hrouted ⟨e, he, herror⟩
    by_contra hplain
    obtain ⟨hedge, hsource⟩ := mem_outgoing.mp he
    have htaken : routed (c.handles host) e = true := by
      rw [Call.handles_none hok hc hrouted hplain]
      rfl
    obtain ⟨d, hd, hid, hbranched⟩ := hlaw.edges e hedge herror
      (hok.satisfied_iff.mpr ⟨c, hc, hrouted, hsource.symm, htaken⟩)
    obtain rfl := hok.call_unique hd hc (hid.trans hsource)
    exact hplain (.inr hbranched)
  · intro hsteered
    apply errorLaw_of_edges hok
    intro e he herror hsat
    obtain ⟨c, hc, hrouted, hid, htaken⟩ := hok.satisfied_iff.mp hsat
    have hhas : ∃ e ∈ w.graph.outgoing c.id, e.handle = "error" := ⟨e, mem_outgoing.mpr ⟨he, hid.symm⟩, herror⟩
    exact ⟨c, hc, hid, hok.branched_of_error hc (hsteered c hc hrouted hhas) herror htaken⟩

def guarded : Graph where
  nodes := [⟨"start", "trigger-manual"⟩, ⟨"ask", "ai-prompt"⟩, ⟨"tell", "ai-prompt"⟩, ⟨"mend", "ai-prompt"⟩]
  edges := [⟨"start", "ask", none⟩, ⟨"ask", "tell", none⟩, ⟨"ask", "mend", some "error"⟩]

def failing : Host := { quiet with act := fun _ id => if id = "ask" then .raises else .returns true }

theorem failure_runs_error_path :
    ∃ r, runWorkflow failing guarded none 20 = some (.ok r) ∧ r.calls.map (·.id) = ["start", "ask", "mend"] ∧
      ErrorLaw failing r := by
  have htrace : ((runWorkflow failing guarded none 20).bind Except.toOption).map
      (fun r => (r.calls.map (·.id), r.calls.all fun c => decide (c.outcome = .raised ∧ c.id = "ask") ||
        (r.graph.outgoing c.id).all fun e => decide (e.handle ≠ "error"))) =
      some (["start", "ask", "mend"], true) := rfl
  obtain ⟨result, hrun, hiff⟩ := @error_edges_iff (fun _ => true) guarded ⟨30, rfl⟩ failing none 20
    (by decide)
  rw [hrun] at htrace ⊢
  cases result with
  | error e => cases htrace
  | ok r =>
    obtain ⟨hids, hall⟩ := Prod.mk.inj (Option.some.inj htrace)
    refine ⟨r, rfl, hids, (hiff r rfl r (.self r)).mpr ?_⟩
    rintro c hc - ⟨e, he, herror⟩
    rcases Bool.or_eq_true_iff.mp (List.all_eq_true.mp hall c hc) with hask | hnone
    · obtain ⟨hraised, hid⟩ := of_decide_eq_true hask
      exact .inr ⟨hraised, by rw [hid]; rfl⟩
    · exact absurd herror (of_decide_eq_true (List.all_eq_true.mp hnone e he))

/-- The prompt succeeds, and what is there for its failure runs too. -/
theorem success_runs_error_path :
    Accepted (fun _ => true) guarded ∧ ∃ r, runWorkflow quiet guarded none 20 = some (.ok r) ∧
      r.calls.map (fun c => (c.id, c.outcome)) = [("start", .returned none), ("ask", .returned none),
        ("tell", .returned none), ("mend", .returned none)] ∧ ¬ ErrorLaw quiet r := by
  refine ⟨⟨30, rfl⟩, ?_⟩
  have htrace : ((runWorkflow quiet guarded none 20).bind Except.toOption).map
      (fun r => (r.calls.map (fun c => (c.id, c.outcome)),
        decide (⟨"ask", "mend", some "error"⟩ ∈ r.graph.edges) && r.walk.satisfied ⟨"ask", "mend", some "error"⟩,
        r.calls.all fun c => decide (c.outcome ≠ .raised))) =
      some ([("start", .returned none), ("ask", .returned none), ("tell", .returned none), ("mend", .returned none)],
        true, true) := rfl
  cases hrun : runWorkflow quiet guarded none 20 with
  | none =>
    simp [hrun] at htrace
  | some result =>
    rw [hrun] at htrace
    cases result with
    | error e => cases htrace
    | ok r =>
      obtain ⟨hcalls, hrest⟩ := Prod.mk.inj (Option.some.inj htrace)
      obtain ⟨hedge, hnone⟩ := Prod.mk.inj hrest
      refine ⟨r, rfl, hcalls, fun hlaw => ?_⟩
      rw [Bool.and_eq_true, decide_eq_true_eq] at hedge
      obtain ⟨c, hc, -, hraised, -⟩ := hlaw.edges _ hedge.1 rfl hedge.2
      exact of_decide_eq_true (List.all_eq_true.mp hnone c hc) hraised

end OpenAgent.Workflow
