import OpenAgent.Workflow.RunFacts

/-!
# What a batch makes of its outcomes

A batch holds the exceptions of its nodes as values and tells them by their class. It looks for instances
of `Exception`; what a handler raises outside that class is taken for a node that returned. Here a run is
held to what is expected of it: only a node whose handler returned, or whose failure is let pass, counts as
completed, and after any other outcome the run does not succeed and no trace entry is left running.
-/

namespace OpenAgent.Workflow

inductive EntryStatus
  | running | success | failed | cancelled
deriving DecidableEq

inductive RunStatus
  | success | failed | cancelled
deriving DecidableEq

/-- The status of a call's trace entry when `_run_node` is left. -/
def Call.status (c : Call) : EntryStatus :=
  match c.outcome with
  | .returned _ => .success
  | .raised => .failed
  | .unsaved | .cancelled | .cut => .running

/-- The status with which `run` finalizes the row. -/
def Ran.status (r : Ran) : RunStatus :=
  match r.ending with
  | .finished => .success
  | .failed => .failed
  | .stopped => .cancelled

/-- The status of an entry in the row's trace: `run` closes the entries that are left when it is
cancelled. -/
def Call.finalStatus (r : Ran) (c : Call) : EntryStatus :=
  if r.status = .cancelled ∧ c.status = .running then .cancelled else c.status

/-- Only nodes that returned or may go on count as completed; any other outcome keeps its walk from
succeeding, and leaves no entry of the run's trace running. -/
structure FailureLaw (host : Host) (r : Ran) : Prop where
  counted : ∀ w : Ran, w.Within r → ∀ c ∈ w.calls, c.id ∈ w.walk.completed.map Prod.fst → c.Allowed host
  unsuccessful : ∀ w : Ran, w.Within r → ∀ c ∈ w.calls, ¬ c.Allowed host → w.status ≠ .success
  closed : ∀ w : Ran, w.Within r → ∀ c ∈ w.calls, ¬ c.Allowed host →
    ∀ v : Ran, v.Within r → ∀ d ∈ v.calls, d.finalStatus r ≠ .running

/-- The handler was called, and raised nothing outside `Exception` by itself. -/
def Call.Ordinary (c : Call) : Prop := c.outcome ≠ .cancelled ∧ c.outcome ≠ .unsaved

variable {host : Host} {r : Ran}

theorem Call.not_allowed {c : Call} (h : ¬ c.Ordinary) : ¬ c.Allowed host ∧ c.status = .running := by
  have hout : c.outcome = .cancelled ∨ c.outcome = .unsaved := by
    rw [Call.Ordinary, not_and_or, not_not, not_not] at h
    exact h
  rw [Call.Allowed, Call.status]
  rcases hout with hout | hout
  · rw [hout]
    refine ⟨?_, rfl⟩
    rintro (⟨taken, hret⟩ | ⟨hraised, -⟩)
    · cases hret
    · cases hraised
  · rw [hout]
    refine ⟨?_, rfl⟩
    rintro (⟨taken, hret⟩ | ⟨hraised, -⟩)
    · cases hret
    · cases hraised

theorem WalkOk.routed_of_completed {w : Ran} (h : WalkOk host w) {c : Call} (hc : c ∈ w.calls)
    (hdone : c.id ∈ w.walk.completed.map Prod.fst) : c.routed = true := by
  obtain ⟨⟨id, handles⟩, hmem, hid⟩ := List.mem_map.mp hdone
  obtain ⟨d, hd, hrouted, hdid, -⟩ := h.mem_completed.mp hmem
  have hsame : d = c := h.call_unique hd hc (hdid.trans hid)
  rw [← hsame]
  exact hrouted

theorem stopped_of_cut (h : ∀ w : Ran, w.Within r → WalkOk host w) {v : Ran} (hv : v.Within r) {c : Call}
    (hc : c ∈ v.calls) (hcut : c.outcome = .cut) : r.ending = .stopped := by
  induction hv with
  | self => exact (h v (.self v)).cut c hc hcut
  | @nested r u d hd hu _ ih =>
    have hstop := ih fun w hw => h w (.nested hd hu hw)
    have hok := h r (.self r)
    exact hok.cut d hd ((hok.calls d hd).stopped u hu hstop)

/-- In a run whose handlers raise nothing outside `Exception`, the law holds. -/
theorem failureLaw_of_ordinary (h : ∀ w : Ran, w.Within r → WalkOk host w)
    (hordinary : ∀ w : Ran, w.Within r → ∀ c ∈ w.calls, c.Ordinary) : FailureLaw host r := by
  refine ⟨?_, ?_, ?_⟩
  · intro w hw c hc hdone
    exact ((h w hw).passed c hc ((h w hw).routed_of_completed hc hdone)).resolve_right (hordinary w hw c hc).1
  · intro w hw c hc hnot hstatus
    have hfinished : w.ending = .finished := by
      rw [Ran.status] at hstatus
      cases hending : w.ending with
      | finished => rfl
      | failed =>
        simp [hending] at hstatus
      | stopped =>
        simp [hending] at hstatus
    have hrouted := (h w hw).finished hfinished c hc
    exact hnot (((h w hw).passed c hc hrouted).resolve_right (hordinary w hw c hc).1)
  · intro _ _ _ _ _ v hv d hd hrunning
    obtain ⟨hcancelled, hunsaved⟩ := hordinary v hv d hd
    rw [Call.finalStatus] at hrunning
    split at hrunning
    · cases hrunning
    · rename_i hopen
      have hcut : d.outcome = .cut := by
        rw [Call.status] at hrunning
        cases hout : d.outcome with
        | cut => rfl
        | unsaved => exact absurd hout hunsaved
        | cancelled => exact absurd hout hcancelled
        | returned taken =>
          simp [hout] at hrunning
        | raised =>
          simp [hout] at hrunning
      have hstop := stopped_of_cut h hv hd hcut
      exact hopen ⟨by rw [Ran.status, hstop], hrunning⟩

theorem ordinary_of_failureLaw (hlaw : FailureLaw host r) (hstop : r.ending ≠ .stopped) :
    ∀ w : Ran, w.Within r → ∀ c ∈ w.calls, c.Ordinary := by
  intro w hw c hc
  by_contra hnot
  obtain ⟨hallowed, hrunning⟩ := Call.not_allowed hnot
  apply hlaw.closed w hw c hc hallowed w hw c hc
  rw [Call.finalStatus, if_neg, hrunning]
  rintro ⟨hcancelled, -⟩
  rw [Ran.status] at hcancelled
  cases hending : r.ending with
  | stopped => exact hstop hending
  | finished =>
    simp [hending] at hcancelled
  | failed =>
    simp [hending] at hcancelled

/-- A run treats its outcomes as it should when no handler raises anything outside `Exception` and each
node's first trace entry is written; and in a run that is not stopped, only then. -/
theorem batch_outcomes {checkConfig : Node → Bool} {g : Graph} (h : Accepted checkConfig g) (host : Host)
    (entry : Option String) {fuel : Nat} (hfuel : 2 * g.edges.length + g.ids.length < fuel) :
    ∃ result, runWorkflow host g entry fuel = some result ∧ ∀ r, result = .ok r →
      ((∀ w : Ran, w.Within r → ∀ c ∈ w.calls, c.Ordinary) → FailureLaw host r) ∧
      (r.ending ≠ .stopped → FailureLaw host r → ∀ w : Ran, w.Within r → ∀ c ∈ w.calls, c.Ordinary) := by
  obtain ⟨result, hresult, hall⟩ := runWorkflow_ok (proper_of_accepted h) host entry hfuel
  refine ⟨result, hresult, fun r hr => ?_⟩
  obtain ⟨-, -, hwalks⟩ := hall r hr
  exact ⟨failureLaw_of_ordinary hwalks, fun hstop hlaw => ordinary_of_failureLaw hlaw hstop⟩

def chain : Graph where
  nodes := [⟨"start", "trigger-manual"⟩, ⟨"ask", "ai-prompt"⟩, ⟨"tell", "ai-prompt"⟩]
  edges := [⟨"start", "ask", none⟩, ⟨"ask", "tell", none⟩]

def halting : Host :=
  { quiet with
    onError := fun _ => "halt"
    act := fun _ id => if id = "ask" then .raises else .returns true }

/-- A run in which the prompt's handler raises `CancelledError`. -/
def cancelling : Host := { quiet with act := fun _ id => if id = "ask" then .cancels else .returns true }

theorem halted_run_fails :
    ∃ r, runWorkflow halting chain none 20 = some (.ok r) ∧ r.status = .failed ∧ FailureLaw halting r := by
  have htrace : ((runWorkflow halting chain none 20).bind Except.toOption).map
      (fun r => (r.status, r.calls.all fun c =>
        decide (c.outcome ≠ .cancelled ∧ c.outcome ≠ .unsaved) && c.iterations.isEmpty)) =
      some (.failed, true) := rfl
  obtain ⟨result, hrun, hlaw⟩ := @batch_outcomes (fun _ => true) chain ⟨30, rfl⟩ halting none 20
    (by decide)
  rw [hrun] at htrace ⊢
  cases result with
  | error e => cases htrace
  | ok r =>
    obtain ⟨hstatus, hall⟩ := Prod.mk.inj (Option.some.inj htrace)
    refine ⟨r, rfl, hstatus, (hlaw r rfl).1 fun w hw c hc => ?_⟩
    have hown : ∀ c ∈ r.calls, c.Ordinary ∧ c.iterations = [] := by
      intro c hc
      obtain ⟨hordinary, hnone⟩ := Bool.and_eq_true_iff.mp (List.all_eq_true.mp hall c hc)
      have hends : c.outcome ≠ .cancelled ∧ c.outcome ≠ .unsaved := of_decide_eq_true hordinary
      exact ⟨hends, List.isEmpty_iff.mp hnone⟩
    cases hw with
    | self => exact (hown c hc).1
    | nested hd hv _ =>
      rw [(hown _ hd).2] at hv
      exact absurd hv List.not_mem_nil

/-- The node counts as completed, the run as a success, and the node's entry stays running. -/
theorem cancelled_handler_succeeds :
    Accepted (fun _ => true) chain ∧ ∃ r, runWorkflow cancelling chain none 20 = some (.ok r) ∧
      r.status = .success ∧ r.calls.map (fun c => (c.id, c.finalStatus r)) =
        [("start", .success), ("ask", .running), ("tell", .success)] ∧ ¬ FailureLaw cancelling r := by
  refine ⟨⟨30, rfl⟩, ?_⟩
  have htrace : ((runWorkflow cancelling chain none 20).bind Except.toOption).map
      (fun r => (r.status, r.calls.map (fun c => (c.id, c.finalStatus r)),
        r.calls.any fun c => decide (c.outcome = .cancelled))) =
      some (.success, [("start", .success), ("ask", .running), ("tell", .success)], true) := rfl
  cases hrun : runWorkflow cancelling chain none 20 with
  | none =>
    simp [hrun] at htrace
  | some result =>
    rw [hrun] at htrace
    cases result with
    | error e => cases htrace
    | ok r =>
      obtain ⟨hstatus, hrest⟩ := Prod.mk.inj (Option.some.inj htrace)
      obtain ⟨hcalls, hcancelled⟩ := Prod.mk.inj hrest
      refine ⟨r, rfl, hstatus, hcalls, fun hlaw => ?_⟩
      obtain ⟨c, hc, hout⟩ := List.any_eq_true.mp hcancelled
      apply hlaw.unsuccessful r (.self r) c hc _ hstatus
      rintro (⟨taken, hret⟩ | ⟨hraised, -⟩)
      · simp [of_decide_eq_true hout] at hret
      · simp [of_decide_eq_true hout] at hraised

end OpenAgent.Workflow
