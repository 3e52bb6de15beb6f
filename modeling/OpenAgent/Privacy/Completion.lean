import OpenAgent.Privacy.Fences

/-!
# Completed requests

When a privacy request says it is complete, every target of it was reported by a worker that held the
lease at that moment, after the sink of the revision had answered that it is done, and a worker whose
sinks cover every required surface settled it. A worker that lost its lease changes nothing any more,
and a request that is complete stays so.
-/

namespace OpenAgent.Privacy

open Lib Lib.Tx List

def Covers (config : Configuration) (s : System) (requestId : String) (worker : Worker) : Prop :=
  worker ∈ s.workers ∧ worker.requestId = requestId ∧ config.required ⊆ worker.covered

def Stands (s : System) (target : ContentRevision) : Prop :=
  ∃ row, s.tables.revisions.get? target.key = some row ∧ row.revision = target

/-- A report of the target under a lease that was valid then, after its sink had answered. -/
structure Reported (s : System) (requestId : String) (key : RevisionKey) (report : Report) : Prop where
  logged : report ∈ s.reports
  request : report.requestId = requestId
  target : report.target.key = key
  stands : Stands s report.target
  valid : report.now < report.leaseUntil
  answered : (report.worker, report.target) ∈ s.answers

def Phases (s : System) : Prop :=
  ∀ (i : Nat) worker, s.workers[i]? = some worker → (∀ target ∈ worker.phase.plan, Stands s target) ∧
    ∀ target left, worker.phase = .reporting target left → (i, target) ∈ s.answers

/-- What a complete request can show: a valid report for each target, and covered surfaces. -/
structure Accounted (config : Configuration) (s : System) (requestId : String) : Prop where
  targets : ∀ key complete, s.tables.targets.get? (requestId, key) = some complete →
    complete = true ∧ ∃ report, Reported s requestId key report
  coverage : ∃ worker, Covers config s requestId worker

/-- What the leases keep: a lease is held by a covering worker on an open request, a target is
complete by a valid report, and a complete request has no open target. -/
structure Leased (config : Configuration) (s : System) : Prop where
  held : ∀ id row token, s.tables.requests.get? id = some row → row.lease = some token →
    row.status ≠ .complete ∧ ∃ worker, Covers config s id worker ∧ worker.token = token
  owned : ∀ id key complete, s.tables.targets.get? (id, key) = some complete →
    (s.tables.requests.get? id).isSome
  reported : ∀ id key, s.tables.targets.get? (id, key) = some true → ∃ report, Reported s id key report
  phases : Phases s
  closed : ∀ id row, s.tables.requests.get? id = some row → row.status = .complete →
    (∀ key complete, s.tables.targets.get? (id, key) = some complete → complete = true) ∧
      ∃ worker, Covers config s id worker

theorem leased_initial (config : Configuration) : Leased config System.initial where
  held _ _ _ h := by cases h
  owned _ _ _ h := by cases h
  reported _ _ h := by cases h
  phases := nofun
  closed _ _ h := by cases h

structure Later (config : Configuration) (s s' : System) : Prop where
  stands : ∀ target, Stands s target → Stands s' target
  answers : ∀ x ∈ s.answers, x ∈ s'.answers
  reports : ∀ report ∈ s.reports, report ∈ s'.reports
  covers : ∀ id worker, Covers config s id worker →
    ∃ worker', Covers config s' id worker' ∧ worker'.token = worker.token

variable {config : Configuration} {s s' : System}

variable {id : String}

theorem Reported.later {key : RevisionKey} {report : Report} (h : Reported s id key report)
    (hlater : Later config s s') :
    Reported s' id key report :=
  ⟨hlater.reports _ h.logged, h.request, h.target, hlater.stands _ h.stands, h.valid,
    hlater.answers _ h.answered⟩

theorem covers_setPhase {i : Nat} {worker : Worker} {phase : Phase} (hworker : s.workers[i]? = some worker)
    {other : Worker} (h : Covers config s id other) :
    ∃ other', Covers config (s.setPhase i worker phase) id other' ∧ other'.token = other.token := by
  obtain ⟨hmem, hrequest, hcovered⟩ := h
  obtain ⟨j, hj⟩ := mem_iff_getElem?.mp hmem
  by_cases hij : i = j
  · subst hij
    rw [hworker] at hj
    cases hj
    have hplace := (System.getElem?_setPhase phase (j := i) hworker).mpr (.inl ⟨rfl, rfl⟩)
    exact ⟨_, ⟨mem_of_getElem? hplace, hrequest, hcovered⟩, rfl⟩
  · have hplace := (System.getElem?_setPhase phase hworker).mpr (.inr ⟨hij, hj⟩)
    exact ⟨other, ⟨mem_of_getElem? hplace, hrequest, hcovered⟩, rfl⟩

theorem SameScope.stands (h : SameScope s.tables s'.tables) :
    ∀ target, Stands s target → Stands s' target := by
  rintro target ⟨row, hrow, hsame⟩
  exact ⟨row, h.revisions ▸ hrow, hsame⟩

theorem Move.stands {a : Action} (h : Move config s a s') :
    ∀ target, Stands s target → Stands s' target := by
  cases h with
  | recorded entry hrecorded =>
    rintro target ⟨row, hrow, hsame⟩
    exact ⟨row, hrecorded.kept _ _ hrow, hsame⟩
  | opened request hopened =>
    cases hopened with
    | again hold heq => exact fun _ h => h
    | fresh hnew => exact fun _ h => h
  | refused hclaimed => exact hclaimed.sameScope.stands
  | drawn sinks hclaimed => exact (SameScope.stands (s := s) hclaimed.sameScope)
  | stay | answered | reported | settled | stopped => exact fun _ h => h

theorem Move.later {a : Action} (h : Move config s a s') :
    Later config s s' := by
  have hstands := h.stands
  cases h with
  | stay | recorded | opened | refused =>
    exact ⟨hstands, fun _ h => h, fun _ h => h, fun _ worker h => ⟨worker, h, rfl⟩⟩
  | drawn sinks hclaimed =>
    exact ⟨hstands, fun _ h => h, fun _ h => h, fun _ worker h =>
      ⟨worker, ⟨mem_append_left _ h.1, h.2⟩, rfl⟩⟩
  | answered hworker hworking =>
    exact ⟨hstands, fun _ h => mem_append_left _ h, fun _ h => h,
      fun _ _ h => covers_setPhase hworker h⟩
  | reported hworker hreporting hrow hheld leaseUntil =>
    exact ⟨hstands, fun _ h => h, fun _ h => mem_append_left _ h,
      fun _ _ h => covers_setPhase hworker h⟩
  | settled hworker hrow hheld hcomplete reason =>
    exact ⟨hstands, fun _ h => h, fun _ h => h, fun _ _ h => covers_setPhase hworker h⟩
  | stopped hworker hphase =>
    exact ⟨hstands, fun _ h => h, fun _ h => h, fun _ _ h => covers_setPhase hworker h⟩

theorem Leased.keep (hs : Leased config s) (hlater : Later config s s')
    (hrequests : s'.tables.requests = s.tables.requests) (htargets : s'.tables.targets = s.tables.targets)
    (hphases : Phases s') : Leased config s' where
  held := by
    rw [hrequests]
    intro id row token hrow htoken
    obtain ⟨hopen, worker, hcovers, heq⟩ := hs.held id row token hrow htoken
    obtain ⟨worker', hcovers', hsame⟩ := hlater.covers id worker hcovers
    exact ⟨hopen, worker', hcovers', hsame.trans heq⟩
  owned := by
    rw [hrequests, htargets]
    exact hs.owned
  reported := by
    rw [htargets]
    intro id key htarget
    obtain ⟨report, hreport⟩ := hs.reported id key htarget
    exact ⟨report, hreport.later hlater⟩
  phases := hphases
  closed := by
    rw [hrequests, htargets]
    intro id row hrow hcomplete
    obtain ⟨htargets, worker, hcovers⟩ := hs.closed id row hrow hcomplete
    obtain ⟨worker', hcovers', -⟩ := hlater.covers id worker hcovers
    exact ⟨htargets, worker', hcovers'⟩

/-- An update of one request keeps the leases if the row it writes does, and if it completes no target
but of this request by a valid report. -/
theorem Leased.update (hs : Leased config s) (hlater : Later config s s')
    {row row' : RequestRow} (hrow : s.tables.requests.get? id = some row)
    (hrequests : s'.tables.requests = s.tables.requests.set id row')
    (htargets : ∀ x, s'.tables.targets.get? x = s.tables.targets.get? x ∨
      x.1 = id ∧ (s.tables.targets.get? x).isSome ∧ s'.tables.targets.get? x = some true ∧
        ∃ report, Reported s' id x.2 report) (hheld : ∀ token, row'.lease = some token →
      row'.status ≠ .complete ∧ ∃ worker, Covers config s' id worker ∧ worker.token = token)
    (hclosed : row'.status = .complete →
      (∀ key complete, s'.tables.targets.get? (id, key) = some complete → complete = true) ∧
        ∃ worker, Covers config s' id worker) (hphases : Phases s') : Leased config s' where
  held := by
    intro x found token hfound htoken
    rw [hrequests, Dict.get?_set] at hfound
    split at hfound
    · rename_i heq
      subst heq
      cases hfound
      exact hheld token htoken
    · obtain ⟨hopen, worker, hcovers, heq⟩ := hs.held x found token hfound htoken
      obtain ⟨worker', hcovers', hsame⟩ := hlater.covers x worker hcovers
      exact ⟨hopen, worker', hcovers', hsame.trans heq⟩
  owned := by
    intro x key complete htarget
    have hbefore : (s.tables.targets.get? (x, key)).isSome := by
      rcases htargets (x, key) with heq | ⟨-, hsome, -⟩
      · rw [← heq, htarget]
        rfl
      · exact hsome
    obtain ⟨complete', hcomplete'⟩ := Option.isSome_iff_exists.mp hbefore
    rw [hrequests, Dict.get?_set]
    split
    · rfl
    · exact hs.owned x key complete' hcomplete'
  reported := by
    intro x key htarget
    rcases htargets (x, key) with heq | ⟨hid, -, -, report, hreport⟩
    · obtain ⟨report, hreport⟩ := hs.reported x key (heq ▸ htarget)
      exact ⟨report, hreport.later hlater⟩
    · obtain rfl : x = id := hid
      exact ⟨report, hreport⟩
  phases := hphases
  closed := by
    intro x found hfound hcomplete
    rw [hrequests, Dict.get?_set] at hfound
    split at hfound
    · rename_i heq
      subst heq
      cases hfound
      exact hclosed hcomplete
    · rename_i hne
      obtain ⟨hall, worker, hcovers⟩ := hs.closed x found hfound hcomplete
      obtain ⟨worker', hcovers', -⟩ := hlater.covers x worker hcovers
      refine ⟨fun key complete htarget => ?_, worker', hcovers'⟩
      rcases htargets (x, key) with heq | ⟨hid, -⟩
      · exact hall key complete (heq ▸ htarget)
      · exact absurd hid hne

theorem Leased.open (hs : Leased config s) {request : PrivacyRequest} {T' : Tables}
    (h : Opened s.tables request T') :
    Leased config { s with tables := T' } := by
  cases h with
  | again hold hsame => exact hs
  | fresh hnew =>
    have hnone : ∀ key, s.tables.targets.get? (request.requestId, key) = none := by
      intro key
      cases htarget : s.tables.targets.get? (request.requestId, key) with
      | none => rfl
      | some complete =>
        have howned := hs.owned _ key complete htarget
        simp [hnew] at howned
    refine ⟨fun id row token hrow htoken => ?_, fun id key complete htarget => ?_,
      fun id key htarget => ?_, hs.phases, fun id row hrow hcomplete => ?_⟩
    · rw [show (s.tables.requests.set _ _).get? id = _ from Dict.get?_set ..] at hrow
      split at hrow
      · cases hrow
        cases htoken
      · exact hs.held id row token hrow htoken
    · show ((s.tables.requests.set _ _).get? id).isSome = true
      rw [show (addTargets _ _ _).get? (id, key) = _ from get?_addTargets _] at htarget
      rw [Dict.get?_set]
      split
      · rfl
      · rename_i hne
        rw [if_neg (fun hboth => hne hboth.1)] at htarget
        exact hs.owned id key complete htarget
    · rw [show (addTargets _ _ _).get? (id, key) = _ from get?_addTargets _] at htarget
      split at htarget
      · cases htarget
      · obtain ⟨report, hreport⟩ := hs.reported id key htarget
        exact ⟨report, hreport.logged, hreport.request, hreport.target, hreport.stands, hreport.valid,
          hreport.answered⟩
    · rw [show (s.tables.requests.set _ _).get? id = _ from Dict.get?_set ..] at hrow
      split at hrow
      · cases hrow
        cases hcomplete
      · rename_i hne
        obtain ⟨hall, hcoverage⟩ := hs.closed id row hrow hcomplete
        refine ⟨fun key complete htarget => hall key complete ?_, hcoverage⟩
        rw [show (addTargets _ _ _).get? (id, key) = _ from get?_addTargets _] at htarget
        rwa [if_neg (fun hboth => hne hboth.1)] at htarget

theorem Phases.later (hs : Phases s) (hlater : Later config s s')
    (hworkers : ∀ (i : Nat) worker, s'.workers[i]? = some worker → s.workers[i]? = some worker) :
    Phases s' := by
  intro i worker hworker
  obtain ⟨hplan, hreporting⟩ := hs i worker (hworkers i worker hworker)
  exact ⟨fun target htarget => hlater.stands target (hplan target htarget),
    fun target left hphase => hlater.answers _ (hreporting target left hphase)⟩

theorem Phases.move (hs : Phases s) (hlater : Later config s s') {i : Nat} {worker : Worker}
    (hworker : s.workers[i]? = some worker) {phase : Phase}
    (hworkers : s'.workers = (s.setPhase i worker phase).workers)
    (hplan : ∀ target ∈ phase.plan, target ∈ worker.phase.plan)
    (hreporting : ∀ target left, phase = .reporting target left → (i, target) ∈ s'.answers) :
    Phases s' := by
  intro j other hother
  rw [hworkers] at hother
  rcases (System.getElem?_setPhase _ hworker).mp hother with ⟨rfl, rfl⟩ | ⟨-, hbefore⟩
  · exact ⟨fun target htarget => hlater.stands target ((hs i worker hworker).1 target (hplan target htarget)),
      hreporting⟩
  · obtain ⟨hplanned, hanswered⟩ := hs j other hbefore
    exact ⟨fun target htarget => hlater.stands target (hplanned target htarget),
      fun target left hphase => hlater.answers _ (hanswered target left hphase)⟩

theorem Tables.complete_of_remaining {T : Tables} (h : T.remaining id = 0)
    (key : RevisionKey) (complete : Bool) (htarget : T.targets.get? (id, key) = some complete) :
    complete = true := by
  have hcount := Dict.count_eq_zero.mp h (id, key) complete htarget
  simpa using hcount

theorem leased_step {a : Action} (hfenced : Fenced s) (hs : Leased config s)
    (hstep : step config s a = some s') : Leased config s' := by
  have hmove := step_cases hstep
  have hlater := hmove.later
  cases hmove with
  | stay => exact hs
  | recorded entry hrecorded =>
    exact hs.keep hlater hrecorded.requests hrecorded.targets (hs.phases.later hlater fun _ _ h => h)
  | opened request hopened => exact hs.open hopened
  | refused hclaimed =>
    cases hclaimed with
    | refused => exact hs
    | blocked hrow hopen reason =>
      refine hs.update hlater hrow rfl (fun _ => .inl rfl) (fun token htoken => ?_)
        (fun hcomplete => ?_) (hs.phases.later hlater fun _ _ h => h)
      · cases htoken
      · cases hcomplete
  | drawn sinks hclaimed =>
    cases hclaimed with
    | drawn hrow hopen hcovered leaseUntil =>
      refine hs.update hlater hrow rfl (fun _ => .inl rfl) (fun token htoken => ?_)
        (fun hcomplete => ?_) fun i worker hworker => ?_
      · cases htoken
        refine ⟨fun hcomplete => ?_, ?_⟩
        · cases hcomplete
        · exact ⟨_, ⟨mem_append_right _ (mem_singleton_self _), rfl, hcovered⟩, rfl⟩
      · cases hcomplete
      · rcases getElem?_append_singleton.mp hworker with hold | ⟨-, rfl⟩
        · exact hs.phases i worker hold
        · refine ⟨fun target htarget => ?_, fun target left hphase => by cases hphase⟩
          obtain ⟨row, hopenTarget, rfl⟩ := List.mem_map.mp htarget
          obtain ⟨key, hrow, -⟩ := mem_openTargets hopenTarget
          exact ⟨row, hfenced.keyed key row hrow ▸ hrow, rfl⟩
  | @answered a i worker target left hworker hworking =>
    refine hs.keep hlater rfl rfl (hs.phases.move hlater hworker rfl ?_ fun found rest hphase => ?_)
    · rw [hworking]
      exact fun _ h => h
    · cases hphase
      exact mem_append_right _ (mem_singleton_self _)
  | @reported i worker target left row now later hworker hreporting hrow hheld leaseUntil =>
    obtain ⟨htoken, hvalid⟩ := RequestRow.heldBy_iff.mp hheld
    obtain ⟨hopen, holder, hcovers, hsame⟩ := hs.held _ _ _ hrow htoken
    obtain ⟨holder', hcovers', hsame'⟩ := hlater.covers _ holder hcovers
    obtain ⟨hplan, hanswered⟩ := hs.phases i worker hworker
    have hstands : Stands s target := hplan target (by rw [hreporting]; exact mem_cons_self)
    refine hs.update hlater hrow rfl (fun x => ?_) (fun token htoken' => ?_)
      (fun hcomplete => absurd hcomplete hopen) (hs.phases.move hlater hworker rfl ?_ fun _ _ h => nomatch h)
    · show (s.tables.completeTarget worker.requestId target.key).get? x = _ ∨ _
      rw [Tables.get?_completeTarget]
      split
      · rename_i hx
        obtain ⟨rfl, hsome⟩ := hx
        exact .inr ⟨rfl, hsome, rfl, _, mem_append_right _ (mem_singleton_self _), rfl, rfl,
          hstands, hvalid, hanswered target left hreporting⟩
      · exact .inl rfl
    · have heq : some worker.token = some token := htoken ▸ htoken'
      cases heq
      exact ⟨hopen, holder', hcovers', hsame'.trans hsame⟩
    · rw [hreporting]
      exact fun _ h => mem_cons_of_mem _ h
  | @settled a i worker row now hworker hrow hheld complete hcomplete reason =>
    obtain ⟨htoken, -⟩ := RequestRow.heldBy_iff.mp hheld
    obtain ⟨-, holder, hcovers, -⟩ := hs.held _ _ _ hrow htoken
    obtain ⟨holder', hcovers', -⟩ := hlater.covers _ holder hcovers
    refine hs.update hlater hrow rfl (fun _ => .inl rfl) (fun token htoken' => ?_)
      (fun hdone => ⟨?_, holder', hcovers'⟩)
      (hs.phases.move hlater hworker rfl (fun _ h => nomatch h) fun _ _ h => nomatch h)
    · cases htoken'
    · cases complete with
      | false => cases hdone
      | true => exact Tables.complete_of_remaining (hcomplete rfl)
  | stopped hworker hphase =>
    refine hs.keep hlater rfl rfl (hs.phases.move hlater hworker rfl (fun target htarget => ?_)
      fun target left hreporting => ?_)
    · rcases hphase with rfl | ⟨reason, rfl⟩
      · cases htarget
      · cases htarget
    · rcases hphase with rfl | ⟨reason, rfl⟩
      · cases hreporting
      · cases hreporting

theorem leased_run {as : List Action} (hrun : run (step config) .initial as = some s) : Leased config s :=
  (run_invariant (I := fun s => Fenced s ∧ Leased config s)
    (fun _ _ _ hs h => ⟨fenced_step hs.1 h, leased_step hs.1 hs.2 h⟩)
    ⟨fenced_initial, leased_initial config⟩ hrun).2

/-! ### Completion is final, and only the holder completes a target -/

def StaysComplete (s s' : System) : Prop :=
  ∀ id row, s.tables.requests.get? id = some row → row.status = .complete →
    ∃ row', s'.tables.requests.get? id = some row' ∧ row'.status = .complete

theorem staysComplete_set {row row' : RequestRow}
    (hrow : s.tables.requests.get? id = some row) (hopen : row.status ≠ .complete)
    (hrequests : s'.tables.requests = s.tables.requests.set id row') : StaysComplete s s' := by
  intro x found hfound hcomplete
  have hne : x ≠ id := by
    rintro rfl
    rw [hrow] at hfound
    cases hfound
    exact hopen hcomplete
  exact ⟨found, by rw [hrequests, Dict.get?_set_ne _ _ hne, hfound], hcomplete⟩

theorem staysComplete_step {a : Action} (hs : Leased config s) (hstep : step config s a = some s')
    : StaysComplete s s' := by
  have hsame : ∀ {t : System}, t.tables.requests = s.tables.requests → StaysComplete s t :=
    fun heq id row hrow hcomplete => ⟨row, heq ▸ hrow, hcomplete⟩
  cases step_cases hstep with
  | stay => exact hsame rfl
  | recorded entry hrecorded => exact hsame hrecorded.requests
  | opened request hopened =>
    cases hopened with
    | again hold heq => exact hsame rfl
    | fresh hnew =>
      intro id row hrow hcomplete
      have hne : id ≠ request.requestId := by
        rintro rfl
        simp [hnew] at hrow
      exact ⟨row, (Dict.get?_set_ne _ _ hne).trans hrow, hcomplete⟩
  | refused hclaimed =>
    cases hclaimed with
    | refused => exact hsame rfl
    | blocked hrow hopen reason => exact staysComplete_set hrow hopen rfl
  | drawn sinks hclaimed =>
    cases hclaimed with
    | drawn hrow hopen hcovered leaseUntil => exact staysComplete_set hrow hopen rfl
  | answered hworker hworking => exact hsame rfl
  | reported hworker hreporting hrow hheld leaseUntil =>
    obtain ⟨htoken, -⟩ := RequestRow.heldBy_iff.mp hheld
    exact staysComplete_set hrow (hs.held _ _ _ hrow htoken).1 rfl
  | settled hworker hrow hheld hcomplete reason =>
    obtain ⟨htoken, -⟩ := RequestRow.heldBy_iff.mp hheld
    exact staysComplete_set hrow (hs.held _ _ _ hrow htoken).1 rfl
  | stopped hworker hphase => exact hsame rfl

theorem staysComplete_run {t : System} {as : List Action} (hfenced : Fenced s) (hs : Leased config s)
    (hrun : run (step config) s as = some t) :
    StaysComplete s t := by
  refine run_relation (I := fun s => Fenced s ∧ Leased config s) (R := StaysComplete)
    (fun _ _ _ hI h => ⟨fenced_step hI.1 h, leased_step hI.1 hI.2 h⟩)
    (fun s id row hrow hcomplete => ⟨row, hrow, hcomplete⟩)
    (fun {a b c} hab hbc id row hrow hcomplete => ?_)
    (fun _ _ _ hI h => staysComplete_step hI.2 h) ⟨hfenced, hs⟩ hrun
  obtain ⟨row', hrow', hcomplete'⟩ := hab id row hrow hcomplete
  exact hbc id row' hrow' hcomplete'

/-- The step that completes a target is a report of the worker whose token the request is leased
under, read before the lease ran out. -/
def CompletedByHolder (s : System) (a : Action) (s' : System) : Prop :=
  ∀ id key, s.tables.targets.get? (id, key) = some false → s'.tables.targets.get? (id, key) = some true →
    ∃ i now later worker row, a = .report i now later false ∧ s.workers[i]? = some worker ∧
      worker.requestId = id ∧ s.tables.requests.get? id = some row ∧
      row.lease = some worker.token ∧ now < row.leaseUntil

theorem completedByHolder_step {a : Action} (hstep : step config s a = some s')
    : CompletedByHolder s a s' := by
  have hsame : ∀ {t : System}, t.tables.targets = s.tables.targets → CompletedByHolder s a t := by
    intro t heq id key hbefore hafter
    simp [heq, hbefore] at hafter
  cases step_cases hstep with
  | stay => exact hsame rfl
  | recorded entry hrecorded => exact hsame hrecorded.targets
  | opened request hopened =>
    cases hopened with
    | again hold heq => exact hsame rfl
    | fresh hnew =>
      intro id key hbefore hafter
      rw [show (addTargets _ _ _).get? (id, key) = _ from get?_addTargets _] at hafter
      split at hafter
      · cases hafter
      · simp [hbefore] at hafter
  | refused hclaimed =>
    cases hclaimed with
    | refused => exact hsame rfl
    | blocked hrow hopen reason => exact hsame rfl
  | drawn sinks hclaimed =>
    cases hclaimed with
    | drawn hrow hopen hcovered leaseUntil => exact hsame rfl
  | answered hworker hworking => exact hsame rfl
  | @reported i worker target left row now later hworker hreporting hrow hheld leaseUntil =>
    obtain ⟨htoken, hvalid⟩ := RequestRow.heldBy_iff.mp hheld
    intro id key hbefore hafter
    rw [show (s.tables.completeTarget worker.requestId target.key).get? (id, key) = _ from
      Tables.get?_completeTarget _] at hafter
    split at hafter
    · rename_i hx
      cases hx.1
      exact ⟨i, now, later, worker, row, rfl, hworker, rfl, hrow, htoken, hvalid⟩
    · simp [hbefore] at hafter
  | settled hworker hrow hheld hcomplete reason => exact hsame rfl
  | stopped hworker hphase => exact hsame rfl

/-- In every run of any number of workers, a request that is complete is accounted for and stays
complete, and only the worker that holds a request completes its targets. -/
theorem completed_requests_are_accounted (config : Configuration) (front back : List Action)
    (s t : System) (hfront : run (step config) .initial front = some s)
    (hback : run (step config) s back = some t) :
    (∀ id row, s.tables.requests.get? id = some row → row.status = .complete →
      Accounted config s id) ∧
    StaysComplete s t ∧
    ∀ a s', step config s a = some s' → CompletedByHolder s a s' := by
  have hs := leased_run hfront
  refine ⟨fun id row hrow hcomplete => ?_, staysComplete_run (fenced_run hfront) hs hback,
    fun a s' hstep => completedByHolder_step hstep⟩
  obtain ⟨hall, hcoverage⟩ := hs.closed id row hrow hcomplete
  refine ⟨fun key complete htarget => ?_, hcoverage⟩
  obtain rfl := hall key complete htarget
  exact ⟨rfl, hs.reported id key htarget⟩

/-- The erasure of the tool result and its reply completes, and it is accounted for. -/
theorem erasure_is_accounted : ∃ s row,
    run (step Sample.configuration) .initial Sample.erasing = some s ∧
      s.tables.requests.get? "erase" = some row ∧ row.status = .complete ∧
      Accounted Sample.configuration s "erase" := by
  have htrace : (run (step Sample.configuration) .initial Sample.erasing).map
      (fun s => s.tables.requests.get? "erase") =
    some (some { request := Sample.erasure, status := .complete }) := rfl
  obtain ⟨s, hrun, hrow⟩ := Option.map_eq_some_iff.mp htrace
  obtain ⟨haccounted, -⟩ :=
    completed_requests_are_accounted Sample.configuration Sample.erasing [] s s hrun rfl
  exact ⟨s, _, hrun, hrow, rfl, haccounted "erase" _ hrow rfl⟩

end OpenAgent.Privacy
