import OpenAgent.Runtime.Lock

/-!
# Who owns a run

Between its acceptance and its end a run that this runtime created has one owner: first the submission
that writes its profile event, then its execution task. The owner holds the binding of the run to its
graph, and with it one lease. A run that was accepted before is in the ledger for good, so it is never
created, and never owned, a second time.
-/

namespace OpenAgent

open Lib Option

variable {D P : Type}

def Submit.Profiles (call : Submit D) (r : String) (g : Nat) : Prop :=
  ∃ record revision, call.phase = .profiling record g revision ∧ record.runId = r

theorem Submit.Profiles.locks {call : Submit D} {r : String} {g : Nat} (h : call.Profiles r g) :
    call.locks = true := by
  obtain ⟨record, revision, hphase, -⟩ := h
  rw [Submit.locks, hphase]

theorem Graph.leases_release (graph : Graph) : graph.release.leases = graph.leases - 1 := by
  unfold Graph.release
  split
  · omega
  · rfl

theorem Graph.leases_acquire {graph graph' : Graph} (h : graph.acquire = some graph') :
    graph'.leases = graph.leases + 1 := by
  unfold Graph.acquire at h
  split at h
  · cases h
  · cases h
    rfl

theorem Submit.not_profiles {call : Submit D}
    (h : ∀ record g revision, call.phase ≠ .profiling record g revision) (r : String) (g : Nat) :
    ¬ call.Profiles r g := by
  rintro ⟨record, revision, hphase, -⟩
  exact h record g revision hphase

theorem Submit.Idle.profiles_back {o : Option (Submit D)} {call' : Submit D}
    (h : Submit.Idle o (some call')) {r : String} {g : Nat} (hprofiles : call'.Profiles r g) :
    ∃ call, o = some call ∧ call.Profiles r g ∧ call'.request = call.request := by
  cases h with
  | same call interrupted => exact ⟨call, rfl, hprofiles, rfl⟩
  | withdrawn call hphase => exact absurd hprofiles (Submit.not_profiles (by simp) r g)
  | fresh call hphase => exact absurd hprofiles (Submit.not_profiles (by simp [hphase]) r g)

theorem Submit.Idle.profiles_forth {call : Submit D} {n : Option (Submit D)}
    (h : Submit.Idle (some call) n) {r : String} {g : Nat} (hprofiles : call.Profiles r g) :
    ∃ call', n = some call' ∧ call'.Profiles r g := by
  cases h with
  | same call interrupted => exact ⟨_, rfl, hprofiles⟩
  | withdrawn call hphase => exact absurd hprofiles (Submit.not_profiles (by simp [hphase]) r g)

namespace Runtime

def boundTo (s : Runtime D P) (g : Nat) : Nat := s.runGraphs.count fun _ g' => decide (g' = g)

structure Owned (s : Runtime D P) : Prop where
  known : ∀ (t : Nat) e, s.executions[t]? = some e → s.ledger.runs.get? e.request.runId ≠ none
  distinct : ∀ (t t' : Nat) e e', s.executions[t]? = some e → s.executions[t']? = some e' →
    e.request.runId = e'.request.runId → t = t'
  profiled : ∀ (i : Nat) call r g, s.submits[i]? = some call → call.Profiles r g →
    call.request.runId = r ∧ s.ledger.runs.get? r ≠ none ∧ s.runGraphs.get? r = some g ∧
      ∀ (t : Nat) e, s.executions[t]? = some e → e.request.runId ≠ r
  bound : ∀ (t : Nat) e, s.executions[t]? = some e → e.phase ≠ .ended false →
    s.runGraphs.get? e.request.runId = some e.graph
  owner : ∀ r g, s.runGraphs.get? r = some g → s.ledger.runs.get? r ≠ none ∧
    ((∃ (i : Nat) (call : Submit D), s.submits[i]? = some call ∧ call.Profiles r g) ∨
      ∃ (t : Nat) (e : Execution), s.executions[t]? = some e ∧ e.request.runId = r ∧ e.graph = g ∧
        e.phase ≠ .ended false)
  leased : ∀ g, s.leasesOf g = s.boundTo g

theorem owned_construct (ledger : Ledger D P) (catalog : Catalog) (initialGeneration : Nat)
    (ownsStore : Bool) : (construct ledger catalog initialGeneration ownsStore).Owned where
  known t e h := by cases h
  distinct t t' e e' h := by cases h
  profiled i call r g h := by cases h
  bound t e h := by cases h
  owner r g h := by cases h
  leased g := rfl

variable {s s' : Runtime D P}

theorem Owned.of_same (hs : s.Owned) (hledger : s.ledger.Retains s'.ledger)
    (hruns : s'.runGraphs = s.runGraphs) (hleases : ∀ g, s'.leasesOf g = s.leasesOf g)
    (hexecutions : SameTasks s.executions s'.executions)
    (hback : ∀ (i : Nat) call' r g, s'.submits[i]? = some call' → call'.Profiles r g →
      ∃ call, s.submits[i]? = some call ∧ call.Profiles r g ∧ call'.request = call.request)
    (hforth : ∀ (i : Nat) call r g, s.submits[i]? = some call → call.Profiles r g →
      ∃ call', s'.submits[i]? = some call' ∧ call'.Profiles r g) : s'.Owned := by
  refine ⟨?_, ?_, ?_, ?_, ?_, ?_⟩
  · intro t e' he'
    obtain ⟨e, he, hidle⟩ := hexecutions.back he'
    rw [hidle.request]
    exact hledger.present (hs.known t e he)
  · intro t t' e₁' e₂' h₁ h₂ heq
    obtain ⟨e₁, he₁, hidle₁⟩ := hexecutions.back h₁
    obtain ⟨e₂, he₂, hidle₂⟩ := hexecutions.back h₂
    rw [hidle₁.request, hidle₂.request] at heq
    exact hs.distinct t t' e₁ e₂ he₁ he₂ heq
  · intro i call' r g hcall' hprofiles'
    obtain ⟨call, hcall, hprofiles, hrequest⟩ := hback i call' r g hcall' hprofiles'
    obtain ⟨hid, hpresent, hbound, hfree⟩ := hs.profiled i call r g hcall hprofiles
    refine ⟨by rw [hrequest, hid], hledger.present hpresent, by rw [hruns, hbound], ?_⟩
    intro t e' he'
    obtain ⟨e, he, hidle⟩ := hexecutions.back he'
    rw [hidle.request]
    exact hfree t e he
  · intro t e' he' hphase
    obtain ⟨e, he, hidle⟩ := hexecutions.back he'
    rw [hruns, hidle.request, hidle.graph]
    exact hs.bound t e he (by rwa [hidle.phase] at hphase)
  · intro r g hbound
    rw [hruns] at hbound
    obtain ⟨hpresent, ⟨i, call, hcall, hprofiles⟩ | ⟨t, e, he, hid, hgraph, hphase⟩⟩ :=
      hs.owner r g hbound
    · obtain ⟨call', hcall', hprofiles'⟩ := hforth i call r g hcall hprofiles
      exact ⟨hledger.present hpresent, .inl ⟨i, call', hcall', hprofiles'⟩⟩
    · obtain ⟨e', he', hidle⟩ := hexecutions.forth he
      exact ⟨hledger.present hpresent, .inr ⟨t, e', he', by rw [hidle.request, hid],
        by rw [hidle.graph, hgraph], by rwa [hidle.phase]⟩⟩
  · intro g
    rw [hleases, hs.leased, boundTo, boundTo, hruns]

variable {g i t revision : Nat}

theorem Owned.of_submit {call call' : Submit D} (hs : s.Owned) (hcall : s.submits[i]? = some call)
    (hsubmits : s'.submits = s.submits.set i call') (hledger : s.ledger.Retains s'.ledger)
    (hruns : s'.runGraphs = s.runGraphs) (hgraphs : s'.graphs = s.graphs)
    (hexecutions : s'.executions = s.executions) (hquiet : ∀ r g, ¬ call.Profiles r g)
    (hquiet' : ∀ r g, ¬ call'.Profiles r g) : s'.Owned := by
  refine hs.of_same hledger hruns (fun g => by rw [leasesOf, leasesOf, hgraphs]) ?_ ?_ ?_
  · rw [hexecutions]
    exact .refl _
  · intro j other r g hother hprofiles
    rw [hsubmits] at hother
    rcases (getElem?_set_eq_some hcall).mp hother with ⟨-, rfl⟩ | ⟨-, hsame⟩
    · exact absurd hprofiles (hquiet' r g)
    · exact ⟨other, hsame, hprofiles, rfl⟩
  · intro j other r g hother hprofiles
    have hne : i ≠ j := by
      rintro rfl
      cases hcall.symm.trans hother
      exact hquiet r g hprofiles
    exact ⟨other, by rw [hsubmits, List.getElem?_set_ne hne, hother], hprofiles⟩

theorem Owned.of_frame [DecidableEq D] (env : Environment D) (hs : s.Owned) (h : Frame env s s')
    : s'.Owned := by
  refine hs.of_same h.ledger.retains h.runGraphs h.leases h.executions ?_ ?_
  · intro i call' r g hcall' hprofiles
    have hidle := h.submits i
    rw [hcall'] at hidle
    exact Submit.Idle.profiles_back hidle hprofiles
  · intro i call r g hcall hprofiles
    have hidle := h.submits i
    rw [hcall] at hidle
    exact Submit.Idle.profiles_forth hidle hprofiles

/-! ### Steps of the owners -/

variable {env : Environment D}

private theorem owned_leased [DecidableEq D] {call : Submit D} {attempt : Attempt D P}
    {record : RunRecord D} {ledger : Ledger D P} {graph : Graph} (hs : s.Owned)
    (hcall : s.submits[i]? = some call) (hphase : call.phase = .accepting g)
    (haccept : Store.accept (attempt.host env) call.request call.context attempt.moment.now s.ledger =
      .ok ((record, true), ledger)) (hacquire : s.graphs[g]?.bind Graph.acquire = some graph) :
    Owned { s with
      ledger
      graphs := s.graphs.set g graph
      runGraphs := s.runGraphs.set record.runId g
      runCapabilityRevisions := s.runCapabilityRevisions.set record.runId revision
      submits := s.submits.set i { call with phase := .profiling record g revision } } := by
  obtain ⟨hid, habsent, -, row, hrow, -⟩ := Store.accept_created haccept
  have hledger : s.ledger.Retains ledger :=
    Store.commit_retains env.fingerprint (.accept rfl haccept)
  have hfresh : ∀ r, s.ledger.runs.get? r ≠ none → r ≠ record.runId := by
    rintro r hr rfl
    rw [hid] at hr
    exact hr habsent
  have hunbound : s.runGraphs.get? record.runId = none := by
    by_contra hbound
    obtain ⟨g', hg'⟩ := ne_none_iff_exists'.mp hbound
    exact hfresh _ (hs.owner _ g' hg').1 rfl
  have hkept : ∀ r, s.ledger.runs.get? r ≠ none →
      (s.runGraphs.set record.runId g).get? r = s.runGraphs.get? r :=
    fun r hr => Dict.get?_set_ne _ _ (hfresh r hr)
  refine ⟨?_, hs.distinct, ?_, ?_, ?_, ?_⟩
  · intro t e he
    exact hledger.present (hs.known t e he)
  · intro j other r g' hother hprofiles
    rcases (getElem?_set_eq_some hcall).mp hother with ⟨-, rfl⟩ | ⟨-, hsame⟩
    · obtain ⟨found, _, hfound, rfl⟩ := hprofiles
      cases hfound
      refine ⟨hid.symm, by rw [hid, hrow]; exact some_ne_none row, Dict.get?_set_self _ _ _, ?_⟩
      intro t e he
      exact hfresh _ (hs.known t e he)
    · obtain ⟨hrequest, hpresent, hbound, hfree⟩ := hs.profiled j other r g' hsame hprofiles
      exact ⟨hrequest, hledger.present hpresent, (hkept r hpresent).trans hbound, hfree⟩
  · intro t e he hlive
    exact (hkept _ (hs.known t e he)).trans (hs.bound t e he hlive)
  · intro r g' hbound
    replace hbound : (s.runGraphs.set record.runId g).get? r = some g' := hbound
    rw [Dict.get?_set] at hbound
    split at hbound
    · rename_i hr
      cases hbound
      refine ⟨by rw [hr, hid, hrow]; exact some_ne_none row, .inl ⟨i, _,
        (getElem?_set_eq_some hcall).mpr (.inl ⟨rfl, rfl⟩), record, revision, rfl, hr.symm⟩⟩
    · obtain ⟨hpresent, ⟨j, other, hother, hprofiles⟩ | hexecution⟩ := hs.owner r g' hbound
      · have hne : i ≠ j := by
          rintro rfl
          cases hcall.symm.trans hother
          exact Submit.not_profiles (by simp [hphase]) r g' hprofiles
        exact ⟨hledger.present hpresent,
          .inl ⟨j, other, (List.getElem?_set_ne hne).trans hother, hprofiles⟩⟩
      · exact ⟨hledger.present hpresent, .inr hexecution⟩
  · intro x
    obtain ⟨before, hbefore, hgraph⟩ := Option.bind_eq_some_iff.mp hacquire
    have hcount := Dict.count_set_of_absent g (fun _ g' => decide (g' = x)) hunbound
    have hold := hs.leased x
    rw [leasesOf, boundTo] at hold ⊢
    dsimp only
    rw [hcount, ← hold]
    by_cases hx : g = x
    · subst hx
      rw [(getElem?_set_eq_some hbefore).mpr (.inl ⟨rfl, rfl⟩), hbefore]
      simp [Graph.leases_acquire hgraph]
    · rw [List.getElem?_set_ne hx]
      simp [hx]

private theorem leased_release {r : String} (hs : s.Owned) (hbound : s.runGraphs.get? r = some g) (x : Nat) :
    (((s.graphs.modify g Graph.release)[x]?.map Graph.leases).getD 0) =
      (s.runGraphs.pop r).count fun _ g' => decide (g' = x) := by
  have hcount := Dict.count_pop (fun _ g' => decide (g' = x)) hbound
  have hold := hs.leased x
  rw [leasesOf, boundTo] at hold
  rw [List.getElem?_modify]
  by_cases hx : g = x
  · subst hx
    simp only [decide_true, if_true] at hcount
    cases hgraph : s.graphs[g]? with
    | none =>
      rw [hgraph] at hold
      simp only [map_none, getD_none] at hold
      omega
    | some graph =>
      rw [hgraph] at hold
      simp only [map_some, getD_some] at hold
      simp only [map_eq_map, map_some, if_true, getD_some, Graph.leases_release]
      omega
  · simp only [hx, decide_false, Bool.false_eq_true, if_false, Nat.add_zero] at hcount
    rw [hcount, ← hold]
    cases s.graphs[x]? with
    | none => rfl
    | some graph => simp [hx]

private theorem owned_started {call : Submit D} {record : RunRecord D} {ledger : Ledger D P} (hs : s.Owned)
    (hlocked : s.Locked) (hcall : s.submits[i]? = some call)
    (hphase : call.phase = .profiling record g revision) (hledger : s.ledger.Retains ledger) :
    Owned (submitEnd { s with
      ledger
      tasks := s.tasks.set record.runId s.executions.length
      executions := s.executions ++
        [({ request := call.request, context := call.context, graph := g, revision } : Execution)] }
      i call (.ok record) (some record.runId)) := by
  have hprofiles : call.Profiles record.runId g := ⟨record, revision, hphase, rfl⟩
  obtain ⟨hrequest, hpresent, hbound, hfree⟩ := hs.profiled i call record.runId g hcall hprofiles
  have honly : ∀ (j : Nat) other r g', (s.submits.set i { call with
      phase := .ended (.ok record) (some record.runId) })[j]? = some other → ¬ other.Profiles r g' := by
    intro j other r g' hother hprofiles'
    rcases (getElem?_set_eq_some hcall).mp hother with ⟨-, rfl⟩ | ⟨hne, hsame⟩
    · exact Submit.not_profiles (by simp) r g' hprofiles'
    · have hheld : s.locks (.submit i) = true := by
        rw [Runtime.locks, hcall, any_some, hprofiles.locks]
      have hheld' : s.locks (.submit j) = true := by
        rw [Runtime.locks, hsame, any_some, hprofiles'.locks]
      cases hlocked.unique hheld hheld'
      exact hne rfl
  refine ⟨?_, ?_, ?_, ?_, ?_, hs.leased⟩
  · intro t e he
    rcases getElem?_append_singleton.mp he with hold | ⟨-, rfl⟩
    · exact hledger.present (hs.known t e hold)
    · rw [hrequest]
      exact hledger.present hpresent
  · intro t t' e e' he he' heq
    rcases getElem?_append_singleton.mp he with hold | ⟨ht, rfl⟩ <;>
      rcases getElem?_append_singleton.mp he' with hold' | ⟨ht', rfl⟩
    · exact hs.distinct t t' e e' hold hold' heq
    · exact absurd (heq.trans hrequest) (hfree t e hold)
    · exact absurd (heq.symm.trans hrequest) (hfree t' e' hold')
    · rw [ht, ht']
  · intro j other r g' hother hprofiles'
    exact absurd hprofiles' (honly j other r g' hother)
  · intro t e he hlive
    rcases getElem?_append_singleton.mp he with hold | ⟨-, rfl⟩
    · exact hs.bound t e hold hlive
    · exact (congrArg s.runGraphs.get? hrequest).trans hbound
  · intro r g' hbound'
    obtain ⟨hpresent', ⟨j, other, hother, hprofiles'⟩ | ⟨t, e, he, hid, hgraph, hlive⟩⟩ :=
      hs.owner r g' hbound'
    · refine ⟨hledger.present hpresent', .inr ⟨s.executions.length, _,
        getElem?_append_singleton.mpr (.inr ⟨rfl, rfl⟩), ?_⟩⟩
      have hheld : s.locks (.submit i) = true := by
        rw [Runtime.locks, hcall, any_some, hprofiles.locks]
      have hheld' : s.locks (.submit j) = true := by
        rw [Runtime.locks, hother, any_some, hprofiles'.locks]
      cases hlocked.unique hheld hheld'
      cases hcall.symm.trans hother
      obtain ⟨found, _, hfound, rfl⟩ := hprofiles'
      cases hphase.symm.trans hfound
      exact ⟨hrequest, rfl, by simp⟩
    · exact ⟨hledger.present hpresent', .inr ⟨t, e, getElem?_append_singleton.mpr (.inl he), hid,
        hgraph, hlive⟩⟩

private theorem owned_rolledBack {call : Submit D} {record : RunRecord D} {error : Failure} (hs : s.Owned)
    (hlocked : s.Locked) (hcall : s.submits[i]? = some call)
    (hphase : call.phase = .profiling record g revision) :
    Owned (submitEnd { s with
      runGraphs := s.runGraphs.pop record.runId
      runCapabilityRevisions := s.runCapabilityRevisions.pop record.runId
      graphs := s.graphs.modify g Graph.release } i call (.error error) (some record.runId)) := by
  have hprofiles : call.Profiles record.runId g := ⟨record, revision, hphase, rfl⟩
  obtain ⟨hrequest, hpresent, hbound, hfree⟩ := hs.profiled i call record.runId g hcall hprofiles
  have hheld : s.locks (.submit i) = true := by
    rw [Runtime.locks, hcall, any_some, hprofiles.locks]
  refine ⟨hs.known, hs.distinct, ?_, ?_, ?_, leased_release hs hbound⟩
  · intro j other r g' hother hprofiles'
    rcases (getElem?_set_eq_some hcall).mp hother with ⟨-, rfl⟩ | ⟨hne, hsame⟩
    · exact absurd hprofiles' (Submit.not_profiles (by simp) r g')
    · have hheld' : s.locks (.submit j) = true := by
        rw [Runtime.locks, hsame, any_some, hprofiles'.locks]
      cases hlocked.unique hheld hheld'
      exact absurd rfl hne
  · intro t e he hlive
    exact (Dict.get?_pop_ne _ (hfree t e he)).trans (hs.bound t e he hlive)
  · intro r g' hbound'
    replace hbound' : (s.runGraphs.pop record.runId).get? r = some g' := hbound'
    rw [Dict.get?_pop] at hbound'
    split at hbound'
    · cases hbound'
    rename_i hr
    obtain ⟨hpresent', ⟨j, other, hother, hprofiles'⟩ | hexecution⟩ := hs.owner r g' hbound'
    · have hheld' : s.locks (.submit j) = true := by
        rw [Runtime.locks, hother, any_some, hprofiles'.locks]
      cases hlocked.unique hheld hheld'
      cases hcall.symm.trans hother
      obtain ⟨found, _, hfound, rfl⟩ := hprofiles'
      cases hphase.symm.trans hfound
      exact absurd rfl hr
    · exact ⟨hpresent', .inr hexecution⟩

private theorem owned_execution {e e' : Execution} (hs : s.Owned) (he : s.executions[t]? = some e)
    (hexecutions : s'.executions = s.executions.set t e') (hledger : s.ledger.Retains s'.ledger)
    (hruns : s'.runGraphs = s.runGraphs) (hgraphs : s'.graphs = s.graphs)
    (hsubmits : s'.submits = s.submits) (hrequest : e'.request = e.request) (hgraph : e'.graph = e.graph)
    (hlive : e.phase ≠ .ended false) (hlive' : e'.phase ≠ .ended false) : s'.Owned := by
  have hold : ∀ (x : Nat) found, s'.executions[x]? = some found → ∃ old, s.executions[x]? = some old ∧
      found.request = old.request ∧ found.graph = old.graph ∧
      (found.phase ≠ .ended false → old.phase ≠ .ended false) := by
    intro x found hfound
    rw [hexecutions] at hfound
    rcases (getElem?_set_eq_some he).mp hfound with ⟨rfl, rfl⟩ | ⟨-, hsame⟩
    · exact ⟨e, he, hrequest, hgraph, fun _ => hlive⟩
    · exact ⟨found, hsame, rfl, rfl, id⟩
  refine ⟨?_, ?_, ?_, ?_, ?_, ?_⟩
  · intro x found hfound
    obtain ⟨old, hx, hid, -⟩ := hold x found hfound
    rw [hid]
    exact hledger.present (hs.known x old hx)
  · intro x y found found' hfound hfound' heq
    obtain ⟨old, hx, hid, -⟩ := hold x found hfound
    obtain ⟨old', hy, hid', -⟩ := hold y found' hfound'
    rw [hid, hid'] at heq
    exact hs.distinct x y old old' hx hy heq
  · intro i call r g hcall hprofiles
    rw [hsubmits] at hcall
    obtain ⟨hid, hpresent, hbound, hfree⟩ := hs.profiled i call r g hcall hprofiles
    refine ⟨hid, hledger.present hpresent, by rw [hruns, hbound], ?_⟩
    intro x found hfound
    obtain ⟨old, hx, hidx, -⟩ := hold x found hfound
    rw [hidx]
    exact hfree x old hx
  · intro x found hfound hphase
    obtain ⟨old, hx, hid, hg, hstill⟩ := hold x found hfound
    rw [hruns, hid, hg]
    exact hs.bound x old hx (hstill hphase)
  · intro r g hbound
    rw [hruns] at hbound
    obtain ⟨hpresent, hprofiled | ⟨x, old, hx, hid, hg, hphase⟩⟩ := hs.owner r g hbound
    · rw [← hsubmits] at hprofiled
      exact ⟨hledger.present hpresent, .inl hprofiled⟩
    · refine ⟨hledger.present hpresent, .inr ?_⟩
      rw [hexecutions]
      by_cases hxt : t = x
      · subst hxt
        cases he.symm.trans hx
        exact ⟨t, e', (getElem?_set_eq_some he).mpr (.inl ⟨rfl, rfl⟩),
          (congrArg RunRequest.runId hrequest).trans hid, hgraph.trans hg, hlive'⟩
      · exact ⟨x, old, (getElem?_set_eq_some he).mpr (.inr ⟨hxt, hx⟩), hid, hg, hphase⟩
  · intro g
    rw [leasesOf, boundTo, hgraphs, hruns]
    exact hs.leased g

/-- A task ends through its `finally`. -/
private theorem owned_finalized {e : Execution} {ledger : Ledger D P} (hs : s.Owned)
    (he : s.executions[t]? = some e) (hlive : e.done = false) (hledger : s.ledger.Retains ledger)
    : Owned (finalize { s with ledger } t e) := by
  have hphase : e.phase ≠ .ended false := by
    intro hended
    simp [Execution.done, hended] at hlive
  have hbound := hs.bound t e he hphase
  have hold : ∀ (x : Nat) found, (s.executions.set t { e with phase := .ended false })[x]? = some found →
      ∃ old, s.executions[x]? = some old ∧ found.request = old.request := by
    intro x found hfound
    rcases (getElem?_set_eq_some he).mp hfound with ⟨rfl, rfl⟩ | ⟨-, hsame⟩
    · exact ⟨e, he, rfl⟩
    · exact ⟨found, hsame, rfl⟩
  refine ⟨?_, ?_, ?_, ?_, ?_, fun x => leased_release hs hbound x⟩
  · intro x found hfound
    obtain ⟨old, hx, hid⟩ := hold x found hfound
    rw [hid]
    exact hledger.present (hs.known x old hx)
  · intro x y found found' hfound hfound' heq
    obtain ⟨old, hx, hid⟩ := hold x found hfound
    obtain ⟨old', hy, hid'⟩ := hold y found' hfound'
    rw [hid, hid'] at heq
    exact hs.distinct x y old old' hx hy heq
  · intro i call r g hcall hprofiles
    obtain ⟨hid, hpresent, hr, hfree⟩ := hs.profiled i call r g hcall hprofiles
    refine ⟨hid, hledger.present hpresent, (Dict.get?_pop_ne _ (hfree t e he).symm).trans hr, ?_⟩
    intro x found hfound
    obtain ⟨old, hx, hidx⟩ := hold x found hfound
    rw [hidx]
    exact hfree x old hx
  · intro x found hfound hlivex
    rcases (getElem?_set_eq_some he).mp hfound with ⟨-, rfl⟩ | ⟨hne, hsame⟩
    · exact absurd rfl hlivex
    · have hr : found.request.runId ≠ e.request.runId :=
        fun heq => hne (hs.distinct x t found e hsame he heq).symm
      exact (Dict.get?_pop_ne _ hr).trans (hs.bound x found hsame hlivex)
  · intro r g hr
    replace hr : (s.runGraphs.pop e.request.runId).get? r = some g := hr
    rw [Dict.get?_pop] at hr
    split at hr
    · cases hr
    rename_i hne
    obtain ⟨hpresent, hprofiled | ⟨x, old, hx, hid, hg, hlivex⟩⟩ := hs.owner r g hr
    · exact ⟨hledger.present hpresent, .inl hprofiled⟩
    · have hxt : t ≠ x := by
        rintro rfl
        cases he.symm.trans hx
        exact hne hid.symm
      exact ⟨hledger.present hpresent,
        .inr ⟨x, old, (getElem?_set_eq_some he).mpr (.inr ⟨hxt, hx⟩), hid, hg, hlivex⟩⟩

theorem Owned.of_submitMove [DecidableEq D] {call : Submit D} (hs : s.Owned)
    (hlocked : s.Locked) (hcall : s.submits[i]? = some call) (h : SubmitMove env s i call s') :
    s'.Owned := by
  have hended : ∀ outcome created r g,
      ¬ ({ call with phase := .ended outcome created } : Submit D).Profiles r g :=
    fun outcome created => Submit.not_profiles (by simp)
  cases h with
  | refused error hphase hfree =>
    exact hs.of_submit hcall rfl (.refl _) rfl rfl rfl (Submit.not_profiles (by simp [hphase]))
      (hended _ _)
  | entered g hphase hfree hactive =>
    exact hs.of_submit hcall rfl (.refl _) rfl rfl rfl (Submit.not_profiles (by simp [hphase]))
      (Submit.not_profiles (by simp))
  | authorized g hphase =>
    exact hs.of_submit hcall rfl (.refl _) rfl rfl rfl (Submit.not_profiles (by simp [hphase]))
      (Submit.not_profiles (by simp))
  | denied g error hphase =>
    exact hs.of_submit hcall rfl (.refl _) rfl rfl rfl (Submit.not_profiles (by simp [hphase]))
      (hended _ _)
  | unaccepted g error hphase =>
    exact hs.of_submit hcall rfl (.refl _) rfl rfl rfl (Submit.not_profiles (by simp [hphase]))
      (hended _ _)
  | found g attempt record ledger hphase haccept =>
    exact hs.of_submit hcall rfl (Store.commit_retains env.fingerprint (.accept rfl haccept)) rfl
      rfl rfl (Submit.not_profiles (by simp [hphase])) (hended _ _)
  | unleased g attempt record ledger error hphase haccept hdraining =>
    exact hs.of_submit hcall rfl (Store.commit_retains env.fingerprint (.accept rfl haccept)) rfl
      rfl rfl (Submit.not_profiles (by simp [hphase])) (hended _ _)
  | leased g attempt record ledger graph revision hphase haccept hacquire =>
    exact owned_leased hs hcall hphase haccept hacquire
  | started g revision attempt record sequence payload ledger hphase happend =>
    exact owned_started hs hlocked hcall hphase
      (Store.commit_retains env.fingerprint (.appendEvent happend))
  | rolledBack g revision record error hphase => exact owned_rolledBack hs hlocked hcall hphase
  | withdrawn hphase =>
    exact hs.of_submit hcall rfl (.refl _) rfl rfl rfl (Submit.not_profiles (by simp [hphase]))
      (Submit.not_profiles (by simp))
  | interrupted hpending =>
    exact hs.of_frame env ⟨.refl, rfl, rfl, fun _ _ h => h, .refl _,
      idle_setSubmit hcall (.same call true fun _ => rfl), fun _ => rfl, .inr rfl⟩

theorem Owned.of_executionMove [DecidableEq D] {e : Execution} (hs : s.Owned)
    (he : s.executions[t]? = some e) (h : ExecutionMove env s t e s') : s'.Owned := by
  have hnot : ∀ e : Execution, e.done = false → e.phase ≠ .ended false := by
    intro e hlive hended
    simp [Execution.done, hended] at hlive
  cases h with
  | dropped hphase hcancelled =>
    exact owned_execution hs he rfl (.refl _) rfl rfl rfl rfl rfl (by simp [hphase]) (by simp)
  | moved phase cancelled ledger hledger hlive hlive' hfresh =>
    exact owned_execution hs he rfl hledger.retains rfl rfl rfl rfl rfl (hnot _ hlive) (hnot _ hlive')
  | launched hphase =>
    exact owned_execution hs he rfl (.refl _) rfl rfl rfl rfl rfl (by simp [hphase]) (by simp)
  | finalized ledger hledger hlive => exact owned_finalized hs he hlive hledger.retains

theorem owned_step [DecidableEq D] {a : Action D P} (hs : s.Owned)
    (hlocked : s.Locked) (h : s.step env a = some s') : s'.Owned := by
  rcases step_cases h with ⟨i, x, call, -, hcall, hmove⟩ | ⟨t, x, e, -, he, hmove⟩ | hframe
  · exact hs.of_submitMove hlocked hcall hmove
  · exact hs.of_executionMove he hmove
  · exact hs.of_frame _ hframe

end Runtime

end OpenAgent
