import OpenAgent.Runtime.Leases

/-!
# Exactly-once admission

A run is created by one acceptance at most, its creator makes one task for it, and a task starts the
executor once. An acceptance that collides with an earlier one finds the run of the same request or
conflicts, and a run whose cancellation was reserved first is never created, so it never starts.
-/

namespace OpenAgent

open Lib Option

variable {D P : Type}

namespace Runtime

structure Launched (s : Runtime D P) : Prop where
  once : ∀ r, s.executed.count r ≤ 1
  ran : ∀ r ∈ s.executed, ∃ (t : Nat) (e : Execution), s.executions[t]? = some e ∧
    e.request.runId = r ∧ e.fresh = false

variable {s s' : Runtime D P}

theorem Launched.of_execution {t : Nat} {e e' : Execution} (hs : s.Launched)
    (he : s.executions[t]? = some e) (hexecutions : s'.executions = s.executions.set t e')
    (hrequest : e'.request = e.request) (hfresh : e'.fresh = true → e.fresh = true)
    (hexecuted : s'.executed = s.executed) : s'.Launched := by
  refine ⟨by rw [hexecuted]; exact hs.once, fun r hr => ?_⟩
  rw [hexecuted] at hr
  obtain ⟨x, old, hx, hid, hran⟩ := hs.ran r hr
  rw [hexecutions]
  by_cases hxt : t = x
  · subst hxt
    cases he.symm.trans hx
    refine ⟨t, e', (getElem?_set_eq_some he).mpr (.inl ⟨rfl, rfl⟩),
      (congrArg RunRequest.runId hrequest).trans hid, ?_⟩
    by_contra hnot
    rw [Bool.not_eq_false] at hnot
    simp [hfresh hnot] at hran
  · exact ⟨x, old, (getElem?_set_eq_some he).mpr (.inr ⟨hxt, hx⟩), hid, hran⟩

theorem Launched.not_executed (hs : s.Launched) (howned : s.Owned) {t : Nat} {e : Execution}
    (he : s.executions[t]? = some e) (hfresh : e.fresh = true) :
    e.request.runId ∉ s.executed := by
  intro hmem
  obtain ⟨x, other, hother, hid, hran⟩ := hs.ran _ hmem
  obtain rfl := howned.distinct x t other e hother he hid
  cases he.symm.trans hother
  simp [hfresh] at hran

variable {env : Environment D}

theorem Launched.of_executionMove [DecidableEq D] {t : Nat} {e : Execution} (hs : s.Launched)
    (howned : s.Owned) (he : s.executions[t]? = some e) (h : ExecutionMove env s t e s') : s'.Launched := by
  cases h with
  | dropped hphase hcancelled => exact hs.of_execution he rfl rfl (by simp [Execution.fresh]) rfl
  | moved phase cancelled ledger hledger hlive hlive' hfresh =>
    exact hs.of_execution he rfl rfl hfresh rfl
  | finalized ledger hledger hlive => exact hs.of_execution he rfl rfl (by simp [Execution.fresh]) rfl
  | launched hphase =>
    have hfresh : e.fresh = true := by rw [Execution.fresh, hphase]
    have hnew := hs.not_executed howned he hfresh
    have ht : (s.setPhase t e .executing).Launched :=
      hs.of_execution he rfl rfl (by simp [Execution.fresh]) rfl
    refine ⟨fun r => ?_, fun r hr => ?_⟩
    · have hbefore := hs.once r
      show (s.executed ++ [e.request.runId]).count r ≤ 1
      rw [List.count_append]
      by_cases hr : e.request.runId = r
      · subst hr
        rw [List.count_eq_zero.mpr hnew, List.count_singleton_self]
      · have hzero : [e.request.runId].count r = 0 := List.count_eq_zero.mpr (by simpa using Ne.symm hr)
        omega
    · rcases List.mem_append.mp hr with hold | hlast
      · exact ht.ran r hold
      · cases List.mem_singleton.mp hlast
        exact ⟨t, _, (getElem?_set_eq_some he).mpr (.inl ⟨rfl, rfl⟩), rfl, rfl⟩

structure Barred (s : Runtime D P) (r : String) : Prop where
  reserved : s.ledger.reservation r ≠ none
  idle : ∀ (t : Nat) e, s.executions[t]? = some e → e.request.runId ≠ r
  unprofiled : ∀ (i : Nat) call g, s.submits[i]? = some call → ¬ call.Profiles r g

theorem Owned.barred (hs : s.Owned) {r : String} (hreserved : s.ledger.reservation r ≠ none)
    (habsent : s.ledger.runs.get? r = none) : s.Barred r where
  reserved := hreserved
  idle t e he hid := hs.known t e he (by rw [hid, habsent])
  unprofiled i call g hcall hprofiles := (hs.profiled i call r g hcall hprofiles).2.1 habsent

theorem Barred.of_submitMove [DecidableEq D] {i : Nat} {call : Submit D} {r : String} (hs : s.Barred r)
    (howned : s.Owned) (hreserved : s'.ledger.reservation r ≠ none) (hcall : s.submits[i]? = some call)
    (h : SubmitMove env s i call s') : s'.Barred r := by
  have hset : ∀ {call' : Submit D}, (∀ g, ¬ call'.Profiles r g) → ∀ (j : Nat) other g,
      (s.submits.set i call')[j]? = some other → ¬ other.Profiles r g := by
    intro call' hquiet j other g hother
    rcases (getElem?_set_eq_some hcall).mp hother with ⟨-, rfl⟩ | ⟨-, hsame⟩
    · exact hquiet g
    · exact hs.unprofiled j other g hsame
  have hquiet : ∀ {call' : Submit D}, (∀ record g revision, call'.phase ≠ .profiling record g revision) →
      ∀ g, ¬ call'.Profiles r g := fun h g => Submit.not_profiles h r g
  cases h with
  | refused | entered | authorized | denied | unaccepted | found | unleased | rolledBack | withdrawn =>
    exact ⟨hreserved, hs.idle, hset (hquiet (by simp))⟩
  | leased g attempt record ledger graph revision hphase haccept hacquire =>
    refine ⟨hreserved, hs.idle, hset fun g' => ?_⟩
    rintro ⟨found, _, hfound, rfl⟩
    cases hfound
    obtain ⟨hid, -, hunreserved, -⟩ := Store.accept_created haccept
    exact hs.reserved (by rw [hid, hunreserved])
  | started g revision attempt record sequence payload ledger hphase happend =>
    refine ⟨hreserved, fun t e he => ?_, hset (hquiet (by simp))⟩
    rcases getElem?_append_singleton.mp he with hold | ⟨-, rfl⟩
    · exact hs.idle t e hold
    · intro hid
      have hprofiles : call.Profiles record.runId g := ⟨record, revision, hphase, rfl⟩
      obtain ⟨hrequest, -⟩ := howned.profiled i call record.runId g hcall hprofiles
      replace hid : call.request.runId = r := hid
      rw [hrequest] at hid
      exact hs.unprofiled i call g hcall (hid ▸ hprofiles)
  | interrupted hpending =>
    exact ⟨hreserved, hs.idle, hset fun g => hs.unprofiled i call g hcall⟩

variable [DecidableEq D]

end Runtime

end OpenAgent
