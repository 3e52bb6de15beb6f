import OpenAgent.Capabilities.Removal

/-!
# What revoking a lease takes out

A connection that ends takes back its own registrations and no newer one's. `revokeLease` looks for what is
offered of the lease's source and bound to exactly this lease, and withdraws it when it finds one registration.
The catalog keeps one registration for each graph generation of a source, so it can find two, and then it
withdraws neither.
-/

namespace OpenAgent

open Lib List

namespace Catalog

variable {token : Nat → String} {c c' : Catalog} {lease : CapabilityLease} {id : Nat}
  {scope : Scope} {context : ExecutionContext}

/-- The registration is one of the lease's source, and bound to exactly this lease. -/
def BoundTo (c : Catalog) (lease : CapabilityLease) (id : Nat) : Prop :=
  ∃ r, c.objects[id]? = some r ∧ r.sourceId = lease.sourceId ∧ r.lease = some lease

/-- From `c` to `c'` what is bound to the lease becomes unavailable to all runs, and everything else stays as
available as it was. -/
structure TakesOut (lease : CapabilityLease) (c c' : Catalog) : Prop where
  complete : ∀ id, c.BoundTo lease id → ∀ scope context, c'.available scope context id = false
  frame : ∀ id, ¬ c.BoundTo lease id → ∀ scope context,
    c'.available scope context id = c.available scope context id

/-- The lease's source is offered under at most one graph generation with exactly this lease. -/
def OneGeneration (lease : CapabilityLease) (c : Catalog) : Prop :=
  ∀ g g' id id', c.sources.get? (lease.sourceId, g) = some id → c.sources.get? (lease.sourceId, g') = some id' →
    c.BoundTo lease id → c.BoundTo lease id' → g = g'

/-! ### No registration is ahead of the revision -/

def Seen (c : Catalog) : Prop :=
  ∀ (id : Nat) r, c.objects[id]? = some r → r.visibleFromRevision ≤ c.revision

theorem Seen.later (h : c.Seen) (hlater : Later token c c') (hlength : c'.objects.length = c.objects.length) :
    c'.Seen := by
  intro id r' hr'
  have hlt : id < c.objects.length := hlength ▸ (List.getElem?_eq_some_iff.mp hr').1
  have hr := getElem?_eq_getElem hlt
  obtain ⟨s, hs, hages⟩ := hlater.objects id _ hr
  cases hr'.symm.trans hs
  rw [hages.visibleFromRevision_eq]
  exact Nat.le_trans (h id _ hr) hlater.revision

theorem Seen.register {r : Registration} (h : c.Seen) (hr : c.register r = .ok c') : c'.Seen := by
  unfold Catalog.register at hr
  split at hr
  · cases hr
  split at hr
  · cases hr
  cases hr
  intro id s hs
  rcases getElem?_append_singleton.mp hs with hold | ⟨-, rfl⟩
  · exact Nat.le_succ_of_le (h id s hold)
  · exact Nat.le_refl _

theorem withdraw_length (c : Catalog) (id : Nat) : (c.withdraw id).objects.length = c.objects.length := by
  unfold withdraw
  split
  · rfl
  · exact length_modify ..

theorem withdraw_activeGeneration (c : Catalog) (id : Nat) : (c.withdraw id).activeGeneration = c.activeGeneration := by
  unfold withdraw
  split
  · rfl
  · rfl

theorem seen_kept : Kept token Seen where
  register h hr := h.register hr
  nextRevision h id r hr := Nat.le_succ_of_le (h id r hr)
  withdraw {c} id h := by
    have hlater : Later token c (c.withdraw id) := withdraw_later c id
    exact h.later hlater (withdraw_length c id)
  activateGeneration _ h := h
  issue {c id} key d _ h := h.later (issue_later token c id key d) (issue_length ..)

theorem seen_after (allowDynamic : Bool) (ops : List Op) : ((Catalog.empty allowDynamic).after token ops).Seen :=
  seen_kept.after (fun id r hr => by simp [Catalog.empty] at hr) ops

/-- In every run, what a catalog has under a key is a registration of that key that is not withdrawn, and none is ahead
of the revision. -/
theorem catalogs_stay_keyed (allowDynamic : Bool) (ops : List Op) :
    ((Catalog.empty allowDynamic).after token ops).Keyed ∧ ((Catalog.empty allowDynamic).after token ops).Seen :=
  ⟨keyed_after allowDynamic ops, seen_after allowDynamic ops⟩

/-! ### One registration is withdrawn -/

theorem available_of_withdrawAll {i : Nat} (hseen : c.Seen)
    (h : (c.withdrawAll [i]).available scope context id = true) : c.available scope context id = true := by
  have hlater : Later (fun _ => "") c (c.withdrawAll [i]) := (later_kept _ c).withdrawAll (.refl c) [i]
  obtain ⟨r', hr', hlive, hkey, hvisible, hgraph, hlease⟩ := available_iff.mp h
  have hlt : id < c.objects.length := by
    have hlength : (c.withdrawAll [i]).objects.length = c.objects.length := withdraw_length c.nextRevision i
    exact hlength ▸ (List.getElem?_eq_some_iff.mp hr').1
  have hr := getElem?_eq_getElem hlt
  obtain ⟨s, hs, hages⟩ := hlater.objects id _ hr
  cases hr'.symm.trans hs
  refine available_iff.mpr ⟨_, hr, hages.not_revoked hlive, ?_, ?_, ?_, ?_⟩
  · rw [← hages.key_eq]
    exact hlater.sources _ id hlt hkey
  · rw [hages.visibleFromRevision_eq] at hvisible
    cases hscope : scope.revision with
    | none => exact hseen id _ hr
    | some revision => simpa [hscope] using hvisible
  · rw [hages.graphGeneration_eq] at hgraph
    rwa [show (c.withdrawAll [i]).activeGeneration = c.activeGeneration from
      withdraw_activeGeneration c.nextRevision i] at hgraph
  · rwa [hages.lease_eq] at hlease

theorem takesOut_withdrawAll {i : Nat} (hseen : c.Seen) (hbound : c.BoundTo lease i)
    (hkey : ∀ r, c.objects[i]? = some r → c.sources.get? r.key = some i)
    (hsole : ∀ key j, c.sources.get? key = some j → c.BoundTo lease j → j = i) :
    TakesOut lease c (c.withdrawAll [i]) where
  complete id hid scope context := by
    by_cases heq : id = i
    · exact withdrawAll_unavailable (heq ▸ mem_singleton_self i)
    · by_contra havailable
      have hbefore := available_of_withdrawAll hseen (by simpa using havailable)
      obtain ⟨r, -, -, hoffered, -⟩ := available_iff.mp hbefore
      exact heq (hsole r.key id hoffered hid)
  frame id hid scope context := by
    apply Bool.eq_iff_iff.mpr
    constructor
    · exact available_of_withdrawAll hseen
    · intro havailable
      obtain ⟨r, hr, -, hoffered, -⟩ := available_iff.mp havailable
      refine withdrawAll_available hr (fun j hj s hs hsame => ?_) havailable
      cases List.mem_singleton.mp hj
      have hi := hkey s hs
      rw [hsame, hoffered] at hi
      cases hi
      exact hid hbound

/-! ### What `revokeLease` finds -/

/-- The list that `revokeLease` looks at. -/
def matching (c : Catalog) (lease : CapabilityLease) : List Nat :=
  (c.offered fun key => key.1 = lease.sourceId).filter fun id => (c.objects[id]?.bind Registration.lease) = some lease

theorem Keyed.mem_matching (h : c.Keyed) : id ∈ c.matching lease ↔
    ∃ g, c.sources.get? (lease.sourceId, g) = some id ∧ c.BoundTo lease id := by
  rw [matching, List.mem_filter, mem_offered, decide_eq_true_eq]
  constructor
  · rintro ⟨⟨key, hname, hkey⟩, hlease⟩
    obtain ⟨r, hr, hrkey, -⟩ := h key id hkey
    have hsource : r.sourceId = lease.sourceId := (congrArg Prod.fst hrkey).trans (of_decide_eq_true hname)
    refine ⟨key.2, ?_, r, hr, hsource, by simpa [hr] using hlease⟩
    rw [← of_decide_eq_true hname]
    exact hkey
  · rintro ⟨g, hkey, r, hr, -, hlease⟩
    exact ⟨⟨_, by simp, hkey⟩, by simp [hr, hlease]⟩

theorem Keyed.nodup_matching (h : c.Keyed) : (c.matching lease).Nodup := by
  apply List.Nodup.filter
  refine List.Nodup.map_on ?_ (List.Nodup.filter _ (List.Nodup.of_map _ c.sources.nodup))
  intro x hx y hy heq
  have hget : ∀ e ∈ c.sources.entries, c.sources.get? e.1 = some e.2 := fun e he => Dict.get?_eq_some_iff.mpr he
  obtain ⟨r, hr, hrx, -⟩ := h x.1 x.2 (hget x (mem_of_mem_filter hx))
  obtain ⟨s, hs, hsy, -⟩ := h y.1 y.2 (hget y (mem_of_mem_filter hy))
  rw [heq, hs] at hr
  cases hr
  exact Prod.ext (hrx.symm.trans hsy) heq

/-- What is offered and bound to the lease can be used, until it is withdrawn. -/
theorem Keyed.not_takesOut (h : c.Keyed) (hid : id ∈ c.matching lease) (someone : ExecutionContext) :
    ¬ TakesOut lease c c := by
  obtain ⟨g, hkey, hbound⟩ := h.mem_matching.mp hid
  obtain ⟨scope, context, havailable⟩ := h.reached hkey someone
  intro htakes
  rw [htakes.complete id hbound scope context] at havailable
  cases havailable

theorem Keyed.takesOut_revokeLease_iff (h : c.Keyed) (hseen : c.Seen) (someone : ExecutionContext) :
    TakesOut lease c (c.revokeLease lease) ↔ OneGeneration lease c := by
  rw [revokeLease, ← matching]
  have hnodup : (c.matching lease).Nodup := h.nodup_matching
  cases hmatching : c.matching lease with
  | nil =>
    have hnone : ∀ g id, c.sources.get? (lease.sourceId, g) = some id → ¬ c.BoundTo lease id := by
      intro g id hkey hbound
      have hmem := h.mem_matching.mpr ⟨g, hkey, hbound⟩
      simp [hmatching] at hmem
    refine iff_of_true ⟨?_, fun _ _ _ _ => rfl⟩ fun g _ id _ hkey _ hbound => absurd hbound (hnone g id hkey)
    intro id hbound scope context
    by_contra havailable
    obtain ⟨r, hr, -, hkey, -⟩ := available_iff.mp (by simpa using havailable)
    obtain ⟨s, hs, hsource, hlease⟩ := hbound
    cases hr.symm.trans hs
    refine hnone r.graphGeneration id ?_ ⟨r, hr, hsource, hlease⟩
    rw [← hsource]
    exact hkey
  | cons i rest =>
    obtain ⟨g, hkey, hbound⟩ := h.mem_matching.mp (hmatching ▸ mem_cons_self)
    cases rest with
    | nil =>
      have hsole : ∀ key j, c.sources.get? key = some j → c.BoundTo lease j → j = i := by
        intro key j hj hboundj
        obtain ⟨s, hs, hskey, -⟩ := h key j hj
        have hboundj' := hboundj
        obtain ⟨s', hs', hsource, -⟩ := hboundj'
        cases hs.symm.trans hs'
        have hmem : j ∈ c.matching lease := by
          refine h.mem_matching.mpr ⟨s.graphGeneration, ?_, hboundj⟩
          rw [← hsource]
          rwa [← hskey] at hj
        rw [hmatching] at hmem
        exact List.mem_singleton.mp hmem
      refine iff_of_true (takesOut_withdrawAll hseen hbound ?_ hsole) ?_
      · intro r hr
        obtain ⟨s, hs, hskey, -⟩ := h _ i hkey
        cases hr.symm.trans hs
        rw [hskey]
        exact hkey
      · intro g₁ g₂ id₁ id₂ hkey₁ hkey₂ hbound₁ hbound₂
        obtain ⟨s, hs, hskey, -⟩ := h _ id₁ hkey₁
        obtain ⟨t, ht, htkey, -⟩ := h _ id₂ hkey₂
        rw [hsole _ id₁ hkey₁ hbound₁] at hs
        rw [hsole _ id₂ hkey₂ hbound₂, hs] at ht
        cases ht
        exact congrArg Prod.snd (hskey.symm.trans htkey)
    | cons j rest =>
      refine iff_of_false (h.not_takesOut (hmatching ▸ mem_cons_self) someone) fun hone => ?_
      obtain ⟨g', hkey', hbound'⟩ := h.mem_matching.mp (hmatching ▸ mem_cons_of_mem i mem_cons_self)
      rw [hone g g' i j hkey hkey' hbound hbound', hkey'] at hkey
      cases hkey
      simp [hmatching] at hnodup

end Catalog

/-- A revocation of a lease takes out what is bound to it and nothing else, exactly when the lease's source is
offered with this lease under one graph generation at most. -/
theorem lease_revocation_exact_iff (token : Nat → String) (allowDynamic : Bool) (ops : List Catalog.Op)
    (lease : CapabilityLease) :
    let c := (Catalog.empty allowDynamic).after token ops
    Catalog.TakesOut lease c (c.revokeLease lease) ↔ Catalog.OneGeneration lease c :=
  (Catalog.keyed_after allowDynamic ops).takesOut_revokeLease_iff (Catalog.seen_after allowDynamic ops)
    Sample.context

namespace Leases

def lease : CapabilityLease := ⟨"mac", "instance", "1"⟩

def mac (generation : Option Nat) : Registration :=
  { sourceId := "mac", targetLabel := "Mac", managed := true, lease := some lease, graphGeneration := generation }

end Leases

/-- A connection that is registered under two generations stays usable after it was taken back. -/
theorem lease_of_two_generations_stays :
    ¬ ∀ (token : Nat → String) (allowDynamic : Bool) (ops : List Catalog.Op) (lease : CapabilityLease),
      let c := (Catalog.empty allowDynamic).after token ops
      Catalog.TakesOut lease c (c.revokeLease lease) := by
  intro hall
  have htakes := hall (fun _ => "") false [.register (Leases.mac none), .register (Leases.mac (some 1))] Leases.lease
  have hone := (lease_revocation_exact_iff _ _ _ _).mp htakes none (some 1) 0 1 rfl rfl ⟨_, rfl, rfl, rfl⟩
    ⟨_, rfl, rfl, rfl⟩
  cases hone

end OpenAgent
