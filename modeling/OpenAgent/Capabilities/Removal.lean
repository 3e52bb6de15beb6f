import OpenAgent.Capabilities.Isolation

/-!
# What removing a source takes out

A user removes a source in two steps with the host's answer between them: `remove` first looks at
one registration, the first of that name the user can see, and later revokes by name alone. The
registrations of one name under several graph generations live side by side, so what is looked at
is not all that is taken out. A registration is spared exactly when no managed one is offered under
the name at the second step.
-/

namespace OpenAgent

open Lib

namespace Catalog

variable {token : Nat → String}

/-! ### The two steps -/

/-- The registration `remove` looks at. -/
def selected (c : Catalog) (scope : Scope) (context : ExecutionContext) (sourceId : String) : Option Nat :=
  (c.registrationsForContext scope context).find? fun id =>
    c.objects[id]?.any fun r => r.sourceId = sourceId

/-- `remove` up to the question it asks the authorizer. -/
def checkRemoval (c : Catalog) (scope : Scope) (context : ExecutionContext) (sourceId : String) :
    Except CatalogError Unit :=
  match c.selected scope context sourceId with
  | none => .error (.unavailable sourceId)
  | some id =>
    if (c.objects[id]?.any fun r => r.managed) ∨ c.allowDynamic = false then
      .error (.permission "This capability source is managed by the host")
    else .ok ()

/-- `remove` with what the other coroutines did while the authorizer was asked. -/
def removeAwaited (token : Nat → String) (c : Catalog) (scope : Scope) (context : ExecutionContext)
    (sourceId : String) (between : List Op) (authorized : Bool) : Catalog :=
  let later := c.after token between
  match c.checkRemoval scope context sourceId with
  | .error _ => later
  | .ok _ => if authorized then later.revoke sourceId else later

def UserOwned (c : Catalog) (scope : Scope) (context : ExecutionContext) (sourceId : String) : Prop :=
  c.allowDynamic = true ∧ ∃ id ∈ c.selected scope context sourceId,
    (c.objects[id]?.any fun r => r.managed) = false

/-- No managed registration that could be reached in `c` is out of reach in `c'`. -/
def Spares (c c' : Catalog) : Prop :=
  ∀ id r, c.objects[id]? = some r → r.managed = true → ∀ scope context,
    c.available scope context id = true → c'.available scope context id = true

variable {c : Catalog} {scope : Scope} {context : ExecutionContext}

theorem checkRemoval_eq_ok {sourceId : String} :
    c.checkRemoval scope context sourceId = .ok () ↔ c.UserOwned scope context sourceId := by
  unfold checkRemoval UserOwned
  cases c.selected scope context sourceId with
  | none => simp
  | some id => cases c.allowDynamic <;> simp

theorem removeAwaited_nil (c : Catalog) (scope : Scope) (context : ExecutionContext) (sourceId : String) :
    c.removeAwaited token scope context sourceId [] true =
      c.perform token (.remove scope context sourceId) := by
  have hremove : c.remove scope context sourceId = match c.selected scope context sourceId with
      | none => .error (.unavailable sourceId)
      | some id =>
        if (c.objects[id]?.any fun r => r.managed) ∨ c.allowDynamic = false then
          .error (.permission "This capability source is managed by the host")
        else .ok (c.revoke sourceId) := rfl
  rw [perform, hremove, removeAwaited, checkRemoval]
  cases c.selected scope context sourceId with
  | none => rfl
  | some id =>
    by_cases h : (c.objects[id]?.any fun r => r.managed) = true ∨ c.allowDynamic = false
    · simp only [h, if_true]
      rfl
    · simp only [h, if_false]
      rfl

/-! ### What is offered is live -/

def Keyed (c : Catalog) : Prop :=
  ∀ key id, c.sources.get? key = some id → ∃ r, c.objects[id]? = some r ∧ r.key = key ∧ r.revoked = false

theorem Keyed.empty (allowDynamic : Bool) : (empty allowDynamic).Keyed := by
  intro key id hkey
  simp [Catalog.empty] at hkey

theorem Keyed.register {c' : Catalog} {r : Registration} (h : c.Keyed) (hr : c.register r = .ok c') :
    c'.Keyed := by
  unfold Catalog.register at hr
  split at hr
  · cases hr
  split at hr
  · cases hr
  cases hr
  intro key id hkey
  simp only [nextRevision, Dict.get?_set] at hkey ⊢
  split at hkey
  · rename_i hnew
    cases hkey
    exact ⟨_, getElem?_append_singleton.mpr (.inr ⟨rfl, rfl⟩), hnew.symm, rfl⟩
  · obtain ⟨s, hs, hskey, hlive⟩ := h key id hkey
    exact ⟨s, getElem?_append_singleton.mpr (.inl hs), hskey, hlive⟩

theorem Keyed.withdraw (h : c.Keyed) (id : Nat) : (c.withdraw id).Keyed := by
  intro key i hkey
  unfold Catalog.withdraw at hkey ⊢
  cases hid : c.objects[id]? with
  | none =>
    rw [hid] at hkey
    exact h key i hkey
  | some r =>
    rw [hid] at hkey
    simp only [Dict.get?_pop] at hkey ⊢
    split at hkey
    · cases hkey
    rename_i hne
    obtain ⟨s, hs, hskey, hlive⟩ := h key i hkey
    have hother : id ≠ i := by
      rintro rfl
      cases hid.symm.trans hs
      exact hne hskey.symm
    exact ⟨s, getElem?_modify_eq_some.mpr ⟨s, hs, by rw [if_neg hother]⟩, hskey, hlive⟩

theorem Keyed.issue (h : c.Keyed) (id : Nat) (key : String) (d : ToolDefinition) :
    (c.issue token id key d).2.Keyed := by
  unfold Catalog.issue
  dsimp only
  split
  · exact h
  · intro k i hk
    obtain ⟨s, hs, hskey, hlive⟩ := h k i hk
    refine ⟨_, getElem?_modify_eq_some.mpr ⟨s, hs, rfl⟩, ?_, ?_⟩
    · split
      · exact hskey
      · exact hskey
    · split
      · exact hlive
      · exact hlive

theorem keyed_kept : Kept token Keyed where
  register h hr := h.register hr
  nextRevision h := h
  withdraw id h := h.withdraw id
  activateGeneration _ h := h
  issue {_ id} key d _ h := h.issue id key d

theorem keyed_after (allowDynamic : Bool) (ops : List Op) : ((Catalog.empty allowDynamic).after token ops).Keyed :=
  keyed_kept.after (.empty allowDynamic) ops

/-! ### What a revocation leaves and what it takes -/

variable {id : Nat}

theorem available_iff :
    c.available scope context id = true ↔ ∃ r, c.objects[id]? = some r ∧ r.revoked = false ∧
      c.sources.get? r.key = some id ∧ r.visibleFromRevision ≤ scope.revision.getD c.revision ∧
      (r.graphGeneration = none ∨ r.graphGeneration = scope.generation.or c.activeGeneration) ∧
      ∀ lease ∈ r.lease, context.deferred = false ∧ lease ∈ context.capabilities := by
  unfold available executionSnapshot
  cases c.objects[id]? with
  | none => simp
  | some r => cases hlease : r.lease <;> simp [hlease, and_assoc]

theorem available_of_frame {c' : Catalog} (hobjects : c'.objects[id]? = c.objects[id]?)
    (hrevision : c.revision ≤ c'.revision) (hgeneration : c'.activeGeneration = c.activeGeneration)
    (hsources : ∀ r, c.objects[id]? = some r → c'.sources.get? r.key = c.sources.get? r.key)
    (h : c.available scope context id = true) : c'.available scope context id = true := by
  obtain ⟨r, hr, hlive, hkey, hvisible, hgraph, hlease⟩ := (available_iff).mp h
  refine (available_iff).mpr ⟨r, hobjects.trans hr, hlive, (hsources r hr).trans hkey, ?_, ?_, hlease⟩
  · cases hscope : scope.revision with
    | none =>
      rw [hscope] at hvisible
      exact Nat.le_trans hvisible hrevision
    | some revision => simpa [hscope] using hvisible
  · rw [hgeneration]
    exact hgraph

theorem withdraw_available {id i : Nat} {r : Registration} (hr : c.objects[id]? = some r)
    (hother : ∀ s, c.objects[i]? = some s → s.key ≠ r.key) (h : c.available scope context id = true)
    : (c.withdraw i).available scope context id = true := by
  unfold withdraw
  cases hi : c.objects[i]? with
  | none => exact h
  | some s =>
    have hne : i ≠ id := by
      rintro rfl
      exact hother r hr rfl
    refine available_of_frame (c := c) ?_ (Nat.le_refl _) rfl ?_ h
    · simp [hne]
    · intro r' hr'
      cases hr.symm.trans hr'
      exact Dict.get?_pop_ne _ (hother s hi).symm

theorem withdraw_objects {id i : Nat} {s' : Registration} (h : (c.withdraw i).objects[id]? = some s')
    : ∃ s, c.objects[id]? = some s ∧ s.key = s'.key := by
  unfold withdraw at h
  cases hi : c.objects[i]? with
  | none =>
    rw [hi] at h
    exact ⟨s', h, rfl⟩
  | some r =>
    rw [hi] at h
    obtain ⟨s, hs, rfl⟩ := getElem?_modify_eq_some.mp h
    refine ⟨s, hs, ?_⟩
    split
    · rfl
    · rfl

theorem withdrawAll_available {r : Registration} {ids : List Nat} (hr : c.objects[id]? = some r)
    (hothers : ∀ i ∈ ids, ∀ s, c.objects[i]? = some s → s.key ≠ r.key)
    (h : c.available scope context id = true) : (c.withdrawAll ids).available scope context id = true := by
  have hfold : ∀ c : Catalog, (∃ s, c.objects[id]? = some s ∧ s.key = r.key) →
      (∀ i ∈ ids, ∀ s, c.objects[i]? = some s → s.key ≠ r.key) →
      c.available scope context id = true → (ids.foldl withdraw c).available scope context id = true := by
    clear hothers
    induction ids with
    | nil => exact fun _ _ _ h => h
    | cons i rest ih =>
      rintro c ⟨s, hs, hkey⟩ hothers h
      refine ih (c.withdraw i) ?_ ?_ ?_
      · have hlater : Later (fun _ => "") c (c.withdraw i) := withdraw_later c i
        obtain ⟨s', hs', hages⟩ := hlater.objects id s hs
        exact ⟨s', hs', hages.key_eq.trans hkey⟩
      · intro j hj t ht
        obtain ⟨t', ht', htkey⟩ := withdraw_objects ht
        rw [← htkey]
        exact hothers j (List.mem_cons_of_mem _ hj) t' ht'
      · refine withdraw_available hs ?_ h
        intro t ht
        rw [hkey]
        exact hothers i List.mem_cons_self t ht
  unfold withdrawAll
  split
  · exact h
  · refine hfold _ ⟨r, hr, rfl⟩ hothers ?_
    exact available_of_frame (c := c) rfl (Nat.le_succ _) rfl (fun _ _ => rfl) h

theorem withdrawAll_unavailable {ids : List Nat} (hid : id ∈ ids)
    : (c.withdrawAll ids).available scope context id = false := by
  have hnone : ∀ c : Catalog, (∀ r, c.objects[id]? = some r → r.revoked = true) →
      c.available scope context id = false := by
    intro c h
    by_contra havailable
    obtain ⟨r, hr, hlive, -⟩ := (available_iff).mp (by simpa using havailable)
    simp [h r hr] at hlive
  have hstill : ∀ (ids : List Nat) (c : Catalog), (∀ r, c.objects[id]? = some r → r.revoked = true) →
      ∀ r, (ids.foldl withdraw c).objects[id]? = some r → r.revoked = true := by
    intro ids
    induction ids with
    | nil => exact fun _ h => h
    | cons i rest ih =>
      intro c h
      refine ih (c.withdraw i) ?_
      intro r hr
      unfold withdraw at hr
      split at hr
      · exact h r hr
      · obtain ⟨s, hs, rfl⟩ := getElem?_modify_eq_some.mp hr
        split
        · rfl
        · exact h s hs
  have hrevoked : ∀ c : Catalog, ∀ r, (ids.foldl withdraw c).objects[id]? = some r → r.revoked = true := by
    induction ids with
    | nil => cases hid
    | cons i rest ih =>
      intro c
      rcases List.mem_cons.mp hid with rfl | hrest
      · refine hstill rest (c.withdraw id) ?_
        intro r hr
        unfold withdraw at hr
        split at hr
        · rename_i hnone
          simp [hnone] at hr
        · obtain ⟨s, hs, rfl⟩ := getElem?_modify_eq_some.mp hr
          rw [if_pos rfl]
      · exact ih hrest (c.withdraw i)
  unfold withdrawAll
  split
  · rename_i hempty
    simp [List.isEmpty_iff.mp hempty] at hid
  · exact hnone _ (hrevoked _)

theorem mem_offered {p : String × Option Nat → Bool} :
    id ∈ c.offered p ↔ ∃ key, p key = true ∧ c.sources.get? key = some id := by
  simp only [offered, List.mem_map, List.mem_filter]
  constructor
  · rintro ⟨e, ⟨hmem, hp⟩, rfl⟩
    exact ⟨e.1, hp, (Dict.find_eq_some_iff c.sources.nodup).mpr hmem⟩
  · rintro ⟨key, hp, hkey⟩
    exact ⟨(key, id), ⟨(Dict.find_eq_some_iff c.sources.nodup).mp hkey, hp⟩, rfl⟩

theorem Keyed.reached (h : c.Keyed) {key : String × Option Nat}
    (hkey : c.sources.get? key = some id) (someone : ExecutionContext) :
    ∃ scope context, c.available scope context id = true := by
  obtain ⟨r, hr, hrkey, hlive⟩ := h key id hkey
  refine ⟨⟨r.graphGeneration, some r.visibleFromRevision⟩,
    { someone with
      deferred := false
      capabilities := r.lease.toList
      noLeases := by simp
      delegated := by simp }, (available_iff).mpr ⟨r, hr, hlive, ?_, Nat.le_refl _, ?_, ?_⟩⟩
  · rw [hrkey]
    exact hkey
  · cases r.graphGeneration with
    | none => exact .inl rfl
    | some generation => exact .inr rfl
  · intro lease hlease
    exact ⟨rfl, Option.mem_toList.mpr hlease⟩

theorem Keyed.revoke_spares_iff (h : c.Keyed) (sourceId : String) (someone : ExecutionContext) :
    c.Spares (c.revoke sourceId) ↔ ∀ generation id r, c.sources.get? (sourceId, generation) = some id →
      c.objects[id]? = some r → r.managed = false := by
  constructor
  · intro hspares generation id r hkey hr
    by_contra hmanaged
    obtain ⟨scope, context, havailable⟩ := h.reached hkey someone
    have hafter := hspares id r hr (by simpa using hmanaged) scope context havailable
    have htaken : id ∈ c.offered fun key => key.1 = sourceId :=
      mem_offered.mpr ⟨(sourceId, generation), by simp, hkey⟩
    simp [revoke, withdrawAll_unavailable htaken] at hafter
  · intro hnone id r hr hmanaged scope context havailable
    refine withdrawAll_available hr ?_ havailable
    intro i hi s hs hsame
    obtain ⟨key, hname, hkey⟩ := mem_offered.mp hi
    obtain ⟨s', hs', hskey, -⟩ := h key i hkey
    cases hs.symm.trans hs'
    obtain ⟨r', hr', -, hrkey, -⟩ := (available_iff).mp havailable
    cases hr.symm.trans hr'
    have hgeneration : key = (sourceId, key.2) := by
      rw [← of_decide_eq_true hname]
    rw [← hsame, hskey, hgeneration] at hrkey
    simp [hnone key.2 id r hrkey hr] at hmanaged

end Catalog

/-- A removal by a user spares every managed registration exactly when it goes no further than its
check, or when no managed registration is offered under the name by the time it revokes. -/
theorem removal_spares_managed (token : Nat → String) (allowDynamic : Bool)
    (before between : List Catalog.Op) (scope : Scope) (context : ExecutionContext) (sourceId : String)
    (authorized : Bool) :
    let found := (Catalog.empty allowDynamic).after token before
    let later := found.after token between
    later.Spares (found.removeAwaited token scope context sourceId between authorized) ↔
      ¬ (found.UserOwned scope context sourceId ∧ authorized = true) ∨
      ∀ generation id r, later.sources.get? (sourceId, generation) = some id →
        later.objects[id]? = some r → r.managed = false := by
  intro found later
  have hkeyed : later.Keyed := Catalog.keyed_kept.after (Catalog.keyed_after allowDynamic before) between
  have hsame : later.Spares later := fun _ _ _ _ _ _ h => h
  unfold Catalog.removeAwaited
  cases hcheck : found.checkRemoval scope context sourceId with
  | error e =>
    have howned : ¬ found.UserOwned scope context sourceId := by
      rw [← Catalog.checkRemoval_eq_ok, hcheck]
      simp
    simp only [howned, false_and, not_false_eq_true, true_or, iff_true]
    exact hsame
  | ok u =>
    have howned : found.UserOwned scope context sourceId := Catalog.checkRemoval_eq_ok.mp hcheck
    cases authorized with
    | false => simpa using hsame
    | true =>
      simp only [howned, and_self, not_true_eq_false, false_or, if_true]
      exact hkeyed.revoke_spares_iff sourceId context

namespace Removal

def installed : List Catalog.Op :=
  [.registerUserSource "notes" "laptop" none,
    .register { sourceId := "notes", targetLabel := "host", managed := true, graphGeneration := some 1 },
    .activateGeneration (some 1)]

end Removal

theorem removal_takes_out_a_managed_source :
    ¬ ∀ (token : Nat → String) (allowDynamic : Bool) (before between : List Catalog.Op) (scope : Scope)
      (context : ExecutionContext) (sourceId : String) (authorized : Bool),
      let found := (Catalog.empty allowDynamic).after token before
      let later := found.after token between
      later.Spares (found.removeAwaited token scope context sourceId between authorized) := by
  intro hspares
  have hmade : (((Catalog.empty true).after (fun _ => "") Removal.installed).objects[1]?.map fun r =>
      r.managed) = some true := rfl
  obtain ⟨r, hr, hmanaged⟩ := Option.map_eq_some_iff.mp hmade
  have hreached := hspares (fun _ => "") true Removal.installed [] {} Sample.context "notes" true 1 r
    hr hmanaged {} Sample.context (rfl)
  have hgone : (((Catalog.empty true).after (fun _ => "") Removal.installed).removeAwaited (fun _ => "")
      {} Sample.context "notes" [] true).available {} Sample.context 1 = false := rfl
  simp [hgone] at hreached

end OpenAgent
