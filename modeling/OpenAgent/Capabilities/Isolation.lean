import OpenAgent.Capabilities.Catalog
import OpenAgent.Lib.Place

/-!
# Snapshot isolation

What the catalog never takes back. However its operations are ordered, a registration keeps
everything but its references and, once revoked, stays revoked; a registration made later becomes
visible only from a later revision; no key goes back to a registration it has left; and a reference
that was drawn is never bound to anything else. A run that reads the catalog through the revision
and the generation of its admission therefore sees fewer and fewer of the sources it was admitted
with, and never another.
-/

namespace OpenAgent

open Lib List Option Bool

/-- `r'` is `r` after some time: its references and whether it is revoked may differ. -/
structure Registration.Ages (r r' : Registration) : Prop where
  same : r' = { r with revoked := r'.revoked, references := r'.references }
  revoked : r.revoked = true → r'.revoked = true

namespace Registration.Ages

theorem refl (r : Registration) : r.Ages r := ⟨rfl, id⟩

variable {r r' : Registration}

theorem trans {s t : Registration} (h : r.Ages s) (h' : s.Ages t) : r.Ages t where
  same := by
    rw [h'.same, h.same]
  revoked hr := h'.revoked (h.revoked hr)

theorem key_eq (h : r.Ages r') : r'.key = r.key := by rw [h.same]; rfl

theorem visibleFromRevision_eq (h : r.Ages r') :
    r'.visibleFromRevision = r.visibleFromRevision := by rw [h.same]

theorem graphGeneration_eq (h : r.Ages r') :
    r'.graphGeneration = r.graphGeneration := by rw [h.same]

theorem lease_eq (h : r.Ages r') : r'.lease = r.lease := by rw [h.same]

theorem sourceId_eq (h : r.Ages r') : r'.sourceId = r.sourceId := by rw [h.same]

theorem not_revoked (h : r.Ages r') (hr : r'.revoked = false) :
    r.revoked = false := by
  by_contra hrevoked
  simp [h.revoked (by simpa using hrevoked)] at hr

end Registration.Ages

namespace Catalog

variable {token : Nat → String}

def Drawn (token : Nat → String) (c : Catalog) (reference : String) : Prop :=
  ∃ n < c.drawn, reference = token n

structure Later (token : Nat → String) (c c' : Catalog) : Prop where
  drawn : c.drawn ≤ c'.drawn
  revision : c.revision ≤ c'.revision
  objects : ∀ (id : Nat) (r : Registration), c.objects[id]? = some r →
    ∃ r', c'.objects[id]? = some r' ∧ r.Ages r'
  arrivals : ∀ (id : Nat) (r' : Registration), c.objects.length ≤ id → c'.objects[id]? = some r' →
    c.revision < r'.visibleFromRevision
  sources : ∀ key id, id < c.objects.length → c'.sources.get? key = some id →
    c.sources.get? key = some id
  refs : Function.Injective token → ∀ reference bound, Drawn token c reference →
    c'.refs.get? reference = some bound → c.refs.get? reference = some bound

namespace Later

theorem refl (c : Catalog) : Later token c c where
  drawn := Nat.le_refl _
  revision := Nat.le_refl _
  objects id r h := ⟨r, h, .refl r⟩
  arrivals id r hle h := by
    simp [getElem?_eq_none hle] at h
  sources _ _ _ h := h
  refs _ _ _ _ h := h

theorem length_le {c c' : Catalog} (h : Later token c c') : c.objects.length ≤ c'.objects.length := by
  by_contra hlt
  have hlast : c'.objects.length < c.objects.length := by omega
  obtain ⟨r', hr', -⟩ := h.objects c'.objects.length _ (getElem?_eq_getElem hlast)
  simp [getElem?_eq_none (Nat.le_refl _)] at hr'

theorem trans {c d e : Catalog} (h : Later token c d) (h' : Later token d e) : Later token c e where
  drawn := Nat.le_trans h.drawn h'.drawn
  revision := Nat.le_trans h.revision h'.revision
  objects id r hr := by
    obtain ⟨s, hs, hrs⟩ := h.objects id r hr
    obtain ⟨t, ht, hst⟩ := h'.objects id s hs
    exact ⟨t, ht, hrs.trans hst⟩
  arrivals id t hle ht := by
    rcases Nat.lt_or_ge id d.objects.length with hlt | hge
    · have hs := getElem?_eq_getElem hlt
      obtain ⟨t', ht', hst⟩ := h'.objects id _ hs
      cases ht.symm.trans ht'
      rw [hst.visibleFromRevision_eq]
      exact h.arrivals id _ hle hs
    · exact Nat.lt_of_le_of_lt h.revision (h'.arrivals id t hge ht)
  sources key id hlt hkey :=
    h.sources key id hlt (h'.sources key id (Nat.lt_of_lt_of_le hlt h.length_le) hkey)
  refs htoken reference bound hdrawn hbound := by
    obtain ⟨n, hn, hreference⟩ := hdrawn
    exact h.refs htoken reference bound ⟨n, hn, hreference⟩
      (h'.refs htoken reference bound ⟨n, Nat.lt_of_lt_of_le hn h.drawn, hreference⟩ hbound)

end Later

/-! ### Invariants -/

/-- `P` is kept by all that the operations are made of. -/
structure Kept (token : Nat → String) (P : Catalog → Prop) : Prop where
  register : ∀ {c c' : Catalog} {r : Registration}, P c → c.register r = .ok c' → P c'
  nextRevision : ∀ {c : Catalog}, P c → P c.nextRevision
  withdraw : ∀ {c : Catalog} (id : Nat), P c → P (c.withdraw id)
  activateGeneration : ∀ {c : Catalog} (generation : Option Nat), P c → P (c.activateGeneration generation)
  issue : ∀ {c : Catalog} {id : Nat} (key : String) (d : ToolDefinition), id < c.objects.length → P c →
    P (c.issue token id key d).2

theorem issue_length (c : Catalog) (id : Nat) (key : String) (d : ToolDefinition) :
    (c.issue token id key d).2.objects.length = c.objects.length := by
  unfold issue
  dsimp only
  split
  · rfl
  · exact length_modify ..

namespace Kept

variable {P : Catalog → Prop} {c : Catalog}

theorem registers (h : Kept token P) (hc : P c) (r : Registration) : P ((c.register r).toOption.getD c) := by
  cases hr : c.register r with
  | error e => exact hc
  | ok c' => exact h.register hc hr

theorem withdrawAll (h : Kept token P) (hc : P c) (ids : List Nat) : P (c.withdrawAll ids) := by
  have hfold : ∀ c : Catalog, P c → P (ids.foldl Catalog.withdraw c) := by
    induction ids with
    | nil => exact fun _ hc => hc
    | cons id rest ih => exact fun c hc => ih (c.withdraw id) (h.withdraw id hc)
  unfold Catalog.withdrawAll
  split
  · exact hc
  · exact hfold _ (h.nextRevision hc)

theorem offerAll (h : Kept token P) (hc : P c) {id : Nat} (hid : id < c.objects.length) (r : Registration)
    (definitions : List ToolDefinition) (seen : List String) :
    P (Catalog.offerAll token id r definitions seen c).2 := by
  induction definitions generalizing seen c with
  | nil => exact hc
  | cons d rest ih =>
    rw [Catalog.offerAll]
    split
    · exact ih hc hid seen
    dsimp only
    split
    · exact hc
    have hrest := ih (h.issue (d.trusted r.trustedEffects).name (d.trusted r.trustedEffects) hid hc)
      (hid.trans_eq (issue_length ..).symm) ((d.trusted r.trustedEffects).name :: seen)
    split
    · rename_i heq
      rwa [heq] at hrest
    · rename_i heq
      rwa [heq] at hrest

theorem discovered (h : Kept token P) (hc : P c) (scope : Scope) (context : ExecutionContext) (id : Nat)
    (definitions : List ToolDefinition) : P (c.discovered token scope context id definitions).2 := by
  unfold Catalog.discovered
  split
  · exact hc
  · rename_i hr
    split
    · exact h.offerAll hc (List.getElem?_eq_some_iff.mp hr).1 _ definitions []
    · exact hc

theorem perform (h : Kept token P) (hc : P c) (op : Op) : P (c.perform token op) := by
  cases op with
  | register r => exact h.registers hc r
  | registerUserSource sourceId targetLabel graphGeneration =>
    rw [Catalog.perform, registerUserSource]
    split
    · exact h.registers hc _
    · exact hc
  | revoke | revokeRegistration | revokeGeneration => exact h.withdrawAll hc _
  | revokeLease lease =>
    rw [Catalog.perform, revokeLease]
    split
    · exact h.withdrawAll hc _
    · exact hc
  | remove scope context sourceId =>
    rw [Catalog.perform, remove]
    split
    · exact hc
    split
    · exact hc
    · exact h.withdrawAll hc _
  | activateGeneration generation => exact h.activateGeneration generation hc
  | discovered scope context id definitions => exact h.discovered hc scope context id definitions
  | appDiscovered scope context id name definitions =>
    rw [Catalog.perform, appDiscovered]
    split
    · exact hc
    rename_i r hr
    have hid : id < c.objects.length := (List.getElem?_eq_some_iff.mp hr).1
    split
    · exact hc
    split
    · dsimp only
      split
      · exact hc
      · exact h.issue _ _ hid hc
    · exact hc

theorem after (h : Kept token P) (hc : P c) (ops : List Op) : P (c.after token ops) := by
  induction ops generalizing c with
  | nil => exact hc
  | cons op rest ih => exact ih (h.perform hc op)

end Kept

/-! ### Each operation -/

theorem register_later {c c' : Catalog} {r : Registration} (h : c.register r = .ok c') :
    Later token c c' := by
  unfold register at h
  split at h
  · cases h
  split at h
  · cases h
  cases h
  refine ⟨Nat.le_refl _, Nat.le_succ _, ?_, ?_, ?_, fun _ _ _ _ h => h⟩
  · intro id s hs
    exact ⟨s, getElem?_append_singleton.mpr (.inl hs), .refl s⟩
  · intro id s hle hs
    rcases getElem?_append_singleton.mp hs with hold | ⟨-, rfl⟩
    · simp only [nextRevision] at hold
      simp [getElem?_eq_none hle] at hold
    · exact Nat.lt_succ_self _
  · intro key id hlt hkey
    simp only [nextRevision, Dict.get?_set] at hkey
    split at hkey
    · simp only [Option.some.injEq] at hkey
      omega
    · exact hkey

private theorem later_of_modify {c c' : Catalog} {id : Nat} {f : Registration → Registration}
    (hf : ∀ r : Registration, r.Ages (f r)) (hobjects : c'.objects = c.objects.modify id f)
    (hrevision : c.revision ≤ c'.revision) (hdrawn : c.drawn ≤ c'.drawn)
    (hsources : ∀ key i, c'.sources.get? key = some i → c.sources.get? key = some i)
    (hrefs : Function.Injective token → ∀ reference bound, Drawn token c reference →
      c'.refs.get? reference = some bound → c.refs.get? reference = some bound) :
    Later token c c' where
  drawn := hdrawn
  revision := hrevision
  objects i r hr := by
    refine ⟨if id = i then f r else r, ?_, ?_⟩
    · rw [hobjects]
      exact getElem?_modify_eq_some.mpr ⟨r, hr, rfl⟩
    · split
      · exact hf r
      · exact .refl r
  arrivals i r hle hr := by
    rw [hobjects, getElem?_eq_none (by simpa using hle)] at hr
    cases hr
  sources key i _ hkey := hsources key i hkey
  refs := hrefs

variable {bound : Nat × ToolDefinition}

private theorem foldl_pop_get? {references : List (String × ToolDefinition)}
    {refs : Dict String (Nat × ToolDefinition)} {reference : String}
    (h : (references.foldl (fun refs r => refs.pop r.1) refs).get? reference = some bound) :
    refs.get? reference = some bound := by
  induction references generalizing refs with
  | nil => exact h
  | cons r rest ih =>
    have hpop := ih h
    rw [Dict.get?_pop] at hpop
    split at hpop
    · cases hpop
    · exact hpop

theorem withdraw_refs {c : Catalog} {id : Nat} {reference : String}
    (h : (c.withdraw id).refs.get? reference = some bound) : c.refs.get? reference = some bound := by
  unfold withdraw at h
  split at h
  · exact h
  · exact foldl_pop_get? h

theorem withdraw_later (c : Catalog) (id : Nat) : Later token c (c.withdraw id) := by
  cases hid : c.objects[id]? with
  | none =>
    rw [withdraw, hid]
    exact .refl c
  | some r =>
    have heq : c.withdraw id = { c with
        objects := c.objects.modify id fun r => { r with revoked := true }
        sources := c.sources.pop r.key
        refs := r.references.values.foldl (fun refs reference => refs.pop reference.1) c.refs } := by
      rw [withdraw, hid]
    refine later_of_modify (f := fun r => { r with revoked := true }) (fun r => ⟨rfl, fun _ => rfl⟩)
      (by rw [heq]) (by rw [heq]) (by rw [heq]) ?_ (fun _ _ _ _ h => withdraw_refs h)
    intro key i hkey
    rw [heq, Dict.get?_pop] at hkey
    split at hkey
    · cases hkey
    · exact hkey

theorem nextRevision_later (c : Catalog) : Later token c c.nextRevision := by
  refine ⟨Nat.le_refl _, Nat.le_succ _, fun id r h => ⟨r, h, .refl r⟩, ?_, fun _ _ _ h => h,
    fun _ _ _ _ h => h⟩
  intro id r hle h
  simp [nextRevision, getElem?_eq_none hle] at h

theorem activateGeneration_later (c : Catalog) (generation : Option Nat) :
    Later token c (c.activateGeneration generation) := by
  refine ⟨Nat.le_refl _, Nat.le_refl _, fun id r h => ⟨r, h, .refl r⟩, ?_, fun _ _ _ h => h,
    fun _ _ _ _ h => h⟩
  intro id r hle h
  simp [activateGeneration, getElem?_eq_none hle] at h

theorem issue_later (token : Nat → String) (c : Catalog) (id : Nat) (key : String)
    (d : ToolDefinition) : Later token c (c.issue token id key d).2 := by
  unfold issue
  dsimp only
  split
  · exact .refl c
  · refine later_of_modify (f := fun r => { r with
      references := r.references.set key (token c.drawn, d) }) (fun r => ⟨rfl, fun h => h⟩) rfl
      (Nat.le_refl _) (Nat.le_succ _) (fun _ _ h => h) ?_
    rintro htoken reference bound ⟨n, hn, rfl⟩ hbound
    have hne : token n ≠ token c.drawn := fun heq => Nat.ne_of_lt hn (htoken heq)
    rw [Dict.get?_set_ne _ _ hne] at hbound
    split at hbound
    · rw [Dict.get?_pop] at hbound
      split at hbound
      · cases hbound
      · exact hbound
    · exact hbound

theorem later_kept (token : Nat → String) (c : Catalog) : Kept token (Later token c) where
  register h hr := h.trans (register_later hr)
  nextRevision {d} h := h.trans (nextRevision_later d)
  withdraw {d} id h := h.trans (withdraw_later d id)
  activateGeneration {d} generation h := h.trans (activateGeneration_later d generation)
  issue {e} id key d _ h := h.trans (issue_later token e id key d)

theorem after_later (c : Catalog) (ops : List Op) : Later token c (c.after token ops) :=
  (later_kept token c).after (.refl c) ops

/-! ### What an admitted run sees -/

variable {context : ExecutionContext}

theorem available_of_later {c c' : Catalog} (h : Later token c c') {generation : Nat}
    {id : Nat}
    (hid : c'.available ⟨some generation, some c.revision⟩ context id = true) :
    c.available ⟨some generation, some c.revision⟩ context id = true := by
  unfold available at hid
  cases hr' : c'.objects[id]? with
  | none =>
    simp [hr'] at hid
  | some r' =>
    rw [hr'] at hid
    simp only [executionSnapshot, some_or, getD_some, and_eq_true,
      decide_eq_true_eq, not_eq_true'] at hid
    obtain ⟨⟨⟨⟨hlive, hkey⟩, hrevision⟩, hgeneration⟩, hlease⟩ := hid
    have hlt : id < c.objects.length := by
      by_contra hge
      have harrival := h.arrivals id r' (by omega) hr'
      exact absurd (of_decide_eq_true hrevision) (Nat.not_le_of_lt harrival)
    have hr := getElem?_eq_getElem hlt
    obtain ⟨s, hs, hages⟩ := h.objects id _ hr
    cases hr'.symm.trans hs
    rw [hages.key_eq] at hkey
    rw [hages.visibleFromRevision_eq] at hrevision
    rw [hages.graphGeneration_eq] at hgeneration
    rw [hages.lease_eq] at hlease
    unfold available
    rw [hr]
    simp only [executionSnapshot, some_or, getD_some, and_eq_true,
      decide_eq_true_eq, not_eq_true']
    exact ⟨⟨⟨⟨hages.not_revoked hlive, h.sources _ id hlt hkey⟩, hrevision⟩, hgeneration⟩, hlease⟩

theorem mem_registrationsForContext {c : Catalog} {scope : Scope}
    {id : Nat} : id ∈ c.registrationsForContext scope context ↔ c.available scope context id = true := by
  simp only [registrationsForContext, List.mem_filter, and_iff_right_iff_imp]
  intro hid
  unfold available at hid
  split at hid
  · cases hid
  · simp only [and_eq_true, decide_eq_true_eq] at hid
    exact Dict.mem_values_of_get? hid.1.1.1.2

theorem binding_ok {c : Catalog} {scope : Scope} {toolRef : String}
    (h : c.binding scope context toolRef = .ok bound) :
    c.refs.get? toolRef = some bound ∧ c.available scope context bound.1 = true := by
  unfold binding at h
  split at h
  · cases h
  · rename_i hbound
    split at h
    · rename_i havailable
      cases h
      exact ⟨hbound, havailable⟩
    · cases h

end Catalog

/-- Whatever is registered, replaced, revoked or activated after a run was admitted, the sources it
sees and can call are among those it saw then; a registration made later is none of them, whether
its source is new or came back under the same name. -/
theorem admitted_sources_only_shrink (token : Nat → String) (admission : Catalog) (generation : Nat)
    (context : ExecutionContext) (ops : List Catalog.Op) :
    let scope : Scope := ⟨some generation, some admission.snapshotRevision⟩
    let later := admission.after token ops
    (∀ id ∈ later.registrationsForContext scope context,
      id ∈ admission.registrationsForContext scope context) ∧
    (∀ sourceId, later.hasSource scope context sourceId = true →
      admission.hasSource scope context sourceId = true) ∧
    (∀ toolRef bound, later.binding scope context toolRef = .ok bound →
      bound.1 ∈ admission.registrationsForContext scope context) ∧
    ∀ id, admission.objects.length ≤ id → later.available scope context id = false := by
  intro scope later
  have hlater : Catalog.Later token admission later := Catalog.after_later admission ops
  have hsubset : ∀ id, later.available scope context id = true →
      admission.available scope context id = true :=
    fun id => Catalog.available_of_later hlater
  refine ⟨?_, ?_, ?_, ?_⟩
  · intro id hid
    exact Catalog.mem_registrationsForContext.mpr
      (hsubset id (Catalog.mem_registrationsForContext.mp hid))
  · intro sourceId hsource
    obtain ⟨id, hid, hname⟩ := List.any_eq_true.mp hsource
    have hid' := hsubset id (Catalog.mem_registrationsForContext.mp hid)
    refine List.any_eq_true.mpr ⟨id, Catalog.mem_registrationsForContext.mpr hid', ?_⟩
    cases hr : admission.objects[id]? with
    | none => simp [Catalog.available, hr] at hid'
    | some r =>
      obtain ⟨r', hr', hages⟩ := hlater.objects id r hr
      rw [hr', Option.any_some, hages.sourceId_eq] at hname
      exact hname
  · intro toolRef bound hbound
    exact Catalog.mem_registrationsForContext.mpr (hsubset _ (Catalog.binding_ok hbound).2)
  · intro id hle
    by_contra havailable
    have hid := hsubset id (by simpa using havailable)
    simp [Catalog.available, List.getElem?_eq_none hle] at hid

end OpenAgent
