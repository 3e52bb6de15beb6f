import OpenAgent.Privacy.Exports

/-!
# Erased exports stay closed

Erasing a part revokes its request. Sealing is the only operation that could take the revocation back:
it reads the state of the request, and in a later statement of its own it writes that the request is
ready. While no erasure commits between the two, a request that lost a part is revoked for good, so
nobody who asks for it afterwards receives it.
-/

namespace OpenAgent.Privacy

open Lib Lib.Tx

variable {spool spool' : Spool}

theorem Spool.lost_iff {requestId : String} :
    spool.lost requestId = true ↔ ∃ artifact part, spool.parts.get? artifact = some part ∧
      part.requestId = requestId ∧ part.erased = true := by
  simp only [lost, Dict.values, List.any_eq_true, List.mem_map, Bool.and_eq_true, decide_eq_true_eq]
  constructor
  · rintro ⟨_, ⟨⟨artifact, part⟩, hmem, rfl⟩, hrequest, herased⟩
    exact ⟨artifact, part, Dict.get?_eq_some_iff.mpr hmem, hrequest, herased⟩
  · rintro ⟨artifact, part, hpart, hrequest, herased⟩
    exact ⟨part, ⟨(artifact, part), Dict.get?_eq_some_iff.mp hpart, rfl⟩, hrequest, herased⟩

/-! ### What a step keeps -/

def KeepsParts (spool spool' : Spool) : Prop :=
  ∀ artifact part, spool.parts.get? artifact = some part → ∃ part',
    spool'.parts.get? artifact = some part' ∧ part'.requestId = part.requestId ∧
      (part.erased = true → part'.erased = true)

theorem KeepsParts.of_eq (h : spool'.parts = spool.parts) :
    KeepsParts spool spool' :=
  fun _ part hpart => ⟨part, h ▸ hpart, rfl, fun h => h⟩

variable {host : ExportHost} {op : ExportOp} {phase : ExportPhase}

theorem Advance.keepsParts (h : Advance host spool op spool' phase) : KeepsParts spool spool' := by
  cases h with
  | quiet | found | inserted | sealed | issued | acknowledged => exact .of_eq rfl
  | staged hstaged hpart hrequest =>
    exact fun artifact part hpart => ⟨part, hstaged.kept _ _ hpart, rfl, fun h => h⟩
  | @erased revision requestId hcall hphase =>
    intro x part hpart
    refine ⟨_, Dict.get?_update_eq_some.mpr ⟨part, hpart, rfl⟩, ?_⟩
    split
    · exact ⟨rfl, fun _ => rfl⟩
    · exact ⟨rfl, fun h => h⟩

theorem KeepsParts.lost (h : KeepsParts spool spool') {id : String} (hlost : spool.lost id = true)
    : spool'.lost id = true := by
  obtain ⟨artifact, part, hpart, hrequest, herased⟩ := Spool.lost_iff.mp hlost
  obtain ⟨part', hpart', hsame, hkept⟩ := h artifact part hpart
  exact Spool.lost_iff.mpr ⟨artifact, part', hpart', hsame.trans hrequest, hkept herased⟩

theorem Advance.parts_from (h : Advance host spool op spool' phase)
    (herasing : ∀ requestId, op.phase = .erasing requestId → ∃ revision part,
      op.call = .erase revision ∧ spool.parts.get? revision.artifactId = some part ∧
        part.requestId = requestId) {artifact : String} {part : PartRow}
    (hpart : spool'.parts.get? artifact = some part) :
    (∃ old, spool.parts.get? artifact = some old ∧ old.requestId = part.requestId ∧
        (part.erased = true → old.erased = true ∨ ∃ x, spool' = spool.erase x part.requestId)) ∨
      part.erased = false ∧ (spool'.requests.get? part.requestId).isSome := by
  cases h with
  | quiet | found | inserted | sealed | issued | acknowledged => exact .inl ⟨part, hpart, rfl, .inl⟩
  | staged hstaged hfresh hrequest =>
    rcases hstaged.new _ _ hpart with hold | rfl
    · exact .inl ⟨part, hold, rfl, .inl⟩
    · refine .inr ⟨hfresh, ?_⟩
      rw [hstaged.requests, hrequest, Spool.opened]
      split
      · rename_i hthere
        exact hthere
      · exact Option.isSome_iff_exists.mpr ⟨_, Dict.get?_set_self _ _ _⟩
  | @erased revision requestId hcall hphase =>
    obtain ⟨old, hold, rfl⟩ := Dict.get?_update_eq_some.mp hpart
    refine .inl ⟨old, hold, ?_⟩
    split
    · rename_i heq
      obtain ⟨revision', target, hcall', htarget, hrequest⟩ := herasing requestId hphase
      rw [hcall] at hcall'
      cases hcall'
      rw [← heq, hold] at htarget
      cases htarget
      exact ⟨rfl, fun _ => .inr ⟨revision.artifactId, by rw [hrequest]⟩⟩
    · exact ⟨rfl, .inl⟩

theorem Advance.keepsRequests (h : Advance host spool op spool' phase) (id : String)
    (hsome : (spool.requests.get? id).isSome) : (spool'.requests.get? id).isSome := by
  cases h with
  | quiet | found => exact hsome
  | staged hstaged hpart hrequest =>
    obtain ⟨row, hrow⟩ := Option.isSome_iff_exists.mp hsome
    rw [hstaged.requests, Spool.opened_keeps hrow]
    rfl
  | inserted hnew =>
    rw [Dict.get?_set]
    split
    · rfl
    · exact hsome
  | sealed => exact (Dict.isSome_get?_update ..).trans hsome
  | erased => exact (Dict.isSome_get?_update ..).trans hsome
  | issued hash => exact (Dict.isSome_get?_update ..).trans hsome
  | acknowledged => exact (Dict.isSome_get?_update ..).trans hsome

theorem Advance.revoked_from (h : Advance host spool op spool' phase) {id : String} {row : ExportRow}
    (hrow : spool'.requests.get? id = some row) (hrevoked : row.state = .revoked) :
    (∃ old, spool.requests.get? id = some old ∧ old.state = .revoked) ∨
      ∃ revision, op.call = .erase revision ∧ op.phase = .erasing id ∧
        spool' = spool.erase revision.artifactId id := by
  cases h with
  | quiet | found => exact .inl ⟨row, hrow, hrevoked⟩
  | staged hstaged hpart hrequest =>
    rw [hstaged.requests] at hrow
    rcases Spool.get?_opened hrow with hold | ⟨-, hstaging⟩
    · exact .inl ⟨row, hold, hrevoked⟩
    · simp [hstaging] at hrevoked
  | inserted hnew =>
    rw [Dict.get?_set] at hrow
    split at hrow
    · cases hrow
      cases hrevoked
    · exact .inl ⟨row, hrow, hrevoked⟩
  | sealed =>
    obtain ⟨old, hold, rfl⟩ := Dict.get?_update_eq_some.mp hrow
    split at hrevoked
    · cases hrevoked
    · exact .inl ⟨old, hold, hrevoked⟩
  | @erased revision requestId hcall hphase =>
    obtain ⟨old, hold, rfl⟩ := Dict.get?_update_eq_some.mp hrow
    split at hrevoked
    · rename_i heq
      subst heq
      exact .inr ⟨revision, hcall, hphase, rfl⟩
    · exact .inl ⟨old, hold, hrevoked⟩
  | issued hash =>
    obtain ⟨old, hold, rfl⟩ := Dict.get?_update_eq_some.mp hrow
    refine .inl ⟨old, hold, ?_⟩
    split at hrevoked
    · split at hrevoked
      · exact hrevoked
      · exact hrevoked
    · exact hrevoked
  | acknowledged =>
    obtain ⟨old, hold, rfl⟩ := Dict.get?_update_eq_some.mp hrow
    refine .inl ⟨old, hold, ?_⟩
    split at hrevoked
    · exact hrevoked
    · exact hrevoked

def Spool.shut (spool : Spool) (id : String) : Prop :=
  ∃ row, spool.requests.get? id = some row ∧ row.state = .revoked

theorem Advance.shut (h : Advance host spool op spool' phase) {id : String} (hshut : spool.shut id)
    (hseal : ∀ request, op.call = .seal request → op.phase = .updating → request.requestId ≠ id) :
    spool'.shut id := by
  obtain ⟨row, hrow, hrevoked⟩ := hshut
  cases h with
  | quiet | found => exact ⟨row, hrow, hrevoked⟩
  | staged hstaged hpart hrequest =>
    exact ⟨row, by rw [hstaged.requests, Spool.opened_keeps hrow], hrevoked⟩
  | @inserted request hnew =>
    have hne : id ≠ request.requestId := by
      rintro rfl
      simp [hnew] at hrow
    exact ⟨row, (Dict.get?_set_ne _ _ hne).trans hrow, hrevoked⟩
  | @sealed request hcall hphase =>
    refine ⟨row, Dict.get?_update_eq_some.mpr ⟨row, hrow, ?_⟩, hrevoked⟩
    rw [if_neg (hseal request hcall hphase).symm]
  | erased =>
    refine ⟨_, Dict.get?_update_eq_some.mpr ⟨row, hrow, rfl⟩, ?_⟩
    split
    · rfl
    · exact hrevoked
  | issued hash =>
    refine ⟨row, Dict.get?_update_eq_some.mpr ⟨row, hrow, ?_⟩, hrevoked⟩
    split
    · rw [if_neg (by rw [hrevoked]; decide)]
    · rfl
  | acknowledged =>
    refine ⟨_, Dict.get?_update_eq_some.mpr ⟨row, hrow, rfl⟩, ?_⟩
    split
    · exact hrevoked
    · exact hrevoked

/-! ### What holds in every run -/

/-- The rows a part or an erasure refers to are there, and only a request that lost a part is
revoked. -/
structure Consistent (s : Exports) : Prop where
  owned : ∀ artifact part, s.spool.parts.get? artifact = some part →
    (s.spool.requests.get? part.requestId).isSome
  revoked : ∀ id, s.spool.shut id → s.spool.lost id = true
  erasing : ∀ (i : Nat) op, s.ops[i]? = some op → ∀ requestId, op.phase = .erasing requestId →
    ∃ revision part, op.call = .erase revision ∧
      s.spool.parts.get? revision.artifactId = some part ∧ part.requestId = requestId

theorem consistent_initial : Consistent Exports.initial where
  owned _ _ h := by cases h
  revoked _ h := by obtain ⟨_, h, _⟩ := h; cases h
  erasing _ _ h := by cases h

theorem Spool.lost_erase {artifact : String} {part : PartRow}
    (hpart : spool.parts.get? artifact = some part) :
    (spool.erase artifact part.requestId).lost part.requestId = true := by
  refine Spool.lost_iff.mpr ⟨artifact, { part with ciphertext := none, erased := true },
    Dict.get?_update_eq_some.mpr ⟨part, hpart, ?_⟩, rfl, rfl⟩
  rw [if_pos rfl]

theorem Consistent.advance {host : ExportHost} {s : Exports} (hs : Consistent s) {i : Nat}
    {op : ExportOp} {spool : Spool} {phase : ExportPhase} (hop : s.ops[i]? = some op)
    (h : Advance host s.spool op spool phase) :
    Consistent { s.setPhase i op phase with spool := spool } where
  owned := by
    intro artifact part hpart
    rcases h.parts_from (hs.erasing i op hop) hpart with ⟨old, hold, hsame, -⟩ | ⟨-, hthere⟩
    · exact h.keepsRequests _ (hsame ▸ hs.owned artifact old hold)
    · exact hthere
  revoked := by
    rintro id ⟨row, hrow, hrevoked⟩
    rcases h.revoked_from hrow hrevoked with hold | ⟨revision, hcall, hphase, rfl⟩
    · exact h.keepsParts.lost (hs.revoked id hold)
    · obtain ⟨revision', part, hcall', hpart, rfl⟩ := hs.erasing i op hop id hphase
      rw [hcall] at hcall'
      cases hcall'
      exact Spool.lost_erase hpart
  erasing := by
    intro j other hother requestId hphase
    have hkeeps := h.keepsParts
    have hbefore : ∃ revision part, other.call = .erase revision ∧
        s.spool.parts.get? revision.artifactId = some part ∧ part.requestId = requestId := by
      rcases (getElem?_set_eq_some hop).mp hother with ⟨-, rfl⟩ | ⟨-, hold⟩
      · cases h with
        | quiet hquiet => exact absurd hphase (hquiet requestId)
        | found hcall hpart =>
          obtain rfl := ExportPhase.erasing.inj hphase
          exact ⟨_, _, hcall, hpart, rfl⟩
        | staged | inserted | sealed | erased | issued | acknowledged => cases hphase
      · exact hs.erasing j other hold requestId hphase
    obtain ⟨revision, part, hcall, hpart, rfl⟩ := hbefore
    obtain ⟨part', hpart', hsame, -⟩ := hkeeps _ part hpart
    exact ⟨revision, part', hcall, hpart', hsame⟩

variable {a : ExportAction}

theorem consistent_step {s s' : Exports} (hs : Consistent s)
    (hstep : exportStep host s a = some s') : Consistent s' := by
  rcases exportStep_cases hstep with ⟨call, -, rfl⟩ | ⟨i, op, spool, phase, -, hop, hadvance, rfl⟩
  · refine ⟨hs.owned, hs.revoked, fun j other hother requestId hphase => ?_⟩
    rcases getElem?_append_singleton.mp hother with hold | ⟨-, rfl⟩
    · exact hs.erasing j other hold requestId hphase
    · exact absurd hphase (ExportCall.phase_ne_erasing host call requestId)
  · exact hs.advance hop (advance_cases hadvance)

theorem consistent_run {as : List ExportAction} {s : Exports}
    (hrun : run (exportStep host) .initial as = some s) : Consistent s :=
  run_invariant (fun _ _ _ hs h => consistent_step hs h) consistent_initial hrun

/-! ### While no erasure overtakes a seal -/

def Undisturbed (s : Exports) (a : ExportAction) : Prop :=
  ∀ i token op request, a = .write i token → s.ops[i]? = some op → op.call = .seal request →
    op.phase = .updating → ¬ s.spool.shut request.requestId

/-- A request that lost a part is not ready and not delivered, and nobody who asked for it after that
has received it. -/
structure Closed (s : Exports) : Prop where
  notReady : ∀ id row, s.spool.lost id = true → s.spool.requests.get? id = some row → row.state ≠ .ready
  undelivered : ∀ id, s.spool.lost id = true → s.spool.delivered id = false
  withheld : ∀ op ∈ s.ops, op.late = true → op.phase ≠ .succeeded

/-- What keeps a spool closed: a lost request is revoked, and a late caller gets nowhere. -/
structure Guarded (s : Exports) : Prop where
  shut : ∀ id, s.spool.lost id = true → s.spool.shut id
  late : ∀ (i : Nat) op, s.ops[i]? = some op → op.late = true → ∃ id, op.call.receives = some id ∧
    s.spool.lost id = true ∧ (op.phase = .start ∨ op.phase = .failed)

theorem guarded_initial : Guarded Exports.initial where
  shut _ h := by cases h
  late _ _ h := by cases h

theorem Guarded.closed {s : Exports} (hs : Guarded s) : Closed s where
  notReady := by
    intro id row hlost hrow
    obtain ⟨row', hrow', hrevoked⟩ := hs.shut id hlost
    rw [hrow] at hrow'
    cases hrow'
    rw [hrevoked]
    exact nofun
  undelivered := by
    intro id hlost
    obtain ⟨row, hrow, hrevoked⟩ := hs.shut id hlost
    simp [Spool.delivered, hrow, hrevoked]
  withheld := by
    intro op hop hlate
    obtain ⟨i, hi⟩ := List.mem_iff_getElem?.mp hop
    obtain ⟨-, -, -, hphase⟩ := hs.late i op hi hlate
    rcases hphase with h | h
    · rw [h]
      exact nofun
    · rw [h]
      exact nofun

theorem advance_refused {id : String} (hreceives : op.call.receives = some id)
    (hphase : op.phase = .start ∨ op.phase = .failed) (hshut : spool.shut id)
    (h : op.advance host spool a = some (spool', phase)) : phase = .failed := by
  obtain ⟨row, hrow, hrevoked⟩ := hshut
  have hstuck : ∀ {p : ExportPhase}, op.phase = p → (p = .start ∨ p = .failed) := by
    rintro p rfl
    exact hphase
  have hother : ∀ {call : ExportCall}, op.call = call → call.receives = some id := by
    rintro call rfl
    exact hreceives
  cases a with
  | call call => cases h
  | load i =>
    simp only [ExportOp.advance, hreceives] at h
    split at h
    · rename_i heq hstart
      cases heq
      simp only [hrow, hrevoked] at h
      rw [if_neg (by decide)] at h
      cases h
      rfl
    · cases h
  | abort i =>
    simp only [ExportOp.advance] at h
    split at h
    · cases h
    · cases h
      rfl
  | read i =>
    simp only [ExportOp.advance] at h
    split at h
    · rename_i hcall _
      cases hother hcall
    · cases h
  | check i complete =>
    simp only [ExportOp.advance] at h
    split at h
    · rename_i hcall _
      cases hother hcall
    · cases h
  | lookup i =>
    simp only [ExportOp.advance] at h
    split at h
    · rename_i hcall _
      cases hother hcall
    · cases h
  | stage i recorded ciphertext published =>
    simp only [ExportOp.advance] at h
    split at h
    · rename_i hcall _
      cases hother hcall
    · rename_i hcall _
      cases hother hcall
    · cases h
  | list i authorized =>
    simp only [ExportOp.advance] at h
    split at h
    · rename_i hlist
      rcases hstuck hlist with heq | heq
      · cases heq
      · cases heq
    · cases h
  | clear i authorized =>
    simp only [ExportOp.advance] at h
    split at h
    · rename_i hclear
      rcases hstuck hclear with heq | heq
      · cases heq
      · cases heq
    · cases h
  | disclose i published =>
    simp only [ExportOp.advance] at h
    split at h
    · rename_i _ hreading
      rcases hstuck hreading with heq | heq
      · cases heq
      · cases heq
    · cases h
  | compare i =>
    simp only [ExportOp.advance] at h
    split at h
    · rename_i _ hreading
      rcases hstuck hreading with heq | heq
      · cases heq
      · cases heq
    · cases h
  | write i token =>
    simp only [ExportOp.advance] at h
    split at h
    · rename_i hcall _
      cases hother hcall
    · rename_i hcall _
      cases hother hcall
    · rename_i hcall _
      cases hother hcall
    · rename_i _ hreading
      rcases hstuck hreading with heq | heq
      · cases heq
      · cases heq
    · rename_i _ hcompared
      rcases hstuck hcompared with heq | heq
      · cases heq
      · cases heq
    · cases h

theorem exists_write_of_sealed {request : PrivacyRequest}
    (hcall : op.call = .seal request) (hphase : op.phase = .updating)
    (h : op.advance host spool a = some (spool', phase)) :
    (∃ i token, a = .write i token) ∨ spool' = spool := by
  cases a with
  | write i token => exact .inl ⟨i, token, rfl⟩
  | call call => cases h
  | abort i =>
    simp only [ExportOp.advance, hphase, ExportPhase.over] at h
    cases h
    exact .inr rfl
  | stage | read | check | lookup | load | list | clear | disclose | compare =>
    simp only [ExportOp.advance, hcall, hphase, ExportCall.receives] at h
    cases h

theorem guarded_step {s s' : Exports} (hc : Consistent s) (hs : Guarded s)
    (hundisturbed : Undisturbed s a) (hstep : exportStep host s a = some s') :
    Guarded s' := by
  rcases exportStep_cases hstep with ⟨call, -, rfl⟩ | ⟨i, op, spool, phase, hi, hop, hadvance, rfl⟩
  · refine ⟨hs.shut, fun j other hother hlate => ?_⟩
    rcases getElem?_append_singleton.mp hother with hold | ⟨-, rfl⟩
    · exact hs.late j other hold hlate
    · cases hreceives : call.receives with
      | none =>
        simp [hreceives] at hlate
      | some id =>
        rw [hreceives] at hlate
        refine ⟨id, rfl, hlate, .inl ?_⟩
        cases call with
        | download requestId => rfl
        | acknowledge requestId token => rfl
        | stage | copy | erase | «seal» => cases hreceives
  · have h := advance_cases hadvance
    have hkeeps := h.keepsParts
    refine ⟨fun id hlost => ?_, fun j other hother hlate => ?_⟩
    · -- a part that is lost now was lost before, or this step erases it
      obtain ⟨artifact, part, hpart, rfl, herased⟩ := Spool.lost_iff.mp hlost
      have hstill : s.spool.lost part.requestId = true → spool.shut part.requestId := by
        intro hbefore
        by_cases hseal : ∃ request, op.call = .seal request ∧ op.phase = .updating ∧
            request.requestId = part.requestId
        · obtain ⟨request, hcall, hphase, hid⟩ := hseal
          rcases exists_write_of_sealed hcall hphase hadvance with ⟨j, token, rfl⟩ | hsame
          · obtain rfl := Option.some.inj hi
            have hopen := hundisturbed j token op request rfl hop hcall hphase
            rw [hid] at hopen
            exact absurd (hs.shut _ hbefore) hopen
          · rw [hsame]
            exact hs.shut _ hbefore
        · exact h.shut (hs.shut _ hbefore) fun request hcall hphase hid =>
            hseal ⟨request, hcall, hphase, hid⟩
      rcases h.parts_from (hc.erasing i op hop) hpart with ⟨old, hold, hsame, hcause⟩ | ⟨hfresh, -⟩
      · rcases hcause herased with holdErased | ⟨x, rfl⟩
        · exact hstill (Spool.lost_iff.mpr ⟨artifact, old, hold, hsame, holdErased⟩)
        · obtain ⟨row, hrow⟩ := Option.isSome_iff_exists.mp (hc.owned artifact old hold)
          rw [hsame] at hrow
          refine ⟨_, Dict.get?_update_eq_some.mpr ⟨row, hrow, rfl⟩, ?_⟩
          rw [if_pos rfl]
      · simp [herased] at hfresh
    · rcases (getElem?_set_eq_some hop).mp hother with ⟨rfl, rfl⟩ | ⟨-, hold⟩
      · obtain ⟨id, hreceives, hlost, hphase⟩ := hs.late i op hop hlate
        exact ⟨id, hreceives, hkeeps.lost hlost,
          .inr (advance_refused hreceives hphase (hs.shut id hlost) hadvance)⟩
      · obtain ⟨id, hreceives, hlost, hphase⟩ := hs.late j other hold hlate
        exact ⟨id, hreceives, hkeeps.lost hlost, hphase⟩

theorem not_closed_of_disturbed (host : ExportHost) (token : String) {s : Exports} (hc : Consistent s)
    {i : Nat} {request : PrivacyRequest} (hop : s.ops[i]? = some op) (hcall : op.call = .seal request)
    (hphase : op.phase = .updating) (hshut : s.spool.shut request.requestId) :
    ∃ s', exportStep host s (.write i token) = some s' ∧ ¬ Closed s' := by
  have hbefore := hc.revoked _ hshut
  have hadvance : op.advance host s.spool (.write i token) =
      some (s.spool.seal request.requestId, .succeeded) := by
    simp only [ExportOp.advance, hcall, hphase]
  refine ⟨{ s.setPhase i op .succeeded with spool := s.spool.seal request.requestId }, ?_, fun h => ?_⟩
  · simp [exportStep, ExportAction.of, hop, hadvance]
  · obtain ⟨row, hrow, -⟩ := hshut
    have hlost : (s.spool.seal request.requestId).lost request.requestId = true :=
      (KeepsParts.of_eq rfl).lost hbefore
    have hready := h.notReady request.requestId { row with state := .ready } hlost
      (Dict.get?_update_eq_some.mpr ⟨row, hrow, by rw [if_pos rfl]⟩)
    exact hready rfl

/-- In every run, no seal writes over a revocation if and only if in every state it reaches the
requests that lost a part are closed. -/
theorem erased_exports_stay_closed (host : ExportHost) (as : List ExportAction) :
    Along (exportStep host) Undisturbed .initial as ↔
      ∀ front s, front <+: as → run (exportStep host) .initial front = some s → Closed s := by
  constructor
  · rintro halong front s ⟨back, rfl⟩ hfront
    have hboth := run_invariant_along (I := fun s => Consistent s ∧ Guarded s)
      (fun s a s' hs hC h => ⟨consistent_step hs.1 h, guarded_step hs.1 hs.2 hC h⟩)
      ⟨consistent_initial, guarded_initial⟩ (along_append.mp halong).1 hfront
    exact hboth.2.closed
  · intro hclosed
    refine along_iff.mpr fun front a s hbegin hfront => ?_
    rintro i token op request rfl hop hcall hphase hshut
    obtain ⟨s', hstep, hopen⟩ :=
      not_closed_of_disturbed host token (consistent_run hfront) hop hcall hphase hshut
    refine hopen (hclosed _ s' hbegin (run_append.mpr ⟨s, hfront, ?_⟩))
    exact run_cons.mpr ⟨s', hstep, rfl⟩

namespace Sample

def overtaken : List ExportAction :=
  [.call (.stage exportRequest message payload), .stage 0 true payload true,
    .call (.seal exportRequest), .check 1 true,
    .call (.erase (exportHost.staged exportRequest message payload)), .lookup 2, .write 2 "",
    .write 1 ""]

end Sample

/-- A seal that an erasure overtakes makes the export ready although its only part is erased. -/
theorem overtaken_seal_reopens_the_export :
    ¬ ∀ (host : ExportHost) (as : List ExportAction) (s : Exports),
      run (exportStep host) .initial as = some s → Closed s := by
  intro h
  have htrace : (run (exportStep Sample.exportHost) .initial Sample.overtaken).map
      (fun s => (s.spool.lost "export", (s.spool.requests.get? "export").map ExportRow.state)) =
    some (true, some .ready) := rfl
  obtain ⟨s, hrun, hread⟩ := Option.map_eq_some_iff.mp htrace
  simp only [Prod.mk.injEq] at hread
  obtain ⟨hlost, hstate⟩ := hread
  obtain ⟨row, hrow, hready⟩ := Option.map_eq_some_iff.mp hstate
  exact (h _ _ s hrun).notReady "export" row hlost hrow hready

end OpenAgent.Privacy
