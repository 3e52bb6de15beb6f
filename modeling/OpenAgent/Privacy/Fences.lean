import OpenAgent.Privacy.Jobs

/-!
# Fence completeness

A redaction reaches every recorded revision it selects. Opening the request takes the revisions that
are there, and from then on the request is a fence: a recording that would carry a selected origin,
its own or one it inherits, is refused. What a revision inherits is in its own row, so one lookup
decides a whole lineage.
-/

namespace OpenAgent.Privacy

open Lib Lib.Tx

/-- A revision carries an origin: it was recorded with it, or derived from one that carries it. -/
inductive Carries (accepted : List Recording) : RevisionKey → ContentOrigin → Prop
  | direct {entry : Recording} {origin : ContentOrigin} (hentry : entry ∈ accepted)
      (horigin : origin ∈ entry.origins) : Carries accepted entry.revision.key origin
  | inherited {entry : Recording} {parent : String × String} {origin : ContentOrigin}
      (hentry : entry ∈ accepted) (hparent : parent ∈ entry.parents)
      (hcarries : Carries accepted ⟨entry.revision.tenantId, parent.1, parent.2⟩ origin) :
      Carries accepted entry.revision.key origin

/-- What the ledger keeps about the recordings it accepted and the requests it opened. -/
structure Fenced (s : System) : Prop where
  keyed : ∀ key row, s.tables.revisions.get? key = some row → row.revision.key = key
  sameTenant : ∀ key row, s.tables.revisions.get? key = some row →
    ∀ origin ∈ row.origins, origin.tenantId = key.tenant
  lineage : ∀ entry ∈ s.accepted, ∃ row, s.tables.revisions.get? entry.revision.key = some row ∧
    (∀ origin ∈ entry.origins, origin ∈ row.origins) ∧
    ∀ parent ∈ entry.parents, ∀ source,
      s.tables.revisions.get? ⟨entry.revision.tenantId, parent.1, parent.2⟩ = some source →
        ∀ origin ∈ source.origins, origin ∈ row.origins
  derived : ∀ entry ∈ s.accepted, ∀ parent ∈ entry.parents,
    (s.tables.revisions.get? ⟨entry.revision.tenantId, parent.1, parent.2⟩).isSome
  targeted : ∀ id request key row, s.tables.requests.get? id = some request →
    request.request.operation = .redact → s.tables.revisions.get? key = some row →
    request.request.touches row.origins = true → (s.tables.targets.get? (id, key)).isSome

theorem fenced_initial : Fenced System.initial where
  keyed _ _ h := by cases h
  sameTenant _ _ h := by cases h
  lineage _ h := by cases h
  derived _ h := by cases h
  targeted _ _ _ _ h := by cases h

/-- Only the rows of requests and the flags of targets changed: each request still asks for the same,
and each target is still there. -/
structure SameScope (T T' : Tables) : Prop where
  revisions : T'.revisions = T.revisions
  requests : ∀ id row', T'.requests.get? id = some row' →
    ∃ row, T.requests.get? id = some row ∧ row'.request = row.request
  targets : ∀ x, (T.targets.get? x).isSome → (T'.targets.get? x).isSome

theorem SameScope.refl (T : Tables) : SameScope T T where
  revisions := rfl
  requests _ row' h := ⟨row', h, rfl⟩
  targets _ h := h

theorem SameScope.of_set {T : Tables} {id : String} {row : RequestRow} (row' : RequestRow)
    (hrow : T.requests.get? id = some row) (hsame : row'.request = row.request) :
    SameScope T { T with requests := T.requests.set id row' } where
  revisions := rfl
  requests := by
    intro x found h
    rw [Dict.get?_set] at h
    split at h
    · rename_i heq
      cases h
      exact ⟨row, heq ▸ hrow, hsame⟩
    · exact ⟨found, h, rfl⟩
  targets _ h := h

theorem Fenced.of_sameScope {s s' : System} (hs : Fenced s) (hscope : SameScope s.tables s'.tables)
    (haccepted : s'.accepted = s.accepted) : Fenced s' where
  keyed := hscope.revisions ▸ hs.keyed
  sameTenant := hscope.revisions ▸ hs.sameTenant
  lineage := by
    rw [haccepted, hscope.revisions]
    exact hs.lineage
  derived := by
    rw [haccepted, hscope.revisions]
    exact hs.derived
  targeted := by
    rw [hscope.revisions]
    intro id request key row hrequest hredact hrow htouches
    obtain ⟨old, hold, hsame⟩ := hscope.requests id request hrequest
    rw [hsame] at hredact htouches
    exact hscope.targets _ (hs.targeted id old key row hold hredact hrow htouches)

theorem Claimed.sameScope {config : Configuration} {T T' : Tables} {requestId : String}
    {covered : Finset String} {token : Nat} {answer : Option (List ContentRevision)}
    (h : Claimed config T requestId covered token answer T') : SameScope T T' := by
  cases h with
  | refused => exact .refl T
  | blocked hrow hopen reason => exact .of_set _ hrow rfl
  | drawn hrow hopen hcovered leaseUntil => exact .of_set _ hrow rfl

theorem Fenced.record {s : System} (hs : Fenced s) (entry : Recording) {T' : Tables}
    {inherited : Finset ContentOrigin}
    (h : Recorded s.tables T' entry.revision entry.origins entry.parents inherited) :
    Fenced { s with tables := T', accepted := s.accepted ++ [entry] } where
  keyed := by
    intro key row hrow
    by_cases hkey : key = entry.revision.key
    · subst hkey
      rw [show T'.revisions.get? entry.revision.key = _ from h.stored] at hrow
      cases hrow
      rfl
    · exact hs.keyed key row (h.others key hkey ▸ hrow)
  sameTenant := by
    intro key row hrow
    by_cases hkey : key = entry.revision.key
    · subst hkey
      rw [show T'.revisions.get? entry.revision.key = _ from h.stored] at hrow
      cases hrow
      exact h.sameTenant
    · exact hs.sameTenant key row (h.others key hkey ▸ hrow)
  lineage := by
    intro e he
    rcases List.mem_append.mp he with hold | hnew
    · obtain ⟨row, hrow, hdirect, hparents⟩ := hs.lineage e hold
      refine ⟨row, h.kept _ _ hrow, hdirect, fun parent hparent source hsource => ?_⟩
      -- a parent was recorded before its child, so its row is the one it had then
      obtain ⟨source', hsource'⟩ := Option.isSome_iff_exists.mp (hs.derived e hold parent hparent)
      rw [show T'.revisions.get? _ = _ from h.kept _ _ hsource'] at hsource
      cases hsource
      exact hparents parent hparent _ hsource'
    · cases List.mem_singleton.mp hnew
      refine ⟨_, h.stored, fun origin horigin => ?_, fun parent hparent source hsource origin horigin => ?_⟩
      · exact (mem_inheritedOrigins h.inherits origin).mpr (.inl (List.mem_toFinset.mpr horigin))
      · obtain ⟨source', hsource'⟩ := inheritedOrigins_recorded h.inherits hparent
        rw [show T'.revisions.get? _ = _ from h.kept _ _ hsource'] at hsource
        cases hsource
        exact (mem_inheritedOrigins h.inherits origin).mpr (.inr ⟨parent, hparent, _, hsource', horigin⟩)
  derived := by
    intro e he parent hparent
    have hbefore : ∃ row,
        s.tables.revisions.get? ⟨e.revision.tenantId, parent.1, parent.2⟩ = some row := by
      rcases List.mem_append.mp he with hold | hnew
      · exact Option.isSome_iff_exists.mp (hs.derived e hold parent hparent)
      · cases List.mem_singleton.mp hnew
        exact inheritedOrigins_recorded h.inherits hparent
    obtain ⟨row, hrow⟩ := hbefore
    exact Option.isSome_iff_exists.mpr ⟨row, h.kept _ _ hrow⟩
  targeted := by
    intro id request key row hrequest hredact hrow htouches
    rw [show T'.requests = _ from h.requests] at hrequest
    rw [show T'.targets = _ from h.targets]
    by_cases hkey : key = entry.revision.key
    · subst hkey
      rw [show T'.revisions.get? entry.revision.key = _ from h.stored] at hrow
      cases hrow
      have hfence := Tables.fenced_iff.mpr ⟨id, request, hrequest, hredact, htouches⟩
      simp [h.unfenced] at hfence
    · exact hs.targeted id request key row hrequest hredact (h.others key hkey ▸ hrow) htouches

theorem Fenced.open {s : System} (hs : Fenced s) {request : PrivacyRequest} {T' : Tables}
    (h : Opened s.tables request T') : Fenced { s with tables := T' } := by
  cases h with
  | again hold hsame => exact hs
  | fresh hnew =>
    refine ⟨hs.keyed, hs.sameTenant, hs.lineage, hs.derived, ?_⟩
    intro id row key rev hrow hredact hrev htouches
    show ((addTargets request.requestId s.tables.targets _).get? (id, key)).isSome = true
    rw [get?_addTargets]
    split
    · rfl
    · rename_i hnot
      by_cases hid : id = request.requestId
      · subst hid
        rw [show (s.tables.requests.set _ _).get? _ = _ from Dict.get?_set_self _ _ _] at hrow
        cases hrow
        obtain ⟨origin, horigin, hselects⟩ := PrivacyRequest.touches_iff.mp htouches
        have htenant : key.tenant = request.tenantId := by
          rw [← hs.sameTenant key rev hrev origin horigin]
          exact (PrivacyRequest.tenant_of_selects hselects).symm
        exact absurd ⟨rfl, Tables.mem_selected.mpr ⟨rev, hrev, htenant, htouches⟩⟩ hnot
      · rw [show (s.tables.requests.set _ _).get? id = _ from Dict.get?_set_ne _ _ hid] at hrow
        exact hs.targeted id row key rev hrow hredact hrev htouches

theorem fenced_step {config : Configuration} {s s' : System} {a : Action} (hs : Fenced s)
    (hstep : step config s a = some s') : Fenced s' := by
  cases step_cases hstep with
  | stay => exact hs
  | recorded entry hrecorded => exact hs.record entry hrecorded
  | opened request hopened => exact hs.open hopened
  | refused hclaimed => exact hs.of_sameScope hclaimed.sameScope rfl
  | drawn sinks hclaimed => exact hs.of_sameScope hclaimed.sameScope rfl
  | answered hworker hworking => exact hs.of_sameScope (.refl _) rfl
  | @reported i worker target left row now later hworker hreporting hrow hheld leaseUntil =>
    have hset := SameScope.of_set { row with leaseUntil := leaseUntil } hrow rfl
    refine hs.of_sameScope ⟨rfl, hset.requests, fun x hx => ?_⟩ rfl
    show ((s.tables.completeTarget worker.requestId target.key).get? x).isSome = true
    rw [Tables.get?_completeTarget]
    split
    · rfl
    · exact hx
  | settled hworker hrow hheld hcomplete reason =>
    exact hs.of_sameScope (.of_set _ hrow rfl) rfl
  | stopped hworker hphase => exact hs.of_sameScope (.refl _) rfl

theorem fenced_run {config : Configuration} {as : List Action} {s : System}
    (hrun : run (step config) .initial as = some s) : Fenced s :=
  run_invariant (fun _ _ _ hs h => fenced_step hs h) fenced_initial hrun

theorem Fenced.mem_of_carries {s : System} (hs : Fenced s) {key : RevisionKey} {origin : ContentOrigin}
    (h : Carries s.accepted key origin) :
    ∃ row, s.tables.revisions.get? key = some row ∧ origin ∈ row.origins := by
  induction h with
  | direct hentry horigin =>
    obtain ⟨row, hrow, hdirect, -⟩ := hs.lineage _ hentry
    exact ⟨row, hrow, hdirect _ horigin⟩
  | inherited hentry hparent hcarries ih =>
    obtain ⟨source, hsource, horigin⟩ := ih
    obtain ⟨row, hrow, -, hparents⟩ := hs.lineage _ hentry
    exact ⟨row, hrow, hparents _ hparent source hsource _ horigin⟩

/-- In every state a ledger reaches, each revision that carries an origin a redaction selects is among
the targets of the redaction. -/
theorem redactions_target_what_they_select (config : Configuration) (as : List Action) (s : System)
    (hrun : run (step config) .initial as = some s) (id : String) (request : RequestRow)
    (hrequest : s.tables.requests.get? id = some request) (hredact : request.request.operation = .redact)
    (key : RevisionKey) (origin : ContentOrigin) (hcarries : Carries s.accepted key origin)
    (hselects : request.request.selects origin = true) :
    (s.tables.targets.get? (id, key)).isSome := by
  have hs := fenced_run hrun
  obtain ⟨row, hrow, horigin⟩ := hs.mem_of_carries hcarries
  have htouches : request.request.touches row.origins = true :=
    PrivacyRequest.touches_iff.mpr ⟨origin, horigin, hselects⟩
  exact hs.targeted id request key row hrequest hredact hrow htouches

/-- The reply is erased with the tool result it was written from, although it names no origin. -/
theorem derived_reply_is_targeted : ∃ s,
    run (step Sample.configuration) .initial (Sample.recordings ++ [.enqueue Sample.erasure]) = some s ∧
      (s.tables.targets.get? ("erase", Sample.reply.key)).isSome := by
  have htrace :
      (run (step Sample.configuration) .initial (Sample.recordings ++ [.enqueue Sample.erasure])).map
        (fun s => (s.accepted, s.tables.requests.get? "erase")) =
      some ([⟨Sample.toolResult, [Sample.origin], []⟩, ⟨Sample.reply, [], [("tool/1", "r1")]⟩],
        some { request := Sample.erasure, status := .pending }) := rfl
  obtain ⟨s, hrun, hread⟩ := Option.map_eq_some_iff.mp htrace
  simp only [Prod.mk.injEq] at hread
  obtain ⟨haccepted, hrequest⟩ := hread
  have htool : Carries s.accepted Sample.toolResult.key Sample.origin :=
    Carries.direct (show ⟨Sample.toolResult, [Sample.origin], []⟩ ∈ s.accepted by simp [haccepted])
      (by simp)
  have hreply : Carries s.accepted Sample.reply.key Sample.origin :=
    Carries.inherited
      (show ⟨Sample.reply, [], [("tool/1", "r1")]⟩ ∈ s.accepted by simp [haccepted])
      (List.mem_singleton_self ("tool/1", "r1")) htool
  exact ⟨s, hrun, redactions_target_what_they_select Sample.configuration _ s hrun "erase" _ hrequest rfl
    Sample.reply.key Sample.origin hreply (by decide)⟩

end OpenAgent.Privacy
