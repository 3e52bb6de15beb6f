import OpenAgent.Artifacts.Repository

/-!
# Who reads an artifact

An artifact is read by its owner, or through a link to an undeleted session that its reader sees at that moment. Reading by
the id of an artifact and reading by the place of its bytes come to the same. What a repository may grow by without letting
anybody read more than some digests is a relation between two states of its tables.
-/

namespace OpenAgent.Artifacts

open Lib Option

theorem isSome_foldl_better (candidates : List (Nat × String)) (start : Option (Nat × String)) :
    (candidates.foldl better start).isSome = (start.isSome || !candidates.isEmpty) := by
  induction candidates generalizing start with
  | nil => simp
  | cons candidate rest ih =>
    rw [List.foldl_cons, ih]
    cases start with
    | none => simp [better]
    | some found =>
      by_cases h : candidate.1 > found.1
      · simp [better, h]
      · simp [better, h]

theorem isSome_best {candidates : List (Nat × String)} : (best candidates).isSome = true ↔ ∃ c, c ∈ candidates := by
  rw [best, isSome_foldl_better]
  cases candidates with
  | nil => simp
  | cons candidate rest => simp

namespace Tables

variable {T T' : Tables} {id : Nat} {artifact : Artifact} {access : AccessContext}

theorem liveArtifact_eq_some :
    T.liveArtifact id = some artifact ↔
      T.artifacts.get? id = some artifact ∧ artifact.deleted = false ∧ artifact.available = true := by
  simp [liveArtifact, filter_eq_some_iff]

theorem liveSession_eq_some {tenantId sessionId : String} {found : String × SessionRow} :
    T.liveSession tenantId sessionId = some found ↔
      found.1 = sessionId ∧ T.sessions.get? sessionId = some found.2 ∧ found.2.tenantId = tenantId ∧
        found.2.deleted = false := by
  obtain ⟨name, row⟩ := found
  simp only [liveSession, map_eq_some_iff, filter_eq_some_iff, Bool.and_eq_true, decide_eq_true_eq,
    Bool.not_eq_eq_eq_not, Bool.not_true, Prod.mk.injEq]
  constructor
  · rintro ⟨row', ⟨hrow, htenant, hlive⟩, rfl, rfl⟩
    exact ⟨rfl, hrow, htenant, hlive⟩
  · rintro ⟨rfl, hrow, htenant, hlive⟩
    exact ⟨row, ⟨hrow, htenant, hlive⟩, rfl, rfl⟩

theorem session_of_parent {tenantId sessionId : String} {row : SessionRow} {resource : Resource}
    (h : T.parent tenantId resource = some (sessionId, row)) :
    T.sessions.get? sessionId = some row ∧ row.tenantId = tenantId ∧ row.deleted = false := by
  cases resource with
  | session id =>
    obtain ⟨rfl, hrow, htenant, hlive⟩ := liveSession_eq_some.mp h
    exact ⟨hrow, htenant, hlive⟩
  | message id =>
    obtain ⟨message, -, hlead⟩ := Option.bind_eq_some_iff.mp h
    obtain ⟨rfl, hrow, htenant, hlive⟩ := liveSession_eq_some.mp hlead
    exact ⟨hrow, htenant, hlive⟩
  | toolInvocation id =>
    obtain ⟨tool, -, hlead⟩ := Option.bind_eq_some_iff.mp h
    obtain ⟨rfl, hrow, htenant, hlive⟩ := liveSession_eq_some.mp hlead
    exact ⟨hrow, htenant, hlive⟩

def Opens (T : Tables) (access : AccessContext) (link : Link) : Prop :=
  ∃ sessionId row, T.parent link.tenantId link.resource = some (sessionId, row) ∧
    resourceIsVisible T.acl sessionId row access "view" = true

theorem isSome_candidate {link : Link} : (T.candidate access link).isSome = true ↔ T.Opens access link := by
  rw [isSome_iff_exists]
  constructor
  · rintro ⟨offer, hoffer⟩
    obtain ⟨⟨sessionId, row⟩, hparent, hvisible⟩ := Option.bind_eq_some_iff.mp hoffer
    refine ⟨sessionId, row, hparent, ?_⟩
    by_contra hhidden
    simp [hhidden] at hvisible
  · rintro ⟨sessionId, row, hparent, hvisible⟩
    exact ⟨_, by rw [candidate, hparent, bind_some]; exact if_pos hvisible⟩

/-- `_artifact_access_on_connection` grants through ownership or through a link that opens the artifact. -/
theorem isSome_artifactAccess :
    (T.artifactAccess id artifact access).isSome = true ↔
      artifact.tenantId = access.tenantId ∧
        ((artifact.owner ≠ "" ∧ artifact.owner ∈ access.principalIds) ∨
          ∃ link ∈ T.links, link.tenantId = artifact.tenantId ∧ link.artifactId = id ∧ T.Opens access link) := by
  rw [artifactAccess]
  split
  · rename_i htenant
    simp [htenant]
  rename_i htenant
  rw [not_not] at htenant
  split
  · rename_i howner
    simp [htenant, howner]
  rename_i howner
  rw [isSome_map, isSome_best]
  simp only [htenant, true_and, howner, false_or]
  constructor
  · rintro ⟨offer, hoffer⟩
    obtain ⟨link, hlink, hcandidate⟩ := List.mem_filterMap.mp hoffer
    obtain ⟨hmem, hnames⟩ := List.mem_filter.mp hlink
    simp only [Bool.and_eq_true, decide_eq_true_eq] at hnames
    exact ⟨link, hmem, hnames.1, hnames.2, isSome_candidate.mp (by rw [hcandidate]; rfl)⟩
  · rintro ⟨link, hmem, hlinkTenant, hid, hopens⟩
    obtain ⟨offer, hoffer⟩ := Option.isSome_iff_exists.mp (isSome_candidate.mpr hopens)
    refine ⟨offer, List.mem_filterMap.mpr ⟨link, List.mem_filter.mpr ⟨hmem, ?_⟩, hoffer⟩⟩
    simp [hlinkTenant, hid]

def Reads (T : Tables) (access : AccessContext) (sha256 : String) : Prop :=
  ∃ id artifact name, T.artifactAuthorizedRow id (.context access) = .ok (artifact, name) ∧ artifact.sha256 = sha256

theorem artifactAuthorizedRow_ok {principal : Principal} :
    (∃ name, T.artifactAuthorizedRow id principal = .ok (artifact, name)) ↔
      T.liveArtifact id = some artifact ∧ artifact.sha256 ∈ T.cas ∧
        ∃ own, principal.accessContext = some own ∧ (T.artifactAccess id artifact own).isSome = true := by
  rw [artifactAuthorizedRow]
  constructor
  · rintro ⟨name, hrow⟩
    split at hrow
    · rename_i own found hown hfound
      split at hrow
      · cases hrow
      rename_i displayName haccess
      split at hrow
      · rename_i hcas
        simp only [Except.ok.injEq, Prod.mk.injEq] at hrow
        obtain ⟨rfl, -⟩ := hrow
        exact ⟨hfound, hcas, own, hown, by rw [haccess]; rfl⟩
      · cases hrow
    · cases hrow
  · rintro ⟨hlive, hcas, own, hown, haccess⟩
    obtain ⟨displayName, hname⟩ := Option.isSome_iff_exists.mp haccess
    simp [hown, hlive, hname, hcas]

theorem reads_iff {sha256 : String} :
    T.Reads access sha256 ↔
      ∃ id artifact, T.liveArtifact id = some artifact ∧ artifact.sha256 = sha256 ∧ sha256 ∈ T.cas ∧
        (T.artifactAccess id artifact access).isSome = true := by
  constructor
  · rintro ⟨id, artifact, name, hrow, rfl⟩
    obtain ⟨hlive, hcas, own, hown, haccess⟩ := artifactAuthorizedRow_ok.mp ⟨name, hrow⟩
    cases hown
    exact ⟨id, artifact, hlive, rfl, hcas, haccess⟩
  · rintro ⟨id, artifact, hlive, rfl, hcas, haccess⟩
    obtain ⟨name, hrow⟩ :=
      artifactAuthorizedRow_ok.mpr ⟨hlive, hcas, access, (rfl : (Principal.context access).accessContext = _), haccess⟩
    exact ⟨id, artifact, name, hrow, rfl⟩

theorem reads_of_legacyPath {sha256 : String} {name : Option String}
    (h : T.artifactForLegacyPath sha256 (.context access) = .ok (artifact, name)) : T.Reads access sha256 := by
  simp only [artifactForLegacyPath, Principal.accessContext] at h
  split at h
  · cases h
  rename_i entryId found hfind
  have hmem := List.mem_of_find?_eq_some hfind
  have hplaced := List.find?_some hfind
  simp only [Bool.and_eq_true, decide_eq_true_eq, Bool.not_eq_true'] at hplaced
  obtain ⟨⟨⟨htenant, hsha⟩, hlive⟩, havailable⟩ := hplaced
  split at h
  · cases h
  rename_i displayName haccess
  split at h
  · rename_i hcas
    exact reads_iff.mpr ⟨entryId, found, liveArtifact_eq_some.mpr ⟨Dict.get?_eq_some_iff.mpr hmem, hlive, havailable⟩, hsha,
      hcas, by rw [haccess]; rfl⟩
  · cases h

/-- Nothing but rows, links and bytes of the digests `allowed` holds of is new. -/
structure Grows (allowed : String → Prop) (T T' : Tables) : Prop where
  sessions : T'.sessions = T.sessions
  acl : T'.acl = T.acl
  messages : T'.messages = T.messages
  toolInvocations : T'.toolInvocations = T.toolInvocations
  kept : ∀ id artifact, T.artifacts.get? id = some artifact → T'.artifacts.get? id = some artifact
  artifacts : ∀ id artifact, T'.artifacts.get? id = some artifact →
    T.artifacts.get? id = some artifact ∨ allowed artifact.sha256
  links : ∀ link ∈ T'.links, link ∈ T.links ∨
    ∃ artifact, T'.artifacts.get? link.artifactId = some artifact ∧ allowed artifact.sha256
  cas : ∀ sha256 ∈ T'.cas, sha256 ∈ T.cas ∨ allowed sha256

namespace Grows

variable {allowed : String → Prop} {T'' : Tables}

theorem refl (T : Tables) : Grows allowed T T where
  sessions := rfl
  acl := rfl
  messages := rfl
  toolInvocations := rfl
  kept _ _ h := h
  artifacts _ _ h := .inl h
  links _ h := .inl h
  cas _ h := .inl h

theorem trans (h : Grows allowed T T') (h' : Grows allowed T' T'') : Grows allowed T T'' where
  sessions := h'.sessions.trans h.sessions
  acl := h'.acl.trans h.acl
  messages := h'.messages.trans h.messages
  toolInvocations := h'.toolInvocations.trans h.toolInvocations
  kept id artifact hfound := h'.kept id artifact (h.kept id artifact hfound)
  artifacts id artifact hfound := (h'.artifacts id artifact hfound).elim (h.artifacts id artifact) .inr
  links link hlink := by
    obtain hold | hnew := h'.links link hlink
    · obtain hold | ⟨artifact, hfound, hallowed⟩ := h.links link hold
      · exact .inl hold
      · exact .inr ⟨artifact, h'.kept _ _ hfound, hallowed⟩
    · exact .inr hnew
  cas sha256 hmem := (h'.cas sha256 hmem).elim (h.cas sha256) .inr

theorem parent (h : Grows allowed T T') (tenantId : String) (resource : Resource) :
    T'.parent tenantId resource = T.parent tenantId resource := by
  cases resource with
  | session id => simp only [Tables.parent, liveSession, h.sessions]
  | message id => simp only [Tables.parent, liveSession, h.sessions, h.messages]
  | toolInvocation id => simp only [Tables.parent, liveSession, h.sessions, h.toolInvocations]

theorem reads (h : Grows allowed T T') {sha256 : String} (hreads : T'.Reads access sha256) :
    T.Reads access sha256 ∨ allowed sha256 := by
  obtain ⟨id, artifact, hlive, rfl, hcas, haccess⟩ := reads_iff.mp hreads
  obtain ⟨hfound, hdeleted, havailable⟩ := liveArtifact_eq_some.mp hlive
  obtain hbefore | hallowed := h.artifacts id artifact hfound
  · obtain hstored | hallowed := h.cas _ hcas
    · obtain ⟨htenant, hgranted⟩ := isSome_artifactAccess.mp haccess
      suffices hold : (T.artifactAccess id artifact access).isSome = true ∨ allowed artifact.sha256 by
        obtain hold | hallowed := hold
        · exact .inl (reads_iff.mpr
            ⟨id, artifact, liveArtifact_eq_some.mpr ⟨hbefore, hdeleted, havailable⟩, rfl, hstored, hold⟩)
        · exact .inr hallowed
      obtain howner | ⟨link, hlink, hlinkTenant, hnames, sessionId, row, hparent, hvisible⟩ := hgranted
      · exact .inl (isSome_artifactAccess.mpr ⟨htenant, .inl howner⟩)
      · obtain hlinked | ⟨named, hnamed, hallowed⟩ := h.links link hlink
        · rw [h.parent] at hparent
          rw [h.acl] at hvisible
          exact .inl (isSome_artifactAccess.mpr
            ⟨htenant, .inr ⟨link, hlinked, hlinkTenant, hnames, sessionId, row, hparent, hvisible⟩⟩)
        · rw [hnames, hfound] at hnamed
          cases hnamed
          exact .inr hallowed
    · exact .inr hallowed
  · exact .inr hallowed

end Grows

end Tables

end OpenAgent.Artifacts
