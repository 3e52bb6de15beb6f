import OpenAgent.Artifacts.Reading
import OpenAgent.Lib.Transition

/-!
# Naming an artifact

Principals upload, ingest, link, and change the sessions they administer, in any order and with any ids; the server writes
sessions, grants, messages and tool calls of its own, artifacts are deleted and bytes are lost. An ingest and a link ask
whether the named artifact is visible only where the principal has an access context, so the requests that matter are those
of a principal without one. Where each of them names artifacts the principal reads already, what a principal reads after a
step of its own it read before or has brought.
-/

namespace OpenAgent.Artifacts

open Lib List Option

inductive Action
  | ingest (principal : Principal) (request : IngestRequest)
  | link (principal : Principal) (request : LinkRequest)
  | upload (request : UploadRequest)
  | change (principal : Principal) (sessionId : String) (visibility : Visibility) (aclVersion : Int) (deleted : Bool)
      (grants : List Grant)
  | serve (sessions : Dict String SessionRow) (acl : List Grant) (messages : Dict String Message)
      (toolInvocations : Dict String ToolInvocation)
  | decay (keepsArtifact : Nat → Bool) (keepsBytes : String → Bool)

def Action.principal : Action → Option Principal
  | .ingest principal _ => some principal
  | .link principal _ => some principal
  | .upload request => some (.known { tenantId := request.tenantId, principalId := request.key })
  | .change principal _ _ _ _ _ => some principal
  | .serve _ _ _ _ => none
  | .decay _ _ => none

def Action.Supplies (sha256 : String) : Action → Prop
  | .ingest _ request => ∃ raw ∈ request.attachments, raw.file = some (some sha256)
  | .upload request => request.sha256 = sha256
  | _ => False

def Tables.changeSession (T : Tables) (principal : Principal) (sessionId : String) (visibility : Visibility)
    (aclVersion : Int) (deleted : Bool) (grants : List Grant) : Option Tables :=
  match principal.accessContext, T.sessions.get? sessionId with
  | some access, some row =>
    if row.deleted = false ∧ resourceIsVisible T.acl sessionId row access "admin" = true then
      some { T with
        sessions := T.sessions.set sessionId { row with visibility := visibility, aclVersion := aclVersion, deleted := deleted }
        acl := (T.acl.filter fun grant => grant.sessionId ≠ sessionId) ++ (grants.filter fun grant => grant.sessionId = sessionId) }
    else none
  | _, _ => none

def step (T : Tables) : Action → Option Tables
  | .ingest principal request => some (T.persistAttachments principal request).1
  | .link principal request => some (T.linkAttachments principal request).1
  | .upload request => some (T.upload request).1
  | .change principal sessionId visibility aclVersion deleted grants =>
    T.changeSession principal sessionId visibility aclVersion deleted grants
  | .serve sessions acl messages toolInvocations =>
    some { T with sessions := sessions, acl := acl, messages := messages, toolInvocations := toolInvocations }
  | .decay keepsArtifact keepsBytes =>
    some { T with artifacts := T.artifacts.map fun id artifact => { artifact with deleted := artifact.deleted || !keepsArtifact id }
                  cas := T.cas.filter keepsBytes }

def Principal.Reads (principal : Principal) (T : Tables) (sha256 : String) : Prop :=
  ∃ access, principal.Has access ∧ T.Reads access sha256

/-- The artifacts of the tenant that are named are those the principal reads already, unless each of them is asked for. -/
def Principal.Entitled (principal : Principal) (T : Tables) (tenantId : String) (attachments : List Raw) : Prop :=
  principal.accessContext = none → (∃ access, principal.Has access) →
    ∀ raw ∈ attachments, ∀ id, raw.artifactId = some id → ∀ artifact, T.liveArtifact id = some artifact →
      artifact.tenantId = tenantId → principal.Reads T artifact.sha256

def Checked (T : Tables) : Action → Prop
  | .ingest principal request =>
    ∀ tenantId owner, T.ownership request.sessionId principal request.direction = .ok (tenantId, owner) →
      principal.Entitled T tenantId request.attachments
  | .link principal request =>
    ∀ messageId message, T.latestMessage request = some (messageId, message) →
      principal.Entitled T message.tenantId request.attachments
  | _ => True

theorem Principal.has_own {principal : Principal} {access : AccessContext} (h : principal.accessContext = some access) :
    principal.Has access := by
  rw [Principal.Has, h]
  exact .inl rfl

namespace Tables

variable {T T' : Tables} {allowed : String → Prop}

theorem grows_copyIntoCas {sha256 : String} (h : allowed sha256) : Grows allowed T (T.copyIntoCas sha256) where
  sessions := rfl
  acl := rfl
  messages := rfl
  toolInvocations := rfl
  kept _ _ h := h
  artifacts _ _ h := .inl h
  links _ h := .inl h
  cas digest hmem := by
    obtain rfl | hmem := List.mem_cons.mp hmem
    · exact .inr h
    · exact .inl hmem

theorem grows_ensureArtifactRow (tenantId owner filename : String) {sha256 : String} (h : allowed sha256) :
    Grows allowed T (T.ensureArtifactRow tenantId owner sha256 filename).1 ∧
      ∀ id artifact, (T.ensureArtifactRow tenantId owner sha256 filename).2 = some (id, artifact) →
        (T.ensureArtifactRow tenantId owner sha256 filename).1.artifacts.get? id = some artifact ∧
          artifact.sha256 = sha256 := by
  rw [ensureArtifactRow]
  split
  · rename_i entry hfind
    refine ⟨.refl T, fun id artifact hentry => ?_⟩
    cases hentry
    have hplaced := find?_some hfind
    simp only [Bool.and_eq_true, decide_eq_true_eq] at hplaced
    exact ⟨Dict.get?_eq_some_iff.mpr (mem_of_find?_eq_some hfind), hplaced.1.1.2⟩
  · constructor
    · by_cases htaken : (T.artifacts.contains T.minted ||
          T.artifacts.entries.any fun entry => decide (entry.2.tenantId = tenantId ∧ entry.2.sha256 = sha256)) = true
      · simp only [htaken, if_true]
        exact ⟨rfl, rfl, rfl, rfl, fun _ _ h => h, fun _ _ h => .inl h, fun _ h => .inl h, fun _ h => .inl h⟩
      · simp only [htaken]
        have hfresh : T.artifacts.get? T.minted = none := by
          simp only [Bool.or_eq_true, not_or, Dict.contains] at htaken
          exact Option.not_isSome_iff_eq_none.mp htaken.1
        refine ⟨rfl, rfl, rfl, rfl, fun id artifact hfound => ?_, fun id artifact hfound => ?_, fun _ h => .inl h,
          fun _ h => .inl h⟩
        · have hne : id ≠ T.minted := by
            rintro rfl
            simp [hfresh] at hfound
          exact (Dict.get?_set_ne _ _ hne).trans hfound
        · by_cases hid : id = T.minted
          · subst hid
            have hnew := (Dict.get?_set_self _ _ _).symm.trans hfound
            cases hnew
            exact .inr h
          · exact .inl ((Dict.get?_set_ne _ _ hid).symm.trans hfound)
    · intro id artifact hentry
      have hplaced := find?_some hentry
      simp only [Bool.and_eq_true, decide_eq_true_eq] at hplaced
      exact ⟨Dict.get?_eq_some_iff.mpr (mem_of_find?_eq_some hentry), hplaced.1.2⟩

variable {artifact : Artifact}

theorem grows_linked {link : Link} {minted : Nat}
    (hfound : T.artifacts.get? link.artifactId = some artifact) (h : allowed artifact.sha256) :
    Grows allowed T { T with minted := minted, links := T.links ++ [link] } where
  sessions := rfl
  acl := rfl
  messages := rfl
  toolInvocations := rfl
  kept _ _ h := h
  artifacts _ _ h := .inl h
  links other hmem := by
    obtain hmem | hmem := List.mem_append.mp hmem
    · exact .inl hmem
    · cases List.mem_singleton.mp hmem
      exact .inr ⟨artifact, hfound, h⟩
  cas _ h := .inl h

theorem grows_ensureLink (sessionId : String) (relation : Direction) (displayName : String) (existingLinkId : Option Nat)
    {id : Nat} (hfound : T.artifacts.get? id = some artifact) (h : allowed artifact.sha256) :
    Grows allowed T (T.ensureLink id artifact sessionId relation displayName existingLinkId).1 := by
  rw [ensureLink]
  split
  · exact .refl T
  split
  · exact .refl T
  · exact grows_linked hfound h

theorem cas_ensureLink {id : Nat} {sessionId displayName : String} {relation : Direction}
    {existingLinkId : Option Nat} : (T.ensureLink id artifact sessionId relation displayName existingLinkId).1.cas = T.cas := by
  rw [ensureLink]
  split
  · rfl
  split
  · rfl
  · rfl

theorem grows_linkMessage (relation : Direction) (messageId tenantId : String) (ordinal : Nat) (displayName : String)
    {id : Nat} (hfound : T.artifacts.get? id = some artifact) (h : allowed artifact.sha256) :
    Grows allowed T (T.linkMessage relation messageId tenantId ordinal id displayName) ∧
      (T.linkMessage relation messageId tenantId ordinal id displayName).cas = T.cas := by
  rw [linkMessage]
  split
  · exact ⟨.refl T, rfl⟩
  · exact ⟨grows_linked hfound h, rfl⟩

theorem grows_settle {α : Type} {outcome : Tables × Except Refusal α} (h : Grows allowed T outcome.1) :
    Grows allowed T (T.settle outcome).1 := by
  obtain ⟨after, result⟩ := outcome
  cases result with
  | error refusal =>
    exact ⟨rfl, rfl, rfl, rfl, fun _ _ h => h, fun _ _ h => .inl h, fun _ h => .inl h, h.cas⟩
  | ok value => exact h

theorem named_eq_some {raw : Raw} {tenantId : String} {id : Nat}
    (h : (raw.artifactId.bind fun id => ((T.liveArtifact id).filter (·.tenantId = tenantId)).map (id, ·)) =
      some (id, artifact)) :
    raw.artifactId = some id ∧ T.liveArtifact id = some artifact ∧ artifact.tenantId = tenantId := by
  obtain ⟨named, hnamed, hresolved⟩ := Option.bind_eq_some_iff.mp h
  obtain ⟨found, hfound, hpair⟩ := Option.map_eq_some_iff.mp hresolved
  obtain ⟨hlive, htenant⟩ := Option.filter_eq_some_iff.mp hfound
  cases hpair
  exact ⟨hnamed, hlive, of_decide_eq_true htenant⟩

end Tables

open Tables

variable {T T' : Tables} {principal : Principal} {allowed : String → Prop}

theorem allowed_named {tenantId : String} {attachments : List Raw} {raw : Raw} {id : Nat} {artifact : Artifact}
    (hallowed : ∀ sha256, principal.Reads T sha256 → allowed sha256) (hgrown : Grows allowed T T')
    (hsomebody : ∃ access, principal.Has access) (hentitled : principal.Entitled T tenantId attachments)
    (hraw : raw ∈ attachments) (hnamed : raw.artifactId = some id) (hlive : T'.liveArtifact id = some artifact)
    (htenant : artifact.tenantId = tenantId) (hcas : artifact.sha256 ∈ T'.cas)
    (hasked : ¬ (principal.accessContext.any fun access => (T'.artifactAccess id artifact access).isNone) = true) :
    allowed artifact.sha256 := by
  cases hown : principal.accessContext with
  | none =>
    obtain ⟨hfound, hdeleted, havailable⟩ := liveArtifact_eq_some.mp hlive
    obtain hbefore | hnew := hgrown.artifacts id artifact hfound
    · exact hallowed _ (hentitled hown hsomebody raw hraw id hnamed artifact
        (liveArtifact_eq_some.mpr ⟨hbefore, hdeleted, havailable⟩) htenant)
    · exact hnew
  | some access =>
    have hvisible : (T'.artifactAccess id artifact access).isSome = true := by
      rw [hown, any_some, Bool.not_eq_true, isNone_eq_false_iff] at hasked
      exact hasked
    obtain hreads | hnew := hgrown.reads (reads_iff.mpr ⟨id, artifact, hlive, rfl, hcas, hvisible⟩)
    · exact hallowed _ ⟨access, Principal.has_own hown, hreads⟩
    · exact hnew

section Ingest

variable {request : IngestRequest} {tenantId owner : String}

theorem grows_persistOne (hallowed : ∀ sha256, principal.Reads T sha256 → allowed sha256)
    (hsomebody : ∃ access, principal.Has access) (hentitled : principal.Entitled T tenantId request.attachments) {raw : Raw}
    (hraw : raw ∈ request.attachments) (hbrought : ∀ sha256, raw.file = some (some sha256) → allowed sha256)
    (hgrown : Grows allowed T T') : Grows allowed T (T'.persistOne principal request tenantId owner raw).1 := by
  rw [persistOne]
  split
  · rename_i id existing hresolved
    obtain ⟨hnamed, hlive, htenant⟩ := named_eq_some hresolved
    split
    · exact hgrown
    rename_i hasked
    split
    · exact hgrown
    rename_i hcas
    have hnew := allowed_named hallowed hgrown hsomebody hentitled hraw hnamed hlive htenant (not_not.mp hcas) hasked
    exact hgrown.trans (grows_ensureLink _ _ _ _ (liveArtifact_eq_some.mp hlive).1 hnew)
  · split
    · exact hgrown
    rename_i file hfile
    split
    · exact hgrown
    split
    · exact hgrown
    rename_i sha256
    have hnew := hbrought sha256 hfile
    have hcopied := hgrown.trans (grows_copyIntoCas hnew)
    obtain ⟨hrow, hfound⟩ :=
      grows_ensureArtifactRow (T := T'.copyIntoCas sha256) tenantId owner raw.filename hnew
    split
    rename_i after row hmade
    rw [hmade] at hrow hfound
    split
    · exact hcopied.trans hrow
    rename_i id artifact
    obtain ⟨hget, hsha⟩ := hfound id artifact rfl
    rw [← hsha] at hnew
    exact (hcopied.trans hrow).trans (grows_ensureLink _ _ _ _ hget hnew)

theorem grows_persistEach (hallowed : ∀ sha256, principal.Reads T sha256 → allowed sha256)
    (hsomebody : ∃ access, principal.Has access) (hentitled : principal.Entitled T tenantId request.attachments)
    {attachments : List Raw} (hsub : ∀ raw ∈ attachments, raw ∈ request.attachments)
    (hbrought : ∀ raw ∈ attachments, ∀ sha256, raw.file = some (some sha256) → allowed sha256) (hgrown : Grows allowed T T') :
    Grows allowed T (T'.persistEach principal request tenantId owner attachments).1 := by
  induction attachments generalizing T' with
  | nil => exact hgrown
  | cons raw rest ih =>
    have hone : Grows allowed T (T'.persistOne principal request tenantId owner raw).1 :=
      grows_persistOne hallowed hsomebody hentitled (hsub raw mem_cons_self) (hbrought raw mem_cons_self) hgrown
    rw [persistEach]
    split
    · rename_i hfirst
      rw [hfirst] at hone
      exact hone
    rename_i after reference hfirst
    rw [hfirst] at hone
    have hrest := ih (fun raw hmem => hsub raw (mem_cons_of_mem _ hmem))
      (fun raw hmem => hbrought raw (mem_cons_of_mem _ hmem)) hone
    split
    · rename_i hlast
      rw [hlast] at hrest
      exact hrest
    · rename_i hlast
      rw [hlast] at hrest
      exact hrest

theorem grows_persistAttachments (hallowed : ∀ sha256, principal.Reads T sha256 → allowed sha256)
    (hsomebody : ∃ access, principal.Has access) (hchecked : Checked T (.ingest principal request))
    (hbrought : ∀ raw ∈ request.attachments, ∀ sha256, raw.file = some (some sha256) → allowed sha256) :
    Grows allowed T (T.persistAttachments principal request).1 := by
  rw [persistAttachments]
  split
  · exact .refl T
  split
  · exact .refl T
  · rename_i tenantId owner hownership
    exact grows_settle
      (grows_persistEach hallowed hsomebody (hchecked tenantId owner hownership) (fun _ h => h) hbrought (.refl T))

end Ingest

section Links

variable {request : LinkRequest} {messageId tenantId : String}

theorem grows_linkOne (hallowed : ∀ sha256, principal.Reads T sha256 → allowed sha256)
    (hlost : ∀ sha256, sha256 ∉ T.cas → allowed sha256) (hsomebody : ∃ access, principal.Has access)
    (hentitled : principal.Entitled T tenantId request.attachments) {raw : Raw} (hraw : raw ∈ request.attachments)
    {ordinal : Nat} (hgrown : Grows allowed T T' ∧ T'.cas = T.cas) :
    Grows allowed T (T'.linkOne principal request messageId tenantId ordinal raw) ∧
      (T'.linkOne principal request messageId tenantId ordinal raw).cas = T.cas := by
  obtain ⟨hgrown, hbytes⟩ := hgrown
  rw [linkOne]
  split
  · exact ⟨hgrown, hbytes⟩
  rename_i id artifact hresolved
  obtain ⟨hnamed, hlive, htenant⟩ := named_eq_some hresolved
  split
  · exact ⟨hgrown, hbytes⟩
  rename_i hasked
  -- Unlike the ingest the helper does not look at the bytes; what has none is not read.
  have hnew : allowed artifact.sha256 := by
    by_cases hcas : artifact.sha256 ∈ T'.cas
    · exact allowed_named hallowed hgrown hsomebody hentitled hraw hnamed hlive htenant hcas hasked
    · rw [hbytes] at hcas
      exact hlost _ hcas
  have hget := (liveArtifact_eq_some.mp hlive).1
  generalize (if raw.filename = "" then artifact.originalFilename else raw.filename) = filename
  generalize (T'.links.any fun link => link.tenantId = tenantId && link.artifactId = id &&
    link.resource = .session request.sessionId) = inherited
  cases inherited with
  | true =>
    obtain ⟨hmessage, hmessageBytes⟩ := grows_linkMessage request.relation messageId tenantId ordinal filename hget hnew
    exact ⟨hgrown.trans hmessage, hmessageBytes.trans hbytes⟩
  | false =>
    have hsession := grows_ensureLink request.sessionId request.relation filename none hget hnew
    obtain ⟨hmessage, hmessageBytes⟩ :=
      grows_linkMessage request.relation messageId tenantId ordinal filename (hsession.kept id artifact hget) hnew
    exact ⟨(hgrown.trans hsession).trans hmessage, (hmessageBytes.trans cas_ensureLink).trans hbytes⟩

theorem grows_linkEach (hallowed : ∀ sha256, principal.Reads T sha256 → allowed sha256)
    (hlost : ∀ sha256, sha256 ∉ T.cas → allowed sha256) (hsomebody : ∃ access, principal.Has access)
    (hentitled : principal.Entitled T tenantId request.attachments) {attachments : List Raw}
    (hsub : ∀ raw ∈ attachments, raw ∈ request.attachments) {ordinal : Nat}
    (hgrown : Grows allowed T T' ∧ T'.cas = T.cas) :
    Grows allowed T (T'.linkEach principal request messageId tenantId ordinal attachments) ∧
      (T'.linkEach principal request messageId tenantId ordinal attachments).cas = T.cas := by
  induction attachments generalizing T' ordinal with
  | nil => exact hgrown
  | cons raw rest ih =>
    rw [linkEach]
    exact ih (fun raw hmem => hsub raw (mem_cons_of_mem _ hmem))
      (grows_linkOne hallowed hlost hsomebody hentitled (hsub raw mem_cons_self) hgrown)

theorem grows_linkAttachments (hallowed : ∀ sha256, principal.Reads T sha256 → allowed sha256)
    (hlost : ∀ sha256, sha256 ∉ T.cas → allowed sha256) (hsomebody : ∃ access, principal.Has access)
    (hchecked : Checked T (.link principal request)) :
    Grows allowed T (T.linkAttachments principal request).1 ∧ (T.linkAttachments principal request).1.cas = T.cas := by
  rw [linkAttachments]
  split
  · exact ⟨.refl T, rfl⟩
  split
  · exact ⟨.refl T, rfl⟩
  rename_i messageId message hlatest
  split
  · exact ⟨.refl T, rfl⟩
  split
  · exact ⟨.refl T, rfl⟩
  · exact grows_linkEach hallowed hlost hsomebody (hchecked messageId message hlatest) (fun _ h => h) ⟨.refl T, rfl⟩

end Links

theorem grows_register {request : UploadRequest} (hbrought : allowed request.sha256) :
    Grows allowed T (T.register request).1 := by
  obtain ⟨hrow, hfound⟩ := grows_ensureArtifactRow (T := T) request.tenantId request.key request.filename hbrought
  rw [register]
  split
  rename_i after row hmade
  rw [hmade] at hrow hfound
  split
  · exact hrow
  rename_i id artifact
  obtain ⟨hget, hsha⟩ := hfound id artifact rfl
  rw [← hsha] at hbrought
  split
  · exact hrow
  · exact hrow.trans (grows_ensureLink _ _ _ _ hget hbrought)

theorem grows_upload {request : UploadRequest} (hbrought : allowed request.sha256) :
    Grows allowed T (T.upload request).1 := by
  have hcopied : Grows allowed T (T.copyIntoCas request.sha256) := grows_copyIntoCas hbrought
  rw [upload]
  split
  · exact .refl T
  dsimp only
  split
  · exact hcopied
  · exact hcopied.trans (grows_settle (grows_register hbrought))

section Changes

variable {sessionId : String} {row changed : SessionRow}

theorem liveSession_of_changed (hsessions : T'.sessions = T.sessions.set sessionId changed)
    (hrow : T.sessions.get? sessionId = some row) (hlive : row.deleted = false) (htenant : changed.tenantId = row.tenantId)
    {tenantId name : String} {found : String × SessionRow} (h : T'.liveSession tenantId name = some found) :
    ∃ before, T.liveSession tenantId name = some (found.1, before) ∧ (found.1 ≠ sessionId → before = found.2) ∧
      (found.1 = sessionId → before = row) := by
  obtain ⟨hname, hget, hfoundTenant, hfoundLive⟩ := liveSession_eq_some.mp h
  rw [hsessions] at hget
  by_cases hsame : name = sessionId
  · subst hsame
    rw [Dict.get?_set_self, Option.some.injEq] at hget
    rw [← hget, htenant] at hfoundTenant
    exact ⟨row, liveSession_eq_some.mpr ⟨hname, hrow, hfoundTenant, hlive⟩, fun hne => absurd hname hne, fun _ => rfl⟩
  · rw [Dict.get?_set_ne _ _ hsame] at hget
    exact ⟨found.2, liveSession_eq_some.mpr ⟨hname, hget, hfoundTenant, hfoundLive⟩, fun _ => rfl,
      fun heq => absurd (hname.symm.trans heq) hsame⟩

theorem parent_of_changed {tenantId : String} {resource : Resource} {found : String × SessionRow}
    (h : T'.parent tenantId resource = some found) (hsessions : T'.sessions = T.sessions.set sessionId changed)
    (hmessages : T'.messages = T.messages) (htools : T'.toolInvocations = T.toolInvocations)
    (hrow : T.sessions.get? sessionId = some row) (hlive : row.deleted = false) (htenant : changed.tenantId = row.tenantId) :
    ∃ before, T.parent tenantId resource = some (found.1, before) ∧ (found.1 ≠ sessionId → before = found.2) ∧
      (found.1 = sessionId → before = row) := by
  cases resource with
  | session id => exact liveSession_of_changed hsessions hrow hlive htenant h
  | message id =>
    simp only [parent, hmessages] at h ⊢
    obtain ⟨message, hmessage, hlead⟩ := Option.bind_eq_some_iff.mp h
    rw [hmessage]
    exact liveSession_of_changed hsessions hrow hlive htenant hlead
  | toolInvocation id =>
    simp only [parent, htools] at h ⊢
    obtain ⟨tool, htool, hlead⟩ := Option.bind_eq_some_iff.mp h
    rw [htool]
    exact liveSession_of_changed hsessions hrow hlive htenant hlead

theorem reads_of_changeSession {visibility : Visibility} {aclVersion : Int} {deleted : Bool} {grants : List Grant}
    (h : T.changeSession principal sessionId visibility aclVersion deleted grants = some T') {sha256 : String}
    (hreads : principal.Reads T' sha256) : principal.Reads T sha256 := by
  rw [changeSession] at h
  split at h
  · rename_i own row hown hrow
    split at h
    · rename_i hadmin
      obtain ⟨hlive, hadmin⟩ := hadmin
      cases h
      obtain ⟨access, hhas, hreads⟩ := hreads
      obtain ⟨id, artifact, hartifact, hsha, hcas, haccess⟩ := reads_iff.mp hreads
      obtain ⟨htenant, howner | ⟨link, hlink, hlinkTenant, hnames, name, found, hparent, hvisible⟩⟩ :=
        isSome_artifactAccess.mp haccess
      · exact ⟨access, hhas, reads_iff.mpr
          ⟨id, artifact, hartifact, hsha, hcas, isSome_artifactAccess.mpr ⟨htenant, .inl howner⟩⟩⟩
      obtain ⟨before, hbefore, hother, hself⟩ := parent_of_changed (T := T) hparent rfl rfl rfl hrow hlive rfl
      by_cases hsame : name = sessionId
      · obtain rfl := hself hsame
        have hview := view_of_admin hadmin
        have hlead := (session_of_parent hbefore).2.1
        refine ⟨own, Principal.has_own hown, reads_iff.mpr ⟨id, artifact, hartifact, hsha, hcas,
          isSome_artifactAccess.mpr ⟨?_, .inr ⟨link, hlink, hlinkTenant, hnames, name, before, hbefore, ?_⟩⟩⟩⟩
        · rw [← hlinkTenant, ← hlead, tenant_of_visible hview]
        · rw [hsame]
          exact hview
      · obtain rfl := hother hsame
        refine ⟨access, hhas, reads_iff.mpr ⟨id, artifact, hartifact, hsha, hcas,
          isSome_artifactAccess.mpr ⟨htenant, .inr ⟨link, hlink, hlinkTenant, hnames, name, before, hbefore, ?_⟩⟩⟩⟩
        rw [← hvisible]
        refine resourceIsVisible_congr fun grant hgrant => ?_
        have hne : grant.sessionId ≠ sessionId := by
          rw [hgrant]
          exact hsame
        simp [hne]
    · cases h
  · cases h

end Changes

theorem reads_of_step {action : Action} (hstep : step T action = some T') (hprincipal : action.principal = some principal)
    (hchecked : Checked T action) {sha256 : String} (hreads : principal.Reads T' sha256) :
    principal.Reads T sha256 ∨ action.Supplies sha256 := by
  have hsomebody : ∃ access, principal.Has access := hreads.imp fun _ h => h.1
  obtain ⟨access, hhas, hafter⟩ := hreads
  have hbefore : ∀ sha256, T.Reads access sha256 → principal.Reads T sha256 := fun _ h => ⟨access, hhas, h⟩
  cases action with
  | ingest asker request =>
    obtain rfl := some.inj hprincipal
    cases hstep
    have hgrown : Grows (fun digest => asker.Reads T digest ∨ (Action.ingest asker request).Supplies digest) T
        (T.persistAttachments asker request).1 :=
      grows_persistAttachments (fun _ h => .inl h) hsomebody hchecked fun raw hraw _ hfile => .inr ⟨raw, hraw, hfile⟩
    exact (hgrown.reads hafter).elim (fun h => .inl (hbefore _ h)) id
  | link asker request =>
    obtain rfl := some.inj hprincipal
    cases hstep
    have hgrown : Grows (fun digest => asker.Reads T digest ∨ digest ∉ T.cas) T (T.linkAttachments asker request).1 ∧
        (T.linkAttachments asker request).1.cas = T.cas :=
      grows_linkAttachments (fun _ h => .inl h) (fun _ h => .inr h) hsomebody hchecked
    obtain ⟨hgrown, hbytes⟩ := hgrown
    have hstored : sha256 ∈ T.cas := by
      rw [← hbytes]
      exact (reads_iff.mp hafter).elim fun _ h => h.elim fun _ h => h.2.2.1
    obtain hreads | hreads | hlost := hgrown.reads hafter
    · exact .inl (hbefore _ hreads)
    · exact .inl hreads
    · exact absurd hstored hlost
  | upload request =>
    cases hprincipal
    cases hstep
    have hgrown : Grows (fun digest => request.sha256 = digest) T (T.upload request).1 := grows_upload rfl
    exact (hgrown.reads hafter).imp (hbefore _) id
  | change asker sessionId visibility aclVersion deleted grants =>
    cases hprincipal
    exact .inl (reads_of_changeSession hstep ⟨access, hhas, hafter⟩)
  | serve sessions acl messages toolInvocations => cases hprincipal
  | decay keepsArtifact keepsBytes => cases hprincipal

theorem opened_of_read {id : Nat} {artifact : Artifact} {name : Option String}
    (h : T.artifactAuthorizedRow id principal = .ok (artifact, name)) :
    ∃ access, principal.accessContext = some access ∧
      (artifact.owner ∈ access.principalIds ∨
        ∃ link ∈ T.links, link.artifactId = id ∧
          ∃ sessionId row, T.parent link.tenantId link.resource = some (sessionId, row) ∧ row.deleted = false ∧
            resourceIsVisible T.acl sessionId row access "view" = true) := by
  obtain ⟨-, -, access, hown, haccess⟩ := artifactAuthorizedRow_ok.mp ⟨name, h⟩
  refine ⟨access, hown, ?_⟩
  obtain ⟨-, howner | ⟨link, hlink, -, hnames, sessionId, row, hparent, hvisible⟩⟩ := isSome_artifactAccess.mp haccess
  · exact .inl howner.2
  · exact .inr ⟨link, hlink, hnames, sessionId, row, hparent, (session_of_parent hparent).2.2, hvisible⟩

/-- Naming an artifact grants nothing in a run whose requests are all checked, and whoever reads an artifact owns it or sees a
session that leads to it. -/
theorem naming_grants_nothing_when_checked {T : Tables} {actions : List Action}
    (hchecked : Along step Checked T actions) :
    (∀ front action M M', front ++ [action] <+: actions → run step T front = some M → step M action = some M' →
      ∀ principal, action.principal = some principal → ∀ sha256, principal.Reads M' sha256 →
        principal.Reads M sha256 ∨ action.Supplies sha256) ∧
    ∀ front M, front <+: actions → run step T front = some M →
      ∀ principal id artifact name, M.artifactAuthorizedRow id principal = .ok (artifact, name) →
        ∃ access, principal.accessContext = some access ∧
          (artifact.owner ∈ access.principalIds ∨
            ∃ link ∈ M.links, link.artifactId = id ∧
              ∃ sessionId row, M.parent link.tenantId link.resource = some (sessionId, row) ∧ row.deleted = false ∧
                resourceIsVisible M.acl sessionId row access "view" = true) := by
  constructor
  · intro front action M M' hfront hreached hstep principal hprincipal sha256 hreads
    exact reads_of_step hstep hprincipal (along_iff.mp hchecked front action M hfront hreached) hreads
  · intro front M hfront hreached principal id artifact name hread
    exact opened_of_read hread

namespace Sample

def installation : Tables where
  networkId := "home"
  sessions := Dict.empty.set "notes" ⟨"home", some "user:alice", .isPrivate, 1, false⟩
  acl := []
  artifacts := Dict.empty
  links := []
  messages := Dict.empty
  toolInvocations := Dict.empty
  cas := []
  minted := 0

def alice : Principal := .known { tenantId := "home", principalType := "user", handle := "alice", deviceId := "phone" }

def aliceAway : Principal := .known { tenantId := "home", principalType := "user", handle := "alice" }

def bobUploads : Action := .upload ⟨"home", "agent:bob", "5ec2e7", "plan.txt", "", true, true⟩

def names (principal : Principal) : Action := .ingest principal ⟨"notes", .input, false, [{ artifactId := some 0 }]⟩

theorem not_bob {access : AccessContext} (h : aliceAway.Has access) : "agent:bob" ∉ access.principalIds := by
  obtain ⟨⟨identity, hidentity⟩, -, hid⟩ := h
  rw [AccessContext.fromIdentity] at hidentity
  split at hidentity
  · cases hidentity
  rename_i hcomplete
  cases hidentity
  have hkind : identity.principalType = "user" ∨ identity.principalType = "agent" := by
    simp only [not_or, not_not] at hcomplete
    simpa using hcomplete.2.1
  have hname : "user:alice" = identity.principalType ++ ":" ++ identity.handle := some.inj hid
  intro hmem
  simp only [AccessContext.typed, mem_cons, not_mem_nil, or_false, ← hname] at hmem
  obtain hmem | hmem | hmem := hmem
  · exact absurd hmem (by decide)
  · obtain hkind | hkind := hkind
    · rw [hkind] at hmem
      have hchars := congrArg String.toList hmem
      simp [String.toList_append] at hchars
    · rw [hkind] at hname
      have hchars := congrArg String.toList hname
      simp [String.toList_append] at hchars
  · have hchars := congrArg String.toList hmem
    simp [String.toList_append] at hchars

theorem upload_is_stored :
    ∃ M, run step installation [bobUploads] = some M ∧ M.links = [] ∧
      M.artifacts.entries = [(0, ⟨"home", "agent:bob", "plan.txt", "5ec2e7", false, true⟩)] := by
  have htrace : (run step installation [bobUploads]).map (fun M => (M.links, M.artifacts.entries)) =
      some ([], [(0, ⟨"home", "agent:bob", "plan.txt", "5ec2e7", false, true⟩)]) := by
    rfl
  obtain ⟨M, hrun, hM⟩ := Option.map_eq_some_iff.mp htrace
  obtain ⟨hlinks, hentries⟩ := Prod.mk.inj hM
  exact ⟨M, hrun, hlinks, hentries⟩

end Sample

/-- Alice names what Bob has brought, and reads nothing by it. -/
theorem named_upload_stays_closed :
    ∃ M M', run step Sample.installation [Sample.bobUploads] = some M ∧ step M (Sample.names Sample.alice) = some M' ∧
      ∀ sha256, Sample.alice.Reads M' sha256 →
        Sample.alice.Reads M sha256 ∨ (Sample.names Sample.alice).Supplies sha256 := by
  obtain ⟨M, hrun, -⟩ := Sample.upload_is_stored
  refine ⟨M, (M.persistAttachments Sample.alice ⟨"notes", .input, false, [{ artifactId := some 0 }]⟩).1, hrun, rfl, ?_⟩
  have hchecked : Along step Checked Sample.installation [Sample.bobUploads, Sample.names Sample.alice] := by
    refine ⟨trivial, fun s' _ => ⟨fun tenantId owner _ hnone => ?_, fun _ _ => trivial⟩⟩
    cases hnone
  exact (naming_grants_nothing_when_checked hchecked).1 [Sample.bobUploads] (Sample.names Sample.alice) M _
    (List.prefix_refl _) hrun rfl Sample.alice rfl

/-- Without her device the same request makes Bob's bytes readable to Alice. -/
theorem deviceless_request_opens_the_artifact :
    ∃ M M', run step Sample.installation [Sample.bobUploads] = some M ∧ step M (Sample.names Sample.aliceAway) = some M' ∧
      Sample.aliceAway.Reads M' "5ec2e7" ∧ ¬ Sample.aliceAway.Reads M "5ec2e7" ∧
        ¬ (Sample.names Sample.aliceAway).Supplies "5ec2e7" := by
  obtain ⟨M, hrun, hlinks, hentries⟩ := Sample.upload_is_stored
  refine ⟨M, (M.persistAttachments Sample.aliceAway ⟨"notes", .input, false, [{ artifactId := some 0 }]⟩).1, hrun, rfl,
    ?_, ?_, ?_⟩
  · refine ⟨.typed "home" "user" "alice" "phone", ?_, ?_⟩
    · exact ⟨⟨⟨"home", "user", "alice", "phone", "", false⟩, by decide⟩, .inr (by decide), by decide⟩
    · have hread : (run step Sample.installation [Sample.bobUploads, Sample.names Sample.aliceAway]).map (fun after =>
          after.artifactAuthorizedRow 0 (.context (.typed "home" "user" "alice" "phone"))) =
          some (.ok (⟨"home", "agent:bob", "plan.txt", "5ec2e7", false, true⟩, some "plan.txt")) := by
        rfl
      obtain ⟨after, hafter, hrow⟩ := Option.map_eq_some_iff.mp hread
      obtain ⟨M', hM', hlast⟩ := run_append.mp (show run step Sample.installation
        ([Sample.bobUploads] ++ [Sample.names Sample.aliceAway]) = some after from hafter)
      rw [hrun] at hM'
      cases hM'
      obtain ⟨last, hstep, hend⟩ := run_cons.mp hlast
      cases hstep
      cases hend
      exact ⟨0, _, _, hrow, rfl⟩
  · rintro ⟨access, hhas, hreads⟩
    obtain ⟨id, artifact, hlive, -, -, haccess⟩ := reads_iff.mp hreads
    have hmem := Dict.get?_eq_some_iff.mp (liveArtifact_eq_some.mp hlive).1
    rw [hentries, List.mem_singleton] at hmem
    cases hmem
    obtain ⟨-, ⟨-, howner⟩ | ⟨link, hlink, -⟩⟩ := isSome_artifactAccess.mp haccess
    · exact Sample.not_bob hhas howner
    · simp [hlinks] at hlink
  · rintro ⟨raw, hraw, hfile⟩
    cases List.mem_singleton.mp hraw
    cases hfile

end OpenAgent.Artifacts
