import OpenAgent.Lib.Dict

/-!
# Who may see a session

A request comes with whatever the gateway or the host knows of its principal. Access is decided for an access context, which
can be built only from an identity that names a tenant, a kind of principal, a handle and a device. A session is seen by its
owner, by everybody in its tenant where it is shared with all, and by whom a grant names that is as old as its rules.
The texts of an identity are stripped, and one that is absent is empty.
-/

namespace OpenAgent.Artifacts

open Lib

/-- `value or None` -/
def present (text : String) : Option String := if text = "" then none else some text

/-- `AccessContext` -/
structure AccessContext where
  tenantId : String
  principalId : String
  principalType : String
  handle : String
  deviceId : String
  principalIds : List String
  grantIdentities : List (String × String)
deriving DecidableEq

structure Identity where
  tenantId : String := ""
  principalType : String := ""
  handle : String := ""
  deviceId : String := ""
  principalId : String := ""
  mapping : Bool := false
deriving DecidableEq

inductive Principal
  | absent
  | context (access : AccessContext)
  | known (identity : Identity)
deriving DecidableEq

def AccessContext.typed (tenantId principalType handle deviceId : String) : AccessContext where
  tenantId := tenantId
  principalId := principalType ++ ":" ++ handle
  principalType := principalType
  handle := handle
  deviceId := deviceId
  principalIds := [principalType ++ ":" ++ handle, principalType ++ ":" ++ deviceId, "device:" ++ deviceId]
  grantIdentities := [(principalType, handle), (principalType, principalType ++ ":" ++ handle), ("device", deviceId),
    ("device", "device:" ++ deviceId), ("installation", tenantId)]

/-- `from_on_behalf_identity`, where nothing is its `PermissionError`. -/
def AccessContext.fromIdentity (identity : Identity) : Option AccessContext :=
  if identity.mapping = true ∨ identity.principalType ∉ ["user", "agent"] ∨ identity.tenantId = "" ∨ identity.handle = "" ∨
      identity.deviceId = "" then none
  else some (.typed identity.tenantId identity.principalType identity.handle identity.deviceId)

/-- `_access_context` -/
def Principal.accessContext : Principal → Option AccessContext
  | .absent => none
  | .context access => some access
  | .known identity => AccessContext.fromIdentity identity

def principalFields (tenantId principalId principalType handle : String) : Option String × Option String :=
  let kind := if principalType ∈ ["user", "agent"] then principalType else "user"
  (present tenantId, (present principalId).or ((present handle).map fun handle => kind ++ ":" ++ handle))

/-- `_principal_fields`: the tenant and the principal id. -/
def Principal.fields : Principal → Option String × Option String
  | .absent => (none, none)
  | .context access => principalFields access.tenantId access.principalId access.principalType access.handle
  | .known identity => principalFields identity.tenantId identity.principalId identity.principalType identity.handle

/-- `access` is a context the principal itself comes to have, once its identity is complete. -/
def Principal.Has (principal : Principal) (access : AccessContext) : Prop :=
  match principal.accessContext with
  | some own =>
    access = own ∨
      (∃ identity, AccessContext.fromIdentity identity = some access) ∧ access.tenantId = own.tenantId ∧
        access.principalId = own.principalId
  | none =>
    (∃ identity, AccessContext.fromIdentity identity = some access) ∧
      (principal.fields.1 = none ∨ principal.fields.1 = some access.tenantId) ∧
        principal.fields.2 = some access.principalId

/-- `visibility` of `sessions_v2` -/
inductive Visibility
  | isPrivate
  | shared
  | installationShared
  | isPublic
  | quarantined
deriving DecidableEq

/-- A row of `sessions_v2`. -/
structure SessionRow where
  tenantId : String
  owner : Option String
  visibility : Visibility
  aclVersion : Int
  deleted : Bool
deriving DecidableEq

/-- A row of `resource_acl` for a session. -/
structure Grant where
  tenantId : String
  sessionId : String
  principalType : String
  principalId : String
  permission : String
  aclVersion : Int
deriving DecidableEq

def Grant.names (access : AccessContext) (sessionId : String) (row : SessionRow) (permission : String) (grant : Grant) : Bool :=
  decide (grant.tenantId = access.tenantId ∧ grant.sessionId = sessionId ∧
    (grant.principalType, grant.principalId) ∈ access.grantIdentities ∧
    (grant.permission = permission ∨ grant.permission = "admin") ∧ grant.aclVersion = row.aclVersion)

/-- `resource_is_visible` for a session -/
def resourceIsVisible (acl : List Grant) (sessionId : String) (row : SessionRow) (access : AccessContext)
    (permission : String) : Bool :=
  if row.tenantId ≠ access.tenantId ∨ row.visibility = .quarantined then false
  else if row.owner.any (· ∈ access.principalIds) then true
  else if permission ∈ ["view", "search"] ∧ row.visibility ∈ [.installationShared, .isPublic] then true
  else acl.any (Grant.names access sessionId row permission)

variable {acl : List Grant} {sessionId : String} {row : SessionRow} {access : AccessContext}

theorem view_of_admin (h : resourceIsVisible acl sessionId row access "admin" = true) :
    resourceIsVisible acl sessionId row access "view" = true := by
  rw [resourceIsVisible] at h ⊢
  split at h
  · cases h
  rename_i hopen
  rw [if_neg hopen]
  split at h
  · rename_i howner
    rw [if_pos howner]
  rename_i howner
  rw [if_neg howner]
  split at h
  · rename_i hread
    exact absurd hread.1 (by decide)
  split
  · rfl
  obtain ⟨grant, hmem, hgrant⟩ := List.any_eq_true.mp h
  refine List.any_eq_true.mpr ⟨grant, hmem, ?_⟩
  simp only [Grant.names, or_self, decide_eq_true_eq] at hgrant ⊢
  obtain ⟨htenant, hsession, hidentity, hadmin, hversion⟩ := hgrant
  exact ⟨htenant, hsession, hidentity, .inr hadmin, hversion⟩

theorem tenant_of_visible {permission : String} (h : resourceIsVisible acl sessionId row access permission = true) :
    row.tenantId = access.tenantId := by
  rw [resourceIsVisible] at h
  split at h
  · cases h
  · rename_i hopen
    exact not_not.mp (not_or.mp hopen).1

theorem resourceIsVisible_congr {acl' : List Grant} {permission : String}
    (h : ∀ grant, grant.sessionId = sessionId → (grant ∈ acl ↔ grant ∈ acl')) :
    resourceIsVisible acl sessionId row access permission = resourceIsVisible acl' sessionId row access permission := by
  have hany : acl.any (Grant.names access sessionId row permission) = acl'.any (Grant.names access sessionId row permission) := by
    rw [Bool.eq_iff_iff, List.any_eq_true, List.any_eq_true]
    refine exists_congr fun grant => and_congr_left fun hnames => h grant ?_
    simp only [Grant.names, decide_eq_true_eq] at hnames
    exact hnames.2.1
  rw [resourceIsVisible, resourceIsVisible, hany]

end OpenAgent.Artifacts
