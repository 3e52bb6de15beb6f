import Mathlib.Data.List.Basic
import Mathlib.Data.Rat.Defs

/-!
# Contracts

The transport-independent values every other module passes around: principals, execution contexts,
run requests, the run vocabulary and the errors a store raises. A value that the source validates on
construction carries the outcome of that validation as a field, so no later definition or proof
meets a context without an audience or deferred work that kept a temporary lease.
-/

namespace OpenAgent

inductive Json where
  | null
  | bool (value : Bool)
  | num (value : ℚ)
  | str (value : String)
  | arr (items : List Json)
  | obj (fields : List (String × Json))

namespace Json

mutual

def decEq : (a b : Json) → Decidable (a = b)
  | .null, .null => .isTrue rfl
  | .bool a, .bool b => decidable_of_iff (a = b) (by simp)
  | .num a, .num b => decidable_of_iff (a = b) (by simp)
  | .str a, .str b => decidable_of_iff (a = b) (by simp)
  | .arr a, .arr b => @decidable_of_iff _ (a = b) (by simp) (decEqItems a b)
  | .obj a, .obj b => @decidable_of_iff _ (a = b) (by simp) (decEqFields a b)
  | .null, .bool _ | .null, .num _ | .null, .str _ | .null, .arr _ | .null, .obj _
  | .bool _, .null | .bool _, .num _ | .bool _, .str _ | .bool _, .arr _ | .bool _, .obj _
  | .num _, .null | .num _, .bool _ | .num _, .str _ | .num _, .arr _ | .num _, .obj _
  | .str _, .null | .str _, .bool _ | .str _, .num _ | .str _, .arr _ | .str _, .obj _
  | .arr _, .null | .arr _, .bool _ | .arr _, .num _ | .arr _, .str _ | .arr _, .obj _
  | .obj _, .null | .obj _, .bool _ | .obj _, .num _ | .obj _, .str _ | .obj _, .arr _ =>
    .isFalse (by simp)

def decEqItems : (a b : List Json) → Decidable (a = b)
  | [], [] => .isTrue rfl
  | [], _ :: _ | _ :: _, [] => .isFalse (by simp)
  | x :: xs, y :: ys =>
    match decEq x y, decEqItems xs ys with
    | .isTrue hx, .isTrue hxs => .isTrue (by rw [hx, hxs])
    | .isFalse hx, _ => .isFalse (by simp [hx])
    | _, .isFalse hxs => .isFalse (by simp [hxs])

def decEqFields : (a b : List (String × Json)) → Decidable (a = b)
  | [], [] => .isTrue rfl
  | [], _ :: _ | _ :: _, [] => .isFalse (by simp)
  | (k, x) :: xs, (l, y) :: ys =>
    match decEq x y, decEqFields xs ys with
    | .isTrue hx, .isTrue hxs => decidable_of_iff (k = l) (by simp [hx, hxs])
    | .isFalse hx, _ => .isFalse (by simp [hx])
    | _, .isFalse hxs => .isFalse (by simp [hxs])

end

instance : DecidableEq Json := decEq

instance : Inhabited Json := ⟨.null⟩

/-- `value.get(name)` where `value` is an object. -/
def field (value : Json) (name : String) : Option Json :=
  match value with
  | .obj fields => (fields.find? fun f => f.1 = name).map Prod.snd
  | _ => none

/-- `bool(value)`. -/
def truthy : Json → Bool
  | .null => false
  | .bool b => b
  | .num n => n ≠ 0
  | .str s => s ≠ ""
  | .arr items => !items.isEmpty
  | .obj fields => !fields.isEmpty

end Json

/-! ### Identities -/

/-- The characters `str.strip` removes. -/
def isSpace (c : Char) : Bool :=
  let n := c.toNat
  (9 ≤ n && n ≤ 13) || (28 ≤ n && n ≤ 32) || n = 0x85 || n = 0xa0 || n = 0x1680 ||
    (0x2000 ≤ n && n ≤ 0x200a) || n = 0x2028 || n = 0x2029 || n = 0x202f || n = 0x205f || n = 0x3000

/-- `value.strip()` is not empty. -/
def present (value : String) : Bool := value.toList.any fun c => !isSpace c

structure PrincipalKey where
  authority : String
  tenantId : String
  subjectId : String
  kind : String := "user"
deriving DecidableEq

def PrincipalKey.complete (p : PrincipalKey) : Bool :=
  present p.authority && present p.tenantId && present p.subjectId && present p.kind

structure PrincipalRef extends key : PrincipalKey where
  valid : key.complete = true
deriving DecidableEq

structure CapabilityLease where
  sourceId : String
  instanceId : String
  generation : String
deriving DecidableEq

structure ExecutionContext where
  author : PrincipalRef
  initiator : PrincipalRef
  authority : PrincipalRef
  sessionId : String
  agentId : String
  audience : List PrincipalRef
  scopes : List String := []
  delegationId : Option String := none
  capabilities : List CapabilityLease := []
  ingressId : Option String := none
  parentRunId : Option String := none
  deferred : Bool := false
  explicit : sessionId ≠ "" ∧ agentId ≠ "" ∧ audience ≠ []
  oneTenant : ∀ p ∈ author :: initiator :: audience, p.tenantId = authority.tenantId
  noLeases : deferred = true → capabilities = []
  delegated : deferred = true → delegationId.getD "" ≠ ""
deriving DecidableEq

def ExecutionContext.tenantId (context : ExecutionContext) : String := context.authority.tenantId

/-! ### Requests and runs -/

structure RunRequest where
  runId : String
  sessionId : String
  idempotencyKey : String
  input : String
  deadlineSeconds : Option ℚ := none
  attachments : List Json := []
  modelRef : Option String := none
  steerRunId : Option String := none
  stable : (present runId && present sessionId && present idempotencyKey) = true
  steersOther : steerRunId ≠ some "" ∧ steerRunId ≠ some runId
  positive : ∀ d ∈ deadlineSeconds, 0 < d
deriving DecidableEq

/-- The normalized public statuses of `session_runs`. -/
inductive RunStatus
  | pending | queued | received | running
  | success | failed | cancelled | rejected | interrupted | skipped | timedOut
deriving DecidableEq

def RunStatus.text : RunStatus → String
  | .pending => "pending"
  | .queued => "queued"
  | .received => "received"
  | .running => "running"
  | .success => "success"
  | .failed => "failed"
  | .cancelled => "cancelled"
  | .rejected => "rejected"
  | .interrupted => "interrupted"
  | .skipped => "skipped"
  | .timedOut => "timed_out"

/-- `TERMINAL_STATUSES` -/
def RunStatus.terminal : RunStatus → Bool
  | .success | .failed | .cancelled | .rejected | .interrupted | .skipped | .timedOut => true
  | .pending | .queued | .received | .running => false

/-- A run as its readers see it; `D` is the type of request fingerprints. -/
structure RunRecord (D : Type) where
  runId : String
  sessionId : String
  tenantId : String
  status : RunStatus
  requestDigest : Option D
  output : Option Json := none
  cancelRequested : Bool := false
  parentRunId : Option String := none
deriving DecidableEq

def RunRecord.terminal {D : Type} (record : RunRecord D) : Bool := record.status.terminal

inductive StoreError
  | type (text : String)
  | lookup (text : String)
  | permission (text : String)
  | idempotencyConflict (text : String)
  | value (text : String)
  | runtime (text : String)
  | key (text : String)
  | integrity (text : String)
  | operational (text : String)
  | privacyFence (text : String)
  | privacyConflict (text : String)
deriving DecidableEq

/-! ### The principal, context and request of the contract tests -/

namespace Sample

def alice : PrincipalRef := ⟨⟨"host", "tenant", "alice", "user"⟩, by decide⟩

def context : ExecutionContext where
  author := alice
  initiator := alice
  authority := alice
  sessionId := "s"
  agentId := "agent"
  audience := [alice]
  explicit := by decide
  oneTenant := by decide
  noLeases := by decide
  delegated := by decide

def request : RunRequest where
  runId := "run"
  sessionId := "s"
  idempotencyKey := "run"
  input := "hello"
  stable := by decide
  steersOther := by decide
  positive := by simp

end Sample

end OpenAgent
