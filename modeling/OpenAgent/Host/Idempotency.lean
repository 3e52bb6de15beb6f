import OpenAgent.Lib.Dict
import OpenAgent.Lib.Transaction

/-!
# The idempotency ledger

One row for each principal and idempotency key, shared by every host on the same state database. A
claim inserts the row, replays its result, takes over the row of a call that is safe to repeat, or
raises. An operation that raises is rolled back with everything it wrote, so the update by which a
claim marks an expired row indeterminate before it raises is never seen.

`F` is the type of request fingerprints and `R` that of tool results. A row remembers the call that
inserted it; nothing the ledger computes depends on that.
-/

namespace OpenAgent.Host

open Lib Lib.Tx

inductive ToolClassification
  | readOnly | idempotent | mutating
  | other (value : String)
deriving DecidableEq

inductive HostException
  | host (code message : String)
  | python (text : String)
deriving DecidableEq

inductive ClaimState
  | executing | done | indeterminate
deriving DecidableEq

/-- A row of `idempotency`. -/
structure ClaimRow (F R : Type) where
  fingerprint : F
  state : ClaimState
  owner : Nat
  result : Option R := none
  leaseUntil : Option Int
  expiresAt : Int
  claimant : Nat
deriving DecidableEq

abbrev Claims (F R : Type) := Dict (String × String) (ClaimRow F R)

inductive Claim (R : Type)
  | new
  | replay (result : R)
deriving DecidableEq

/-- `result_ttl_seconds` and `inflight_lease_seconds`. -/
structure LedgerConfig where
  resultTtl : Int
  inflightLease : Int

variable {F R : Type}

/-- The condition every write of an owner has in its `WHERE` clause. -/
def ClaimRow.heldBy (row : ClaimRow F R) (owner : Nat) : Bool :=
  row.state = .executing && row.owner = owner

def ClaimRow.expired (row : ClaimRow F R) (now : Int) : Bool :=
  row.state = .done && decide (row.expiresAt ≤ now)

/-- `DELETE FROM idempotency WHERE state='done' AND expires_at <= ?` -/
def purge (now : Int) (claims : Claims F R) : Claims F R :=
  claims.filter fun _ row => !row.expired now

def claimedRow (config : LedgerConfig) (owner call : Nat) (fingerprint : F) (now : Int) :
    ClaimRow F R where
  fingerprint := fingerprint
  state := .executing
  owner := owner
  leaseUntil := some (now + config.inflightLease)
  expiresAt := now + config.resultTtl
  claimant := call

def ClaimRow.takenOver (config : LedgerConfig) (owner : Nat) (now : Int) (row : ClaimRow F R) :
    ClaimRow F R :=
  { row with
    owner := owner
    leaseUntil := some (now + config.inflightLease)
    expiresAt := now + config.resultTtl }

def conflict : HostException :=
  .host "idempotency_conflict" "idempotency key was already used for different arguments"

def inFlight : HostException :=
  .host "idempotency_in_flight" "a call with this idempotency key is already running"

def indeterminate : HostException :=
  .host "idempotency_indeterminate"
    "the previous mutation may have completed before its result was recorded"

def claimLost : HostException := .host "idempotency_lost" "idempotency claim was lost"

/-- `_claim_sync` -/
def claim (config : LedgerConfig) (owner call : Nat) (key : String × String) (fingerprint : F)
    (retryStale : Bool) (now : Int) [DecidableEq F] : Tx (Claims F R) HostException (Claim R) := do
  modify (purge now)
  let claims ← get
  match claims.get? key with
  | none =>
    set (claims.set key (claimedRow config owner call fingerprint now))
    return .new
  | some row =>
    raiseIf (row.fingerprint ≠ fingerprint) conflict
    match row.state with
    | .done =>
      let result ← orRaise row.result (.python "the JSON object must be str, bytes or bytearray")
      return .replay result
    | .executing =>
      if retryStale ∧ row.owner ≠ owner then
        set (claims.set key (row.takenOver config owner now))
        return .new
      raiseIf (now < row.leaseUntil.getD 0) inFlight
      if retryStale then
        set (claims.set key (row.takenOver config owner now))
        return .new
      set (claims.set key { row with state := .indeterminate })
      throw indeterminate
    | .indeterminate => throw indeterminate

/-- `_renew_sync` -/
def renewClaim (config : LedgerConfig) (owner : Nat) (key : String × String) (now : Int)
    (claims : Claims F R) : Claims F R :=
  claims.update key fun row =>
    if row.heldBy owner then { row with leaseUntil := some (now + config.inflightLease) } else row

/-- `_complete_sync` -/
def complete (config : LedgerConfig) (owner : Nat) (key : String × String) (result : R) (now : Int) :
    Tx (Claims F R) HostException Unit := do
  let claims ← get
  let row ← orRaise ((claims.get? key).filter fun row => row.heldBy owner) claimLost
  set (claims.set key { row with
    state := .done
    result := some result
    leaseUntil := none
    expiresAt := now + config.resultTtl })

/-- `_abandon_sync` -/
def abandon (owner : Nat) (key : String × String) (claims : Claims F R) : Claims F R :=
  match (claims.get? key).filter fun row => row.heldBy owner with
  | some _ => claims.pop key
  | none => claims

/-- `_mark_indeterminate_sync` -/
def markIndeterminate (owner : Nat) (key : String × String) (claims : Claims F R) : Claims F R :=
  claims.update key fun row =>
    if row.heldBy owner then { row with state := .indeterminate, leaseUntil := none } else row

/-! ### What the operations do -/

/-- What a claim does: it inserts a row where none is left, replays a result, takes over an open row
for a call that is safe to repeat, or raises; what it raises says how the row stood in its way. -/
inductive Claimed (config : LedgerConfig) (owner call : Nat) (key : String × String) (fingerprint : F)
    (retryStale : Bool) (now : Int) (claims : Claims F R) :
    Except HostException (Claim R) → Claims F R → Prop
  | inserted (hnone : (purge now claims).get? key = none) :
      Claimed config owner call key fingerprint retryStale now claims (.ok .new)
        ((purge now claims).set key (claimedRow config owner call fingerprint now))
  | replayed {row : ClaimRow F R} {result : R} (hrow : (purge now claims).get? key = some row)
      (hsame : row.fingerprint = fingerprint) (hdone : row.state = .done)
      (hresult : row.result = some result) :
      Claimed config owner call key fingerprint retryStale now claims (.ok (.replay result))
        (purge now claims)
  | takenOver {row : ClaimRow F R} (hrow : (purge now claims).get? key = some row)
      (hsame : row.fingerprint = fingerprint) (hopen : row.state = .executing)
      (hstale : retryStale = true) :
      Claimed config owner call key fingerprint retryStale now claims (.ok .new)
        ((purge now claims).set key (row.takenOver config owner now))
  | raised {row : ClaimRow F R} {e : HostException} (hrow : (purge now claims).get? key = some row)
      (hconflict : row.fingerprint ≠ fingerprint ↔ e = conflict)
      (hreason : row.fingerprint = fingerprint →
        e = inFlight ∧ row.state = .executing ∨ e = indeterminate ∧ row.state ≠ .done ∨
          row.state = .done ∧ row.result = none) :
      Claimed config owner call key fingerprint retryStale now claims (.error e) claims

variable [DecidableEq F]

end OpenAgent.Host
