import OpenAgent.Host.Idempotency

/-!
# The mutating lease

At most one local call mutates the machine at a time. The lease is one row that names a principal,
with a row for the call that holds it, in the state database all hosts share. It is left when the call
ends, given up when its principal is released, and it lapses when it is not renewed in time. The
principal that holds it enters it again under the same call id.

A lease remembers the call that entered it last; nothing the operations compute depends on that.
-/

namespace OpenAgent.Host

open Lib Lib.Tx

/-- The row of `mutating_lease`. -/
structure LeaseRow where
  holder : String
  expiresAt : Int
  entrant : Nat
deriving DecidableEq

/-- A row of `mutating_lease_calls`. -/
structure LeaseCall where
  holder : String
  expiresAt : Int
deriving DecidableEq

structure LeaseTables where
  lease : Option LeaseRow
  calls : Dict String LeaseCall

def LeaseTables.free : LeaseTables := ⟨none, .empty⟩

/-- `_expire_locked` -/
def LeaseTables.expire (T : LeaseTables) (now : Int) : LeaseTables :=
  if T.lease.any fun row => decide (row.expiresAt ≤ now) then .free else T

def LeaseTables.sameCall (T : LeaseTables) (principal callId : String) : Bool :=
  (T.lease.any fun row => row.holder = principal) && (T.calls.entries.head?.any fun e => e.1 = callId)

def leaseHeld : HostException :=
  .host "lease_held" "another local tool call is currently mutating this computer"

/-- The writes of `_enter_sync`. -/
def LeaseTables.entered (T : LeaseTables) (principal callId : String) (call : Nat) (expires : Int) :
    LeaseTables where
  lease := match T.lease with
    | none => some ⟨principal, expires, call⟩
    | some row => some { row with expiresAt := expires, entrant := call }
  calls := T.calls.set callId ⟨principal, expires⟩

/-- `_enter_sync` -/
def enterLease (leaseSeconds : Int) (principal callId : String) (call : Nat) (now : Int) :
    Tx LeaseTables HostException Unit := do
  modify fun T => T.expire now
  let T ← get
  raiseIf (T.lease.isSome = true ∧ T.sameCall principal callId = false) leaseHeld
  set (T.entered principal callId call (now + leaseSeconds))

/-- `_renew_sync` -/
def renewLease (leaseSeconds : Int) (principal callId : String) (now : Int) (T : LeaseTables) :
    LeaseTables :=
  let T := T.expire now
  if (T.calls.get? callId).any fun call => call.holder = principal then
    { lease := T.lease.map fun row =>
        if row.holder = principal then { row with expiresAt := now + leaseSeconds } else row
      calls := T.calls.update callId fun call => { call with expiresAt := now + leaseSeconds } }
  else T

/-- `SELECT MAX(expires_at) FROM mutating_lease_calls WHERE holder=?` -/
def LeaseTables.expiry (T : LeaseTables) (principal : String) : Option Int :=
  ((T.calls.values.filter fun call => call.holder = principal).map LeaseCall.expiresAt).max?

/-- `_leave_sync` -/
def leaveLease (principal callId : String) (T : LeaseTables) : LeaseTables :=
  let calls := T.calls.filter fun id call => !(id = callId && call.holder = principal)
  match (LeaseTables.mk T.lease calls).expiry principal with
  | none => ⟨T.lease.filter fun row => row.holder ≠ principal, calls⟩
  | some expiry =>
    ⟨T.lease.map fun row => if row.holder = principal then { row with expiresAt := expiry } else row,
      calls⟩

/-- `_release_sync` -/
def releaseLease (principal : String) (T : LeaseTables) : LeaseTables :=
  ⟨T.lease.filter fun row => row.holder ≠ principal,
    T.calls.filter fun _ call => call.holder ≠ principal⟩

/-! ### One lease, one call

The operations only ever see two kinds of tables: empty ones, and those with one lease and the row of
the call that holds it, which expire together.
-/

def LeaseTables.leased (holder callId : String) (expires : Int) (entrant : Nat) : LeaseTables :=
  ⟨some ⟨holder, expires, entrant⟩, Dict.empty.set callId ⟨holder, expires⟩⟩

def LeaseTables.Single (T : LeaseTables) : Prop :=
  T = .free ∨ ∃ holder callId expires entrant, T = .leased holder callId expires entrant

variable {T : LeaseTables} {holder callId principal id : String} {expires now leaseSeconds : Int}
  {entrant call : Nat}

@[simp] theorem lease_free : LeaseTables.free.lease = none := rfl

@[simp] theorem lease_leased :
    (LeaseTables.leased holder callId expires entrant).lease = some ⟨holder, expires, entrant⟩ := rfl

@[simp] theorem expire_free : LeaseTables.free.expire now = .free := rfl

theorem expire_leased_of_le (h : expires ≤ now) :
    (LeaseTables.leased holder callId expires entrant).expire now = .free := by
  simp [LeaseTables.expire, h]

theorem expire_leased_of_lt (h : now < expires) :
    (LeaseTables.leased holder callId expires entrant).expire now =
      .leased holder callId expires entrant := by
  rw [LeaseTables.expire, if_neg]
  simp only [lease_leased, Option.any_some, decide_eq_true_eq]
  omega

@[simp] theorem sameCall_leased :
    (LeaseTables.leased holder callId expires entrant).sameCall principal id = true ↔
      holder = principal ∧ callId = id := by
  simp [LeaseTables.sameCall, LeaseTables.leased, Dict.set, Dict.empty, Dict.assign]

@[simp] theorem sameCall_free : LeaseTables.free.sameCall principal id = false := rfl

theorem entered_leased {later : Int} :
    (LeaseTables.leased holder callId expires entrant).entered holder callId call later =
      .leased holder callId later call := by
  simp [LeaseTables.entered, LeaseTables.leased]

theorem get?_leased : (LeaseTables.leased holder callId expires entrant).calls.get? id =
    if id = callId then some ⟨holder, expires⟩ else none := by
  rw [LeaseTables.leased, Dict.get?_set, Dict.get?_empty]

theorem renewLease_leased (h : now < expires) :
    renewLease leaseSeconds principal id now (.leased holder callId expires entrant) =
      if holder = principal ∧ callId = id then .leased holder callId (now + leaseSeconds) entrant
      else .leased holder callId expires entrant := by
  simp only [renewLease, expire_leased_of_lt h, get?_leased]
  by_cases hid : id = callId
  · subst hid
    by_cases hholder : holder = principal
    · simp [hholder, LeaseTables.leased, Dict.update]
    · simp [hholder]
  · simp [hid, Ne.symm hid]

theorem leaveLease_free : leaveLease principal id .free = .free := rfl

theorem filter_calls_leased (p : String → LeaseCall → Bool) :
    (LeaseTables.leased holder callId expires entrant).calls.filter p =
      if p callId ⟨holder, expires⟩ then Dict.empty.set callId ⟨holder, expires⟩ else Dict.empty := by
  cases hp : p callId ⟨holder, expires⟩ with
  | false => simp [LeaseTables.leased, Dict.filter, Dict.set, Dict.empty, Dict.assign, hp]
  | true => simp [LeaseTables.leased, Dict.filter, Dict.set, Dict.empty, Dict.assign, hp]

theorem leaveLease_leased :
    leaveLease principal id (.leased holder callId expires entrant) =
      if holder = principal ∧ callId = id then .free
      else .leased holder callId expires entrant := by
  rw [leaveLease, filter_calls_leased]
  by_cases hholder : holder = principal
  · subst hholder
    by_cases hid : callId = id
    · subst hid
      simp [LeaseTables.expiry, Dict.values, Dict.empty, LeaseTables.free]
    · simp [hid, LeaseTables.expiry, Dict.values, Dict.set, Dict.assign, Dict.empty, LeaseTables.leased]
  · simp [hholder, LeaseTables.expiry, Dict.values, Dict.set, Dict.assign, Dict.empty,
      LeaseTables.leased]

theorem releaseLease_leased :
    releaseLease principal (.leased holder callId expires entrant) =
      if holder = principal then .free else .leased holder callId expires entrant := by
  rw [releaseLease, filter_calls_leased]
  by_cases hholder : holder = principal
  · simp [hholder, LeaseTables.free]
  · simp [hholder, LeaseTables.leased]

theorem enterLease_cases (leaseSeconds : Int) (principal id : String) (call : Nat) (now : Int)
    (hsingle : T.Single) :
    atomically (enterLease leaseSeconds principal id call now) T = (.error leaseHeld, T) ∨
      atomically (enterLease leaseSeconds principal id call now) T =
          (.ok (), .leased principal id (now + leaseSeconds) call) ∧
        ∀ row, T.lease = some row → now < row.expiresAt → T.sameCall principal id = true := by
  rw [atomically, enterLease, modify_bind, get_bind]
  rcases hsingle with rfl | ⟨holder, callId, expires, entrant, rfl⟩
  · exact .inr ⟨rfl, by simp⟩
  · by_cases hlive : now < expires
    · rw [expire_leased_of_lt hlive]
      by_cases hsame : holder = principal ∧ callId = id
      · obtain ⟨rfl, rfl⟩ := hsame
        rw [raiseIf_bind_of_not (by simp)]
        refine .inr ⟨?_, by simp⟩
        rw [entered_leased]
        rfl
      · rw [raiseIf_bind_of ⟨rfl, Bool.eq_false_iff.mpr (by simpa using hsame)⟩]
        exact .inl rfl
    · rw [expire_leased_of_le (by omega)]
      refine .inr ⟨rfl, fun row hrow hlt => ?_⟩
      cases hrow
      exact absurd hlt hlive

theorem LeaseTables.Single.leased : (LeaseTables.leased holder callId expires entrant).Single :=
  .inr ⟨holder, callId, expires, entrant, rfl⟩

theorem LeaseTables.Single.free : LeaseTables.free.Single := .inl rfl

end OpenAgent.Host
