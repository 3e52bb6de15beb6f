import OpenAgent.Host.State

/-!
# What the operations do to a row of the ledger

A row keeps the call that inserted it and its fingerprint until a result it recorded expires or its
owner abandons it, and a row that is settled is never open again.
-/

namespace OpenAgent.Host

open Lib Lib.Tx

variable {F R : Type} {claims : Claims F R} {T : Tables F R} {key : String × String} {row : ClaimRow F R}
  {config : HostConfig R} {owner call : Nat} {now : Int}

theorem ClaimRow.heldBy_iff : row.heldBy owner = true ↔ row.state = .executing ∧ row.owner = owner := by
  simp [heldBy]

variable [DecidableEq F]

end OpenAgent.Host
