import OpenAgent.Contracts

/-!
# Content provenance

The host-issued labels a tool result or an invocation carries into the canonical store: where the
content came from, and which part of a result each source contributed.
-/

namespace OpenAgent

def boundedIdentifier (value : String) : Bool := value ≠ "" && value.length ≤ 1024

structure ContentOrigin where
  tenantId : String
  sourceId : String
  groupId : String
  generation : Nat
  subjects : List String := []
  nonpersonal : Bool := false
  bounded : (tenantId :: sourceId :: groupId :: subjects).all boundedIdentifier = true
  distinct : subjects.length ≤ 4096 ∧ subjects.Nodup
  unclaimed : nonpersonal = true → subjects = []
deriving DecidableEq

/-- One step of a path into a result; `decodeJson` enters a JSON-encoded string. -/
inductive PathComponent
  | key (name : String)
  | index (position : Nat)
  | decodeJson
deriving DecidableEq

structure ContentFragment where
  path : List PathComponent
  origins : List ContentOrigin
  bounded : path.length ≤ 64 ∧ origins.length ≤ 4096 ∧
    ∀ component ∈ path, ∀ name, component = .key name → name.length ≤ 1024

structure ToolResultProvenance where
  fragments : List ContentFragment
  bounded : fragments ≠ [] ∧ fragments.length ≤ 4096
  disjoint : fragments.Pairwise fun f g => ¬ f.path <+: g.path ∧ ¬ g.path <+: f.path

/-- What a publication attaches to a finished call: a partition, or origins for all of it. -/
inductive ResultProvenance
  | partition (provenance : ToolResultProvenance)
  | origins (origins : List ContentOrigin)

end OpenAgent
