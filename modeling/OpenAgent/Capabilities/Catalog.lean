import Mathlib.Data.Finset.Basic
import OpenAgent.ContentPrivacy
import OpenAgent.Lib.Dict

/-!
# The capability catalog

The per-runtime registrations of tools. A registration is an object with an identity of its own: it
is named by its place in the list of all registrations ever made, and a source that is registered
again under the same key is another object. Everything between two awaits of the source is one
function here, so any interleaving of its coroutines is a sequence of these functions.
-/

namespace OpenAgent

open Lib

inductive CatalogError
  | value (text : String)
  | permission (text : String)
  | unavailable (text : String)
deriving DecidableEq

/-! ### Tools -/

inductive Surface
  | model | app
deriving DecidableEq

def Surface.text : Surface → String
  | .model => "model"
  | .app => "app"

structure ToolDefinition where
  name : String
  description : String
  inputSchema : Json
  effects : Finset String := ∅
  metadata : Json := .obj []
deriving DecidableEq

structure ToolDescriptor where
  toolRef : String
  name : String
  description : String
  inputSchema : Json
  sourceId : String
  targetLabel : String
  effects : Finset String
  metadata : Json
deriving DecidableEq

/-- `tool_visible`: presentation routing, never an authorization grant. -/
def toolVisible (metadata : Json) (surface : Surface) : Bool :=
  match (metadata.field "ui").bind fun ui => ui.field "visibility" with
  | none | some .null => true
  | some (.arr items) =>
    !items.isEmpty && items.all (fun v => v = .str "model" ∨ v = .str "app") &&
      items.contains (.str surface.text)
  | some _ => false

/-- The effects a host trusts: for every tool of a source, or for each tool by name. -/
inductive TrustedEffects
  | every (effects : Finset String)
  | byName (effects : List (String × Finset String))

def TrustedEffects.for : TrustedEffects → String → Finset String
  | .every effects, _ => effects
  | .byName table, name => ((table.find? fun e => e.1 = name).map Prod.snd).getD ∅

def ToolDefinition.trusted (trust : TrustedEffects) (d : ToolDefinition) : ToolDefinition :=
  { d with effects := d.effects ∩ trust.for d.name }

/-! ### Registrations -/

inductive PrivacyFenced
  | every (fenced : Bool)
  | byName (fenced : List (String × Bool))

def PrivacyFenced.for : PrivacyFenced → String → Bool
  | .every fenced, _ => fenced
  | .byName table, name => ((table.find? fun e => e.1 = name).map Prod.snd).getD false

structure Registration where
  sourceId : String
  targetLabel : String
  managed : Bool
  lease : Option CapabilityLease := none
  trustedEffects : TrustedEffects := .every ∅
  graphGeneration : Option Nat := none
  visibleFromRevision : Nat := 0
  revoked : Bool := false
  resultProvenance : Bool := false
  invocationProvenance : Bool := false
  privacyFenced : PrivacyFenced := .every false
  references : Dict String (String × ToolDefinition) := .empty

def Registration.key (r : Registration) : String × Option Nat := (r.sourceId, r.graphGeneration)

def Registration.describe (r : Registration) (reference : String) (d : ToolDefinition) :
    ToolDescriptor where
  toolRef := reference
  name := d.name
  description := d.description
  inputSchema := d.inputSchema
  sourceId := r.sourceId
  targetLabel := r.targetLabel
  effects := d.effects
  metadata := d.metadata

/-- `CapabilityCatalog`; `drawn` counts the references it has drawn from its source of secrets. -/
structure Catalog where
  objects : List Registration
  sources : Dict (String × Option Nat) Nat
  refs : Dict String (Nat × ToolDefinition)
  revision : Nat
  activeGeneration : Option Nat
  allowDynamic : Bool
  drawn : Nat

/-- The context variables of the code that asks: those of a run, or neither outside one. -/
structure Scope where
  generation : Option Nat := none
  revision : Option Nat := none

namespace Catalog

def empty (allowDynamic : Bool) : Catalog where
  objects := []
  sources := .empty
  refs := .empty
  revision := 0
  activeGeneration := none
  allowDynamic := allowDynamic
  drawn := 0

def snapshotRevision (c : Catalog) : Nat := c.revision

def activateGeneration (c : Catalog) (generation : Option Nat) : Catalog :=
  { c with activeGeneration := generation }

def nextRevision (c : Catalog) : Catalog := { c with revision := c.revision + 1 }

/-- `_register`. What the source, the executor and the two provenance resolvers compute is theirs;
the catalog keeps whether a resolver is there. -/
def register (c : Catalog) (r : Registration) : Except CatalogError Catalog :=
  if r.sourceId = "" ∨ c.sources.contains r.key then
    .error (.value "Capability source IDs must be unique")
  else if ∃ lease ∈ r.lease, lease.sourceId ≠ r.sourceId then
    .error (.value "The lease must identify this exact source")
  else
    let c := c.nextRevision
    .ok { c with
      objects := c.objects ++ [{ r with
        visibleFromRevision := c.revision
        revoked := false
        references := .empty }]
      sources := c.sources.set r.key c.objects.length }

/-- `register_user_source` -/
def registerUserSource (c : Catalog) (sourceId targetLabel : String) (graphGeneration : Option Nat) :
    Except CatalogError Catalog :=
  if c.allowDynamic then
    c.register { sourceId, targetLabel, managed := false, graphGeneration }
  else .error (.permission "This host has a fixed capability catalog")

def withdraw (c : Catalog) (id : Nat) : Catalog :=
  match c.objects[id]? with
  | none => c
  | some r => { c with
      objects := c.objects.modify id fun r => { r with revoked := true }
      sources := c.sources.pop r.key
      refs := r.references.values.foldl (fun refs reference => refs.pop reference.1) c.refs }

def withdrawAll (c : Catalog) (ids : List Nat) : Catalog :=
  if ids.isEmpty then c else ids.foldl withdraw c.nextRevision

/-- The registrations offered under the keys that satisfy `p`. -/
def offered (c : Catalog) (p : String × Option Nat → Bool) : List Nat :=
  (c.sources.entries.filter fun e => p e.1).map Prod.snd

def revoke (c : Catalog) (sourceId : String) : Catalog :=
  c.withdrawAll (c.offered fun key => key.1 = sourceId)

def revokeRegistration (c : Catalog) (sourceId : String) (graphGeneration : Option Nat) : Catalog :=
  c.withdrawAll (c.sources.get? (sourceId, graphGeneration)).toList

def revokeGeneration (c : Catalog) (generation : Nat) : Catalog :=
  c.withdrawAll (c.offered fun key => key.2 = some generation)

def revokeLease (c : Catalog) (lease : CapabilityLease) : Catalog :=
  match (c.offered fun key => key.1 = lease.sourceId).filter fun id =>
      (c.objects[id]?.bind Registration.lease) = some lease with
  | [id] => c.withdrawAll [id]
  | _ => c

/-! ### Visibility -/

/-- `_execution_snapshot` -/
def executionSnapshot (c : Catalog) (scope : Scope) : Option Nat × Nat :=
  (scope.generation.or c.activeGeneration, scope.revision.getD c.revision)

/-- `_available` -/
def available (c : Catalog) (scope : Scope) (context : ExecutionContext) (id : Nat) : Bool :=
  match c.objects[id]? with
  | none => false
  | some r =>
    let (generation, revision) := c.executionSnapshot scope
    !r.revoked && c.sources.get? r.key = some id && r.visibleFromRevision ≤ revision &&
      (r.graphGeneration = none || r.graphGeneration = generation) &&
      (match r.lease with
        | none => true
        | some lease => !context.deferred && context.capabilities.contains lease)

/-- `_registrations_for_context` -/
def registrationsForContext (c : Catalog) (scope : Scope) (context : ExecutionContext) : List Nat :=
  c.sources.values.filter (c.available scope context)

/-- `has_source` -/
def hasSource (c : Catalog) (scope : Scope) (context : ExecutionContext) (sourceId : String) : Bool :=
  (c.registrationsForContext scope context).any fun id =>
    c.objects[id]?.any fun r => r.sourceId = sourceId

/-- `remove`, once the host has authorized it. -/
def remove (c : Catalog) (scope : Scope) (context : ExecutionContext) (sourceId : String) :
    Except CatalogError Catalog :=
  match (c.registrationsForContext scope context).find? fun id =>
      c.objects[id]?.any fun r => r.sourceId = sourceId with
  | none => .error (.unavailable sourceId)
  | some id =>
    if (c.objects[id]?.any fun r => r.managed) ∨ c.allowDynamic = false then
      .error (.permission "This capability source is managed by the host")
    else .ok (c.revoke sourceId)

/-! ### References -/

/-- The reference under which a registration offers a definition: the one it has, if the definition
is still the same, and a fresh one otherwise. -/
def issue (token : Nat → String) (c : Catalog) (id : Nat) (key : String) (d : ToolDefinition) :
    String × Catalog :=
  let previous := c.objects[id]?.bind fun r => r.references.get? key
  if (previous.map Prod.snd) = some d then ((previous.map Prod.fst).getD "", c)
  else
    let reference := token c.drawn
    let refs := match previous with
      | some old => c.refs.pop old.1
      | none => c.refs
    (reference, { c with
      objects := c.objects.modify id fun r =>
        { r with references := r.references.set key (reference, d) }
      refs := refs.set reference (id, d)
      drawn := c.drawn + 1 })

/-- The loop of `discover` over the definitions of one source. The references it issued before it
met a repeated name stay issued. -/
def offerAll (token : Nat → String) (id : Nat) (r : Registration) :
    List ToolDefinition → List String → Catalog → Except CatalogError (List ToolDescriptor) × Catalog
  | [], _, c => (.ok [], c)
  | d :: rest, seen, c =>
    if toolVisible d.metadata .model = false then offerAll token id r rest seen c
    else
      let d := d.trusted r.trustedEffects
      if d.name ∈ seen then
        (.error (.value "A source returned ambiguous duplicate tool names"), c)
      else
        let (reference, c) := c.issue token id d.name d
        match offerAll token id r rest (d.name :: seen) c with
        | (.ok others, c) => (.ok (r.describe reference d :: others), c)
        | (.error e, c) => (.error e, c)

/-- What `discover` does when the definitions of a source have arrived. -/
def discovered (token : Nat → String) (c : Catalog) (scope : Scope) (context : ExecutionContext)
    (id : Nat) (definitions : List ToolDefinition) :
    Except CatalogError (List ToolDescriptor) × Catalog :=
  match c.objects[id]? with
  | none => (.ok [], c)
  | some r =>
    if c.available scope context id then offerAll token id r definitions [] c else (.ok [], c)

/-- What `call_source_tool` does when the definitions of its source have arrived: it issues the
reference it goes on to call. -/
def appDiscovered (token : Nat → String) (c : Catalog) (scope : Scope) (context : ExecutionContext)
    (id : Nat) (name : String) (definitions : List ToolDefinition) :
    Except CatalogError String × Catalog :=
  match c.objects[id]? with
  | none => (.error (.unavailable "The originating source is unavailable"), c)
  | some r =>
    if c.available scope context id = false then
      (.error (.unavailable "The originating source is unavailable"), c)
    else
      match definitions.filter fun d => d.name = name with
      | [d] =>
        let d := d.trusted r.trustedEffects
        if toolVisible d.metadata .app = false then
          (.error (.permission "This tool is not visible to the originating app"), c)
        else
          let (reference, c) := c.issue token id ("app\x00" ++ name) d
          (.ok reference, c)
      | _ => (.error (.unavailable "The originating source does not expose this tool"), c)

def binding (c : Catalog) (scope : Scope) (context : ExecutionContext) (toolRef : String) :
    Except CatalogError (Nat × ToolDefinition) :=
  match c.refs.get? toolRef with
  | none => .error (.unavailable "Unknown or revoked tool reference; discover current tools")
  | some bound =>
    if c.available scope context bound.1 then .ok bound
    else .error (.unavailable "The exact capability instance is unavailable")

/-- One uninterrupted piece of a catalog coroutine; a use of a reference reads and changes nothing. -/
inductive Op
  | register (r : Registration)
  | registerUserSource (sourceId targetLabel : String) (graphGeneration : Option Nat)
  | revoke (sourceId : String)
  | revokeRegistration (sourceId : String) (graphGeneration : Option Nat)
  | revokeGeneration (generation : Nat)
  | revokeLease (lease : CapabilityLease)
  | remove (scope : Scope) (context : ExecutionContext) (sourceId : String)
  | activateGeneration (generation : Option Nat)
  | discovered (scope : Scope) (context : ExecutionContext) (id : Nat)
      (definitions : List ToolDefinition)
  | appDiscovered (scope : Scope) (context : ExecutionContext) (id : Nat) (name : String)
      (definitions : List ToolDefinition)

def perform (token : Nat → String) (c : Catalog) : Op → Catalog
  | .register r => (c.register r).toOption.getD c
  | .registerUserSource sourceId targetLabel graphGeneration =>
    (c.registerUserSource sourceId targetLabel graphGeneration).toOption.getD c
  | .revoke sourceId => c.revoke sourceId
  | .revokeRegistration sourceId graphGeneration => c.revokeRegistration sourceId graphGeneration
  | .revokeGeneration generation => c.revokeGeneration generation
  | .revokeLease lease => c.revokeLease lease
  | .remove scope context sourceId => (c.remove scope context sourceId).toOption.getD c
  | .activateGeneration generation => c.activateGeneration generation
  | .discovered scope context id definitions => (c.discovered token scope context id definitions).2
  | .appDiscovered scope context id name definitions =>
    (c.appDiscovered token scope context id name definitions).2

def after (token : Nat → String) (c : Catalog) (ops : List Op) : Catalog := ops.foldl (perform token) c

end Catalog

end OpenAgent
