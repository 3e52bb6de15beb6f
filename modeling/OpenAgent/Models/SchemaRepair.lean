import Mathlib.Algebra.BigOperators.Group.List.Basic
import Mathlib.Algebra.Order.BigOperators.Group.List
import Mathlib.Algebra.Order.Ring.Nat
import Mathlib.Data.List.Forall2
import OpenAgent.Contracts

/-!
# Schema repair

A provider whose grammar rejects a tool schema gets the request again without `pattern` and `format`. The walk
drops these keys from every object it meets, whether it is a schema, a map from names to schemas or plain data.
-/

namespace OpenAgent.Models

/-- The keys that the repair drops. -/
def droppedKeys : List String := ["pattern", "format"]

mutual

/-- What `_strip_schema_keys` leaves of a tree. -/
def stripSchemaKeys : Json → Json
  | .arr items => .arr (stripItems items)
  | .obj fields => .obj (stripFields fields)
  | .null => .null
  | .bool b => .bool b
  | .num n => .num n
  | .str s => .str s

def stripItems : List Json → List Json
  | [] => []
  | v :: rest => stripSchemaKeys v :: stripItems rest

def stripFields : List (String × Json) → List (String × Json)
  | [] => []
  | (name, v) :: rest =>
    if name ∈ droppedKeys then stripFields rest else (name, stripSchemaKeys v) :: stripFields rest

end

mutual

/-- How many keys `_strip_schema_keys` removes. -/
def removedKeys : Json → Nat
  | .arr items => removedItems items
  | .obj fields => removedFields fields
  | .null | .bool _ | .num _ | .str _ => 0

def removedItems : List Json → Nat
  | [] => 0
  | v :: rest => removedKeys v + removedItems rest

def removedFields : List (String × Json) → Nat
  | [] => 0
  | (name, v) :: rest => (if name ∈ droppedKeys then 1 else removedKeys v) + removedFields rest

end

/-- A tool of a request: a definition as the provider takes it, or a function whose parameters are a schema. -/
inductive ToolDefinition (α : Type)
  | dict (value : Json)
  | function (attributes : α) (parameters : Option Json)

variable {α β : Type}

def ToolDefinition.strip : ToolDefinition α → ToolDefinition α
  | dict value => dict (stripSchemaKeys value)
  | function attributes parameters => function attributes (parameters.map stripSchemaKeys)

def ToolDefinition.removed : ToolDefinition α → Nat
  | dict value => removedKeys value
  | function _ parameters => (parameters.map removedKeys).getD 0

/-- The arguments of a model call: its tools and the others. -/
structure ModelCall (α β : Type) where
  tools : Option (List (ToolDefinition α))
  others : β

/-- `_strip_tool_schema_patterns_from_kwargs` -/
def stripToolSchemaPatterns (call : ModelCall α β) : Option (ModelCall α β) :=
  match call.tools with
  | none | some [] => none
  | some tools =>
    if (tools.map ToolDefinition.removed).sum = 0 then none
    else some { call with tools := some (tools.map ToolDefinition.strip) }

/-! ### What is asked of the repair -/

/-- What a part of a tool definition is. -/
inductive Part
  | definition
  | schema
  | named
  | data
  deriving DecidableEq

/-- The keywords of a schema whose value maps names to schemas. -/
def namedKeywords : List String :=
  ["properties", "patternProperties", "$defs", "definitions", "dependentSchemas", "dependencies"]

/-- Those whose value is a schema or a list of schemas. -/
def schemaKeywords : List String :=
  ["items", "prefixItems", "additionalItems", "unevaluatedItems", "contains", "additionalProperties",
    "unevaluatedProperties", "propertyNames", "allOf", "anyOf", "oneOf", "not", "if", "then", "else", "contentSchema"]

/-- What the value of a key is. -/
def Part.field : Part → String → Part
  | definition, name =>
    if name = "function" then definition
    else if name ∈ ["parameters", "input_schema"] then schema
    else data
  | schema, name => if name ∈ namedKeywords then named else if name ∈ schemaKeywords then schema else data
  | named, _ => schema
  | data, _ => data

/-- What the elements of a list are. -/
def Part.item : Part → Part
  | schema => schema
  | _ => data

mutual

/-- The second value is the first one without some `pattern` and `format` keywords of its schemas. -/
inductive Repaired : Part → Json → Json → Prop
  | null {part : Part} : Repaired part .null .null
  | bool {part : Part} (b : Bool) : Repaired part (.bool b) (.bool b)
  | num {part : Part} (n : Rat) : Repaired part (.num n) (.num n)
  | str {part : Part} (s : String) : Repaired part (.str s) (.str s)
  | arr {part : Part} {items items' : List Json} (h : RepairedItems part.item items items') :
      Repaired part (.arr items) (.arr items')
  | obj {part : Part} {fields fields' : List (String × Json)} (h : RepairedFields part fields fields') :
      Repaired part (.obj fields) (.obj fields')

inductive RepairedItems : Part → List Json → List Json → Prop
  | nil {part : Part} : RepairedItems part [] []
  | cons {part : Part} {v w : Json} {items items' : List Json} (head : Repaired part v w)
      (tail : RepairedItems part items items') : RepairedItems part (v :: items) (w :: items')

inductive RepairedFields : Part → List (String × Json) → List (String × Json) → Prop
  | nil {part : Part} : RepairedFields part [] []
  | keep {part : Part} {name : String} {v w : Json} {fields fields' : List (String × Json)}
      (head : Repaired (part.field name) v w) (tail : RepairedFields part fields fields') :
      RepairedFields part ((name, v) :: fields) ((name, w) :: fields')
  | drop {name : String} {v : Json} {fields fields' : List (String × Json)} (hname : name ∈ droppedKeys)
      (tail : RepairedFields .schema fields fields') : RepairedFields .schema ((name, v) :: fields) fields'

end

/-- A map from names to schemas keeps its names. -/
theorem RepairedFields.names {fields fields' : List (String × Json)} (h : RepairedFields .named fields fields') :
    fields'.map Prod.fst = fields.map Prod.fst := by
  induction fields generalizing fields' with
  | nil =>
    cases h
    rfl
  | cons f fields ih =>
    cases h with
    | keep _ tail => rw [List.map_cons, List.map_cons, ih tail]

mutual

/-- What is no schema, such as a list of required names or a default, stays as it is. -/
theorem Repaired.data {v w : Json} (h : Repaired .data v w) : w = v := by
  cases h with
  | null => rfl
  | bool => rfl
  | num => rfl
  | str => rfl
  | arr h => rw [RepairedItems.data h]
  | obj h => rw [RepairedFields.data h]

theorem RepairedItems.data {items items' : List Json} (h : RepairedItems .data items items') : items' = items := by
  cases h with
  | nil => rfl
  | cons head tail => rw [Repaired.data head, RepairedItems.data tail]

theorem RepairedFields.data {fields fields' : List (String × Json)} (h : RepairedFields .data fields fields') :
    fields' = fields := by
  cases h with
  | nil => rfl
  | keep head tail => rw [Repaired.data head, RepairedFields.data tail]

end

/-! ### When the repair does it -/

mutual

/-- Only schemas have keys that the repair drops. -/
def Part.safe : Part → Json → Bool
  | part, .arr items => part.item.safeItems items
  | part, .obj fields => part.safeFields fields
  | _, .null | _, .bool _ | _, .num _ | _, .str _ => true

def Part.safeItems : Part → List Json → Bool
  | _, [] => true
  | part, v :: rest => part.safe v && part.safeItems rest

def Part.safeFields : Part → List (String × Json) → Bool
  | _, [] => true
  | part, (name, v) :: rest =>
    (if name ∈ droppedKeys then part = .schema else (part.field name).safe v) && part.safeFields rest

end

theorem not_dropped {fields : List (String × Json)} {name : String} {v : Json} (h : (name, v) ∈ stripFields fields) :
    name ∉ droppedKeys := by
  induction fields with
  | nil => cases h
  | cons f fields ih =>
    rw [stripFields] at h
    split at h
    · exact ih h
    · rename_i hname
      rcases List.mem_cons.mp h with heq | hrest
      · cases heq
        exact hname
      · exact ih hrest

mutual

theorem repaired_iff (part : Part) (v : Json) : Repaired part v (stripSchemaKeys v) ↔ part.safe v = true := by
  cases v with
  | null => exact iff_of_true .null rfl
  | bool b => exact iff_of_true (.bool b) rfl
  | num n => exact iff_of_true (.num n) rfl
  | str s => exact iff_of_true (.str s) rfl
  | arr items =>
    rw [stripSchemaKeys, Part.safe, ← repairedItems_iff]
    exact ⟨fun h => by cases h; assumption, .arr⟩
  | obj fields =>
    rw [stripSchemaKeys, Part.safe, ← repairedFields_iff]
    exact ⟨fun h => by cases h; assumption, .obj⟩

theorem repairedItems_iff (part : Part) (items : List Json) :
    RepairedItems part items (stripItems items) ↔ part.safeItems items = true := by
  cases items with
  | nil => exact iff_of_true .nil rfl
  | cons v rest =>
    rw [stripItems, Part.safeItems, Bool.and_eq_true, ← repaired_iff, ← repairedItems_iff]
    constructor
    · rintro ⟨⟩
      constructor <;> assumption
    · exact fun h => .cons h.1 h.2

theorem repairedFields_iff (part : Part) (fields : List (String × Json)) :
    RepairedFields part fields (stripFields fields) ↔ part.safeFields fields = true := by
  match fields with
  | [] => exact iff_of_true .nil rfl
  | (name, v) :: rest =>
    rw [stripFields, Part.safeFields, Bool.and_eq_true, ← repairedFields_iff part rest]
    split
    · rename_i hname
      rw [decide_eq_true_eq]
      constructor
      · intro h
        generalize hrest : stripFields rest = kept at h
        cases h with
        | keep _ tail => exact absurd hname (not_dropped (hrest ▸ List.mem_cons_self))
        | drop _ tail => exact ⟨rfl, tail⟩
      · rintro ⟨rfl, tail⟩
        exact .drop hname tail
    · rename_i hname
      rw [← repaired_iff]
      constructor
      · intro h
        cases h with
        | keep head tail => exact ⟨head, tail⟩
        | drop hdropped _ => exact absurd hdropped hname
      · exact fun h => .keep h.1 h.2

end

mutual

/-- Where nothing is removed, nothing was there to drop. -/
theorem safe_of_removedKeys (part : Part) (v : Json) (h : removedKeys v = 0) : part.safe v = true := by
  cases v with
  | null | bool b | num n | str s => rfl
  | arr items => exact safeItems_of_removedItems part.item items h
  | obj fields => exact safeFields_of_removedFields part fields h

theorem safeItems_of_removedItems (part : Part) (items : List Json) (h : removedItems items = 0) :
    part.safeItems items = true := by
  match items with
  | [] => rfl
  | v :: rest =>
    have hzero := Nat.add_eq_zero_iff.mp h
    rw [Part.safeItems, safe_of_removedKeys part v hzero.1, safeItems_of_removedItems part rest hzero.2]
    rfl

theorem safeFields_of_removedFields (part : Part) (fields : List (String × Json)) (h : removedFields fields = 0) :
    part.safeFields fields = true := by
  match fields with
  | [] => rfl
  | (name, v) :: rest =>
    have hzero := Nat.add_eq_zero_iff.mp h
    by_cases hname : name ∈ droppedKeys
    · rw [if_pos hname] at hzero
      cases hzero.1
    · rw [if_neg hname] at hzero
      rw [Part.safeFields, if_neg hname, safe_of_removedKeys _ v hzero.1, safeFields_of_removedFields part rest hzero.2]
      rfl

end

/-- A tool without some keywords of its schemas. -/
inductive ToolDefinition.Repairs : ToolDefinition α → ToolDefinition α → Prop
  | dict {v w : Json} (h : Repaired .definition v w) : Repairs (.dict v) (.dict w)
  | bare (attributes : α) : Repairs (.function attributes none) (.function attributes none)
  | function (attributes : α) {v w : Json} (h : Repaired .schema v w) :
      Repairs (.function attributes (some v)) (.function attributes (some w))

def ToolDefinition.safe : ToolDefinition α → Bool
  | dict value => Part.definition.safe value
  | function _ parameters => parameters.all Part.schema.safe

theorem ToolDefinition.repairs_iff (tool : ToolDefinition α) : tool.Repairs tool.strip ↔ tool.safe = true := by
  match tool with
  | dict value =>
    refine Iff.trans ⟨?_, .dict⟩ (repaired_iff _ _)
    rintro ⟨⟩
    assumption
  | function attributes none => exact iff_of_true (.bare attributes) rfl
  | function attributes (some value) =>
    refine Iff.trans ⟨?_, .function attributes⟩ (repaired_iff _ _)
    rintro ⟨⟩
    assumption

theorem ToolDefinition.safe_of_removed {tool : ToolDefinition α} (h : tool.removed = 0) : tool.safe = true := by
  match tool with
  | dict value => exact safe_of_removedKeys _ _ h
  | function attributes none => rfl
  | function attributes (some value) => exact safe_of_removedKeys _ _ h

/-- The second call is the first one without some keywords of its tools' schemas. -/
structure ModelCall.Keeps (call call' : ModelCall α β) : Prop where
  others : call'.others = call.others
  tools : ∃ tools tools', call.tools = some tools ∧ call'.tools = some tools' ∧
    List.Forall₂ ToolDefinition.Repairs tools tools'

/-- A repaired call misses no more than `pattern` and `format` keywords of schemas, so that all its properties and
their required names are there, exactly if no map from names to schemas and no plain data of its tools has one of
these keys. -/
theorem repair_keeps_iff (call : ModelCall α β) :
    (∀ call', stripToolSchemaPatterns call = some call' → call.Keeps call') ↔
      ∀ tools, call.tools = some tools → ∀ tool ∈ tools, tool.safe = true := by
  unfold stripToolSchemaPatterns
  split
  · rename_i hnone
    exact iff_of_true nofun fun tools htools => by rw [hnone] at htools; cases htools
  · rename_i hempty
    refine iff_of_true nofun fun tools htools tool htool => ?_
    rw [hempty] at htools
    cases htools
    cases htool
  rename_i tools _ htools
  rw [htools]
  simp only [Option.some.injEq, forall_eq']
  split
  · rename_i hzero
    refine iff_of_true nofun fun tool htool => ToolDefinition.safe_of_removed ?_
    exact List.sum_eq_zero_iff.mp hzero _ (List.mem_map_of_mem htool)
  · have hall : List.Forall₂ ToolDefinition.Repairs tools (tools.map ToolDefinition.strip) ↔
        ∀ tool ∈ tools, tool.safe = true := by
      rw [List.forall₂_map_right_iff, List.forall₂_same]
      simp only [ToolDefinition.repairs_iff]
    rw [← hall]
    simp only [Option.some.injEq, forall_eq']
    constructor
    · rintro ⟨-, kept, repaired, hkept, hrepaired, hrel⟩
      rw [htools] at hkept
      cases hkept
      cases hrepaired
      exact hrel
    · exact fun h => ⟨rfl, tools, _, htools, rfl, h⟩

/-- A required parameter that is itself named `pattern` is lost. -/
theorem parameter_named_pattern_is_lost :
    let schema := Json.obj [("type", .str "object"),
      ("properties", .obj [("pattern", .obj [("type", .str "string")])]), ("required", .arr [.str "pattern"])]
    let call : ModelCall Unit Unit := ⟨some [.function () (some schema)], ()⟩
    ¬ ∀ call', stripToolSchemaPatterns call = some call' → call.Keeps call' := by
  intro schema call h
  subst schema
  obtain ⟨-, tools, tools', htools, htools', hrel⟩ := h _ rfl
  cases htools
  cases htools'
  cases hrel with
  | cons head _ =>
  cases head with
  | function _ hschema =>
  cases hschema with
  | obj hfields =>
  cases hfields with
  | drop hname _ => exact absurd hname (by decide)
  | keep _ hfields =>
  cases hfields with
  | drop hname _ => exact absurd hname (by decide)
  | keep hproperties _ =>
  cases hproperties with
  | obj hnamed => exact absurd (RepairedFields.names hnamed) (by decide)

end OpenAgent.Models
