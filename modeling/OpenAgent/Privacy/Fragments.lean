import OpenAgent.ContentPrivacy

/-!
# Fragments of a tool result

`ToolResultProvenance.validate_result`. Every declared fragment has to select something in the result
and to stay within the tenant, and a walk over the result has to meet a fragment before it meets a
leaf. A string is taken apart where a declared path goes on behind it, and is a leaf anywhere else.
What `json.loads` reads in a string, with duplicate keys and constants refused, is a parameter.
-/

namespace OpenAgent.Privacy

/-- `decode_fragment_json` -/
def decodeFragmentJson (loads : String → Option Json) : Json → Except StoreError Json
  | .str text =>
    if 8 * 1024 * 1024 < text.utf8ByteSize then
      .error (.privacyConflict "Fragment JSON boundary must be a bounded string")
    else match loads text with
      | some value => .ok value
      | none => .error (.privacyConflict "Fragment boundary is not unambiguous JSON")
  | _ => .error (.privacyConflict "Fragment JSON boundary must be a bounded string")

/-! ### Selecting -/

/-- `value[component]`, as Python reads it: a string has its characters under its indices. -/
def subscript : Json → PathComponent → Option Json
  | .obj fields, .key name => (Json.obj fields).field name
  | .arr items, .index i => items[i]?
  | .str text, .index i => text.toList[i]?.map fun c => .str (String.ofList [c])
  | _, _ => none

def selectComponent (loads : String → Option Json) (value : Json) : PathComponent → Except StoreError Json
  | .decodeJson => decodeFragmentJson loads value
  | component =>
    match subscript value component with
    | some child => .ok child
    | none => .error (.privacyConflict "Fragment selector does not match provider JSON")

def select (loads : String → Option Json) : Json → List PathComponent → Except StoreError Json
  | value, [] => .ok value
  | value, component :: rest =>
    match selectComponent loads value component with
    | .error e => .error e
    | .ok child => select loads child rest

def ContentFragment.within (f : ContentFragment) (tenantId : String) : Prop :=
  ∀ origin ∈ f.origins, origin.tenantId = tenantId

instance (f : ContentFragment) (tenantId : String) : Decidable (ContentFragment.within f tenantId) :=
  inferInstanceAs (Decidable (∀ origin ∈ f.origins, origin.tenantId = tenantId))

def checkFragments (loads : String → Option Json) (result : Json) (tenantId : String) :
    List ContentFragment → Except StoreError Unit
  | [] => .ok ()
  | f :: rest =>
    match select loads result f.path with
    | .error e => .error e
    | .ok _ =>
      if ContentFragment.within f tenantId then checkFragments loads result tenantId rest
      else .error (.privacyConflict "Provider fragment crossed tenant authority")

/-! ### Walking -/

/-- `value.items()`: the dictionary a list of fields stands for has the first binding of each name. -/
def dictionaryItems (fields : List (String × Json)) : List (String × Json) :=
  (fields.map Prod.fst).dedup.filterMap fun name => ((Json.obj fields).field name).map fun v => (name, v)

def walkAll {α : Type} (check : α → Except StoreError Unit) : List α → Except StoreError Unit
  | [] => .ok ()
  | item :: rest =>
    match check item with
    | .error e => .error e
    | .ok _ => walkAll check rest

def unclassified : StoreError := .privacyConflict "Provider JSON has an unclassified fragment"

/-- `walk`. It has gone down by `65 - depth` components; no declared path is longer than sixty-four,
so one that gets deeper can only end in a leaf that none of them classifies. -/
def walk (loads : String → Option Json) (paths : List (List PathComponent)) :
    (depth : Nat) → Json → List PathComponent → Except StoreError Unit
  | 0, _, _ => .error unclassified
  | depth + 1, value, path =>
    if path ∈ paths then .ok ()
    else match value with
      | .str text =>
        if ∃ candidate ∈ paths, path ++ [.decodeJson] <+: candidate then
          match decodeFragmentJson loads (.str text) with
          | .error e => .error e
          | .ok inner => walk loads paths depth inner (path ++ [.decodeJson])
        else .error unclassified
      | .obj [] => .error unclassified
      | .obj fields => walkAll (fun item => walk loads paths depth item.2 (path ++ [.key item.1]))
          (dictionaryItems fields)
      | .arr [] => .error unclassified
      | .arr items => walkAll (fun item => walk loads paths depth item.1 (path ++ [.index item.2]))
          items.zipIdx
      | .null | .bool _ | .num _ => .error unclassified

/-- `validate_result` -/
def validateResult (loads : String → Option Json) (provenance : ToolResultProvenance) (result : Json)
    (tenantId : String) : Except StoreError Unit :=
  match checkFragments loads result tenantId provenance.fragments with
  | .error e => .error e
  | .ok _ => walk loads (provenance.fragments.map ContentFragment.path) 65 result []

end OpenAgent.Privacy
