import Mathlib.Data.Rat.Floor
import OpenAgent.Contracts
import OpenAgent.Lib.Text

/-!
# Reading provider JSON

Legacy sessions hold free-form JSON, and the projection reads it with Python's own leniency: a missing
key is `None`, `or` picks the first truthy value, `str` makes a text of anything. A JSON column holds
the value here and not its text, since loading what was dumped gives the value back. What the standard
library does with text that is not this program's to define is a parameter.
-/

namespace OpenAgent

/-- The parts of the standard library that read and print text; `D` is the type of digests. -/
structure Stdlib (D : Type) where
  /-- `json.loads` -/
  loads : String → Option Json
  /-- `float` of a text -/
  float : String → Option ℚ
  /-- `str` of a number -/
  number : ℚ → String
  /-- `repr` -/
  repr : Json → String
  /-- `_digest`, of the canonical JSON of its parts -/
  digest : List Json → D
  /-- The digest in hexadecimal digits. -/
  hex : D → String
  /-- `hashlib.sha256(text.encode()).hexdigest()` -/
  sha256 : String → String

def Stdlib.CollisionFree {D : Type} (py : Stdlib D) : Prop := ∀ xs ys, py.digest xs = py.digest ys → xs = ys

namespace Json

/-- `value.get(key)` -/
def get (value : Json) (key : String) : Json := (value.field key).getD .null

/-- `key in value` -/
def has (value : Json) (key : String) : Bool := (value.field key).isSome

/-- `value[key] = x` -/
def put (value : Json) (key : String) (x : Json) : Json :=
  match value with
  | .obj fields => .obj (fields.filter (fun f => f.1 ≠ key) ++ [(key, x)])
  | other => other

/-- `value.pop(key, None)`, leaving the rest. -/
def pop (value : Json) (key : String) : Json :=
  match value with
  | .obj fields => .obj (fields.filter fun f => f.1 ≠ key)
  | other => other

/-- `isinstance(value, dict)` -/
def isDict : Json → Bool
  | .obj _ => true
  | _ => false

/-- `isinstance(value, list)` -/
def isList : Json → Bool
  | .arr _ => true
  | _ => false

def items : Json → List Json
  | .arr xs => xs
  | _ => []

/-- `a or b` -/
def either (a b : Json) : Json := if a.truthy then a else b

def bindable : Json → Bool
  | .arr _ | .obj _ => false
  | _ => true

def SameDict (a b : Json) : Prop := a.isDict = true ∧ b.isDict = true ∧ ∀ key, a.field key = b.field key

theorem field_pop (value : Json) (key k : String) :
    (value.pop key).field k = if k = key then none else value.field k := by
  cases value with
  | obj fields =>
    simp only [pop, field, List.find?_filter]
    split
    · rename_i h
      subst h
      rw [List.find?_eq_none.mpr]
      · rfl
      · intro f _
        simp
    · rename_i hne
      congr 2
      funext f
      by_cases hf : f.1 = k
      · simp [hf, hne]
      · simp [hf]
  | _ => simp [pop, field]

theorem field_put {value : Json} (h : value.isDict = true) (key : String) (x : Json) (k : String) :
    (value.put key x).field k = if k = key then some x else value.field k := by
  cases value with
  | obj fields =>
    have hpop := field_pop (.obj fields) key k
    simp only [pop, field] at hpop
    simp only [put, field, List.find?_append, Option.map_or, hpop]
    by_cases hk : k = key
    · simp [hk]
    · simp [hk, Ne.symm hk]
  | _ => cases h

@[simp] theorem isDict_pop (value : Json) (key : String) : (value.pop key).isDict = value.isDict := by
  cases value <;> rfl

@[simp] theorem isDict_put (value : Json) (key : String) (x : Json) :
    (value.put key x).isDict = value.isDict := by
  cases value <;> rfl

theorem get_of_field {value x : Json} {key : String} (h : value.field key = some x) : value.get key = x := by
  rw [get, h]
  rfl

theorem eq_arr_of_isList {value : Json} (h : value.isList = true) : value = .arr value.items := by
  cases value with
  | arr items => rfl
  | _ => cases h

end Json

/-- `text.strip()` -/
def trim (text : String) : String :=
  String.ofList ((text.toList.dropWhile isSpace).reverse.dropWhile isSpace).reverse

/-- `text.lower()`; beyond ASCII no letter becomes one of the words that are looked for. -/
def lower (text : String) : String := String.ofList (text.toList.map Char.toLower)

/-- `char.upper()`, for ASCII and for the other letters that become ASCII. -/
def upperChar : Char → List Char
  | 'ß' => ['S', 'S']
  | 'ı' => ['I']
  | 'ſ' => ['S']
  | 'ﬀ' => ['F', 'F']
  | 'ﬁ' => ['F', 'I']
  | 'ﬂ' => ['F', 'L']
  | 'ﬃ' => ['F', 'F', 'I']
  | 'ﬄ' => ['F', 'F', 'L']
  | 'ﬅ' | 'ﬆ' => ['S', 'T']
  | c => [c.toUpper]

/-- `text.upper()` -/
def upper (text : String) : String := String.ofList (text.toList.flatMap upperChar)

section

variable {D : Type} (py : Stdlib D)

/-- `str(value)` -/
def pyStr : Json → String
  | .null => "None"
  | .bool true => "True"
  | .bool false => "False"
  | .num n => py.number n
  | .str s => s
  | other => py.repr other

/-- `str(value or "").strip()` -/
def named (value : Json) : String := trim (pyStr py (value.either (.str "")))

/-- `str(value or "").strip() or None` -/
def namedOrNone (value : Json) : Option String :=
  if named py value = "" then none else some (named py value)

/-- `str(value or "").strip().lower()` -/
def word (value : Json) : String := lower (named py value)

/-- `loads_maybe_double` -/
def loadsMaybeDouble (column : Option String) (fallback : Json) : Json :=
  match column with
  | none => .null
  | some text =>
    match py.loads text with
    | some (.str inner) => (py.loads inner).getD fallback
    | some value => value
    | none => fallback

/-- `float(value)` -/
def pyFloat : Json → Option ℚ
  | .bool b => some (if b then 1 else 0)
  | .num n => some n
  | .str s => py.float s
  | _ => none

/-- `_ms` -/
def ms (value : Json) (defaultMs : Int) : Int :=
  match pyFloat py value with
  | none => defaultMs
  | some number => max 0 (if number < 100000000000 then number * 1000 else number).floor

def jsonInt : Option Int → Json
  | none => .null
  | some n => .num n

def jsonText : Option String → Json
  | none => .null
  | some s => .str s

mutual

/-- `_text` -/
def text : Json → String
  | .null => ""
  | .bool b => pyStr py (.bool b)
  | .num n => py.number n
  | .str s => s
  | .arr items => "\n".intercalate ((itemTexts items).filter (· ≠ ""))
  | .obj fields =>
    let texts := fieldTexts fields
    ((texts.lookup "text").or <| (texts.lookup "content").or <| (texts.lookup "message").or <|
      texts.lookup "value").getD ""

def itemTexts : List Json → List String
  | [] => []
  | .str s :: rest => s :: itemTexts rest
  | .obj fields :: rest =>
    let key := if ((Json.obj fields).get "text").truthy then "text" else "content"
    if (Json.obj fields).get key = .null then itemTexts rest
    else ((fieldTexts fields).lookup key).getD "" :: itemTexts rest
  | _ :: rest => itemTexts rest

def fieldTexts : List (String × Json) → List (String × String)
  | [] => []
  | (key, value) :: rest => (key, text value) :: fieldTexts rest

end

/-- `_stable_id` -/
def stableId (kind : String) (parts : List Json) : String :=
  kind ++ ":" ++ Lib.clip 32 (py.hex (py.digest parts))

/-- `_principal` -/
def principal (kind : String) (value : Json) : Option String :=
  let raw := named py value
  let front := (if kind = "agent" then "agent" else "user") ++ ":"
  if raw = "" then none else some (if front.toList.isPrefixOf raw.toList then raw else front ++ raw)

end

end OpenAgent
