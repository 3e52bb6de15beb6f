import OpenAgent.Lib.Trim
import Mathlib.Data.List.Nodup
import Mathlib.Data.Rat.Floor

/-!
# Execution policies

A policy is written by hand, so it is read with care: unknown fields are refused, numbers are converted and
checked against their bounds. Two policies narrow to one that is no wider than either; families are compared
by their normal form, and the outer policy's spelling is kept.
-/

namespace OpenAgent.Grants

open Lib List Option

/-- A `float`. -/
inductive Number
  | nan | negInf | posInf
  | finite (q : ℚ)
deriving DecidableEq

/-- `x < y`, which is never true of a NaN. -/
def Number.lt : Number → Number → Bool
  | .nan, _ | _, .nan => false
  | .negInf, .negInf => false
  | .negInf, _ => true
  | _, .negInf => false
  | .posInf, _ => false
  | .finite _, .posInf => true
  | .finite x, .finite y => decide (x < y)

/-- A value in a policy. Of the items of an array all that is read is `str(item)`. -/
inductive Raw
  | null
  | bool (b : Bool)
  | int (n : Int)
  | float (x : Number)
  | text (s : String)
  | array (items : List String)
  | other

structure RawPolicy where
  maxToolCalls : Raw := .null
  timeoutSeconds : Raw := .null
  allowedToolFamilies : Raw := .null
  unknown : List String := []

/-- What `normalize_execution_policy` is called with. -/
inductive Value
  | null
  | text (s : String)
  | mapping (p : RawPolicy)
  | other

/-- What is used of Python: `json.loads` of a text, which is never a text again, `int` and `float` of a
text, and two properties of characters. -/
structure Python where
  loads : String → Option Value
  int : String → Option Int
  float : String → Option Number
  isSpace : Char → Bool
  isAlnum : Char → Bool

def Python.strip (P : Python) (s : String) : String := String.ofList (Lib.trim P.isSpace s.toList)

/-- `normalize_family` -/
def Python.normalizeFamily (P : Python) (name : String) : String :=
  String.ofList (name.toList.map fun ch => if P.isAlnum ch || ch == '_' then ch else '_')

structure Policy where
  maxToolCalls : Option Int := none
  timeoutSeconds : Option Number := none
  allowedToolFamilies : Option (List String) := none
deriving DecidableEq

variable (P : Python)

/-! ### Reading a policy -/

/-- `int(raw)`, for what is not a `bool`. -/
def toInt : Raw → Except String Int
  | .int n => .ok n
  | .float (.finite q) => .ok (if q < 0 then ⌈q⌉ else ⌊q⌋)
  | .float .posInf | .float .negInf => .error "cannot convert float infinity to integer"
  | .text s =>
    match P.int s with
    | some n => .ok n
    | none => .error "execution_policy.max_tool_calls must be an integer"
  | .null | .bool _ | .float .nan | .array _ | .other =>
    .error "execution_policy.max_tool_calls must be an integer"

def readMaxToolCalls : Raw → Except String (Option Int)
  | .null => .ok none
  | raw =>
    match toInt P raw with
    | .error e => .error e
    | .ok limit =>
      if limit < 1 ∨ 500 < limit then .error "execution_policy.max_tool_calls must be between 1 and 500"
      else .ok (some limit)

/-- Integers from here on round to no `float`. -/
def floatBound : Nat := 2 ^ 1024 - 2 ^ 970

/-- `float(raw)`, for what is not a `bool`. An integer is exact where it can pass the bounds. -/
def toFloat : Raw → Except String Number
  | .int n => if floatBound ≤ n.natAbs then .error "int too large to convert to float" else .ok (.finite n)
  | .float x => .ok x
  | .text s =>
    match P.float s with
    | some x => .ok x
    | none => .error "execution_policy.timeout_seconds must be a number"
  | .null | .bool _ | .array _ | .other => .error "execution_policy.timeout_seconds must be a number"

def readTimeoutSeconds : Raw → Except String (Option Number)
  | .null => .ok none
  | raw =>
    match toFloat P raw with
    | .error e => .error e
    | .ok timeout =>
      if timeout.lt (.finite 5) || Number.lt (.finite 86400) timeout then
        .error "execution_policy.timeout_seconds must be between 5 and 86400"
      else .ok (some timeout)

def collectFamilies : List String → List String → Except String (List String)
  | families, [] => .ok families
  | families, item :: rest =>
    let family := P.strip item
    if family = "" then .error "execution_policy.allowed_tool_families cannot contain blanks"
    else if 100 < family.length then .error "execution policy tool family is too long"
    else collectFamilies (if family ∈ families then families else families ++ [family]) rest

def readAllowedToolFamilies : Raw → Except String (Option (List String))
  | .null => .ok none
  | .array items =>
    match collectFamilies P [] items with
    | .error e => .error e
    | .ok families =>
      if 64 < families.length then
        .error "execution_policy.allowed_tool_families supports at most 64 entries"
      else .ok (some families)
  | _ => .error "execution_policy.allowed_tool_families must be an array"

def readPolicy (value : RawPolicy) : Except String Policy :=
  if value.unknown ≠ [] then
    .error ("unknown execution_policy fields: " ++ ", ".intercalate (value.unknown.mergeSort (· ≤ ·)))
  else
    match readMaxToolCalls P value.maxToolCalls with
    | .error e => .error e
    | .ok maxToolCalls =>
      match readTimeoutSeconds P value.timeoutSeconds with
      | .error e => .error e
      | .ok timeoutSeconds =>
        match readAllowedToolFamilies P value.allowedToolFamilies with
        | .error e => .error e
        | .ok allowedToolFamilies => .ok { maxToolCalls, timeoutSeconds, allowedToolFamilies }

/-- `normalize_execution_policy` of what is not a text. -/
def normalizeLoaded : Value → Except String Policy
  | .mapping p => readPolicy P p
  | .null | .text _ | .other => .error "execution_policy must be an object"

def normalizeExecutionPolicy : Value → Except String Policy
  | .null | .text "" => .ok {}
  | .text s =>
    match P.loads s with
    | none => .error "execution_policy must be valid JSON"
    | some loaded => normalizeLoaded P loaded
  | value => normalizeLoaded P value

def Policy.value (p : Policy) : Value :=
  .mapping
    { maxToolCalls := p.maxToolCalls.elim .null .int
      timeoutSeconds := p.timeoutSeconds.elim .null .float
      allowedToolFamilies := p.allowedToolFamilies.elim .null .array }

/-! ### Narrowing -/

/-- `min([x, y])` -/
def pyMin {α : Type} (lt : α → α → Bool) (x y : α) : α := if lt y x then y else x

def narrowNumber {α : Type} (lt : α → α → Bool) : Option α → Option α → Option α
  | some x, some y => some (pyMin lt x y)
  | some x, none | none, some x => some x
  | none, none => none

def narrowFamilies : Option (List String) → Option (List String) → Option (List String)
  | some outer, some inner =>
    some (outer.filter fun item => P.normalizeFamily item ∈ inner.map P.normalizeFamily)
  | some families, none | none, some families => some families
  | none, none => none

def Policy.narrow (outer inner : Policy) : Policy where
  maxToolCalls := narrowNumber (fun x y => decide (x < y)) outer.maxToolCalls inner.maxToolCalls
  timeoutSeconds := narrowNumber Number.lt outer.timeoutSeconds inner.timeoutSeconds
  allowedToolFamilies := narrowFamilies P outer.allowedToolFamilies inner.allowedToolFamilies

def narrowExecutionPolicy (parent child : Value) : Except String Policy :=
  match normalizeExecutionPolicy P parent with
  | .error e => .error e
  | .ok outer =>
    match normalizeExecutionPolicy P child with
    | .error e => .error e
    | .ok inner => .ok (outer.narrow P inner)

/-! ### What is accepted -/

structure Policy.Accepted (p : Policy) : Prop where
  calls : ∀ n, p.maxToolCalls = some n → 1 ≤ n ∧ n ≤ 500
  timeout : ∀ x, p.timeoutSeconds = some x →
    x.lt (.finite 5) = false ∧ Number.lt (.finite 86400) x = false
  families : ∀ fs, p.allowedToolFamilies = some fs → fs.Nodup ∧ fs.length ≤ 64 ∧
    ∀ f ∈ fs, P.strip f = f ∧ f ≠ "" ∧ f.length ≤ 100

variable {P} {p a b c : Policy}

theorem strip_strip (s : String) : P.strip (P.strip s) = P.strip s := by
  unfold Python.strip
  rw [String.toList_ofList, Lib.trim_of_tight (Lib.tight_trim s.toList)]

theorem readMaxToolCalls_spec {raw : Raw} {limit : Option Int} (h : readMaxToolCalls P raw = .ok limit) :
    ∀ n, limit = some n → 1 ≤ n ∧ n ≤ 500 := by
  unfold readMaxToolCalls at h
  split at h
  · cases h
    exact nofun
  · split at h
    · cases h
    · split at h
      · cases h
      · rename_i hrange
        cases h
        intro n hn
        cases hn
        omega

theorem readTimeoutSeconds_spec {raw : Raw} {timeout : Option Number}
    (h : readTimeoutSeconds P raw = .ok timeout) : ∀ x, timeout = some x →
      x.lt (.finite 5) = false ∧ Number.lt (.finite 86400) x = false := by
  unfold readTimeoutSeconds at h
  split at h
  · cases h
    exact nofun
  · split at h
    · cases h
    · split at h
      · cases h
      · rename_i hrange
        cases h
        intro x hx
        cases hx
        simpa using hrange

theorem collectFamilies_spec {families items out : List String}
    (h : collectFamilies P families items = .ok out) (hnodup : families.Nodup)
    (hgood : ∀ f ∈ families, P.strip f = f ∧ f ≠ "" ∧ f.length ≤ 100) :
    out.Nodup ∧ ∀ f ∈ out, P.strip f = f ∧ f ≠ "" ∧ f.length ≤ 100 := by
  induction items generalizing families with
  | nil =>
    cases h
    exact ⟨hnodup, hgood⟩
  | cons item rest ih =>
    rw [collectFamilies] at h
    split at h
    · cases h
    split at h
    · cases h
    rename_i hblank hlong
    refine ih h ?_ ?_
    · split
      · exact hnodup
      · rename_i hnew
        exact List.nodup_append.mpr ⟨hnodup, nodup_singleton _, fun x hx y hy => by
          rw [List.mem_singleton.mp hy]
          exact fun heq => hnew (heq ▸ hx)⟩
    · split
      · exact hgood
      · intro f hf
        rcases List.mem_append.mp hf with hold | hnew
        · exact hgood f hold
        · rw [List.mem_singleton.mp hnew]
          exact ⟨strip_strip item, hblank, Nat.le_of_not_lt hlong⟩

theorem readAllowedToolFamilies_spec {raw : Raw} {out : Option (List String)}
    (h : readAllowedToolFamilies P raw = .ok out) : ∀ fs, out = some fs → fs.Nodup ∧ fs.length ≤ 64 ∧
      ∀ f ∈ fs, P.strip f = f ∧ f ≠ "" ∧ f.length ≤ 100 := by
  unfold readAllowedToolFamilies at h
  split at h
  · cases h
    exact nofun
  · split at h
    · cases h
    · rename_i families hfamilies
      split at h
      · cases h
      · rename_i hlength
        cases h
        intro fs hfs
        cases hfs
        obtain ⟨hnodup, hgood⟩ := collectFamilies_spec hfamilies nodup_nil (by simp)
        exact ⟨hnodup, Nat.le_of_not_lt hlength, hgood⟩
  · cases h

theorem accepted_empty : Policy.Accepted P {} :=
  ⟨fun _ h => (by cases h), fun _ h => (by cases h), fun _ h => (by cases h)⟩

theorem readPolicy_accepted {value : RawPolicy} (h : readPolicy P value = .ok p) : p.Accepted P := by
  unfold readPolicy at h
  split at h
  · cases h
  split at h
  · cases h
  rename_i hcalls
  split at h
  · cases h
  rename_i htimeout
  split at h
  · cases h
  rename_i hfamilies
  cases h
  exact ⟨readMaxToolCalls_spec hcalls, readTimeoutSeconds_spec htimeout,
    readAllowedToolFamilies_spec hfamilies⟩

theorem normalizeLoaded_accepted {value : Value} (h : normalizeLoaded P value = .ok p) :
    p.Accepted P := by
  cases value with
  | mapping raw => exact readPolicy_accepted h
  | null | text | other => cases h

theorem normalize_accepted {value : Value} (h : normalizeExecutionPolicy P value = .ok p) :
    p.Accepted P := by
  unfold normalizeExecutionPolicy at h
  split at h
  · cases h
    exact accepted_empty
  · cases h
    exact accepted_empty
  · split at h
    · cases h
    · exact normalizeLoaded_accepted h
  · exact normalizeLoaded_accepted h

/-! ### A normalized policy is normalized -/

theorem collectFamilies_id {families items : List String} (hnodup : (families ++ items).Nodup)
    (hgood : ∀ f ∈ items, P.strip f = f ∧ f ≠ "" ∧ f.length ≤ 100) :
    collectFamilies P families items = .ok (families ++ items) := by
  induction items generalizing families with
  | nil => rw [collectFamilies, append_nil]
  | cons item rest ih =>
    obtain ⟨hstrip, hblank, hlong⟩ := hgood item mem_cons_self
    have hnew : item ∉ families := fun hmem =>
      (List.nodup_append.mp hnodup).2.2 item hmem item mem_cons_self rfl
    have hassoc : families ++ item :: rest = families ++ [item] ++ rest := by
      rw [append_assoc, singleton_append]
    rw [collectFamilies]
    simp only [hstrip, hblank, if_false, Nat.not_lt.mpr hlong, hnew]
    rw [hassoc] at hnodup ⊢
    exact ih hnodup fun f hf => hgood f (.tail item hf)

theorem normalize_value (h : p.Accepted P) : normalizeExecutionPolicy P p.value = .ok p := by
  have hcalls : readMaxToolCalls P (p.maxToolCalls.elim .null .int) = .ok p.maxToolCalls := by
    cases hn : p.maxToolCalls with
    | none => rfl
    | some n =>
      obtain ⟨hlow, hhigh⟩ := h.calls n hn
      simp only [elim_some, readMaxToolCalls, toInt]
      rw [if_neg (by omega)]
  have htimeout : readTimeoutSeconds P (p.timeoutSeconds.elim .null .float) = .ok p.timeoutSeconds := by
    cases hx : p.timeoutSeconds with
    | none => rfl
    | some x =>
      obtain ⟨hlow, hhigh⟩ := h.timeout x hx
      simp only [elim_some, readTimeoutSeconds, toFloat, hlow, hhigh, Bool.or_self,
        Bool.false_eq_true, if_false]
  have hfamilies : readAllowedToolFamilies P (p.allowedToolFamilies.elim .null .array)
      = .ok p.allowedToolFamilies := by
    cases hfs : p.allowedToolFamilies with
    | none => rfl
    | some fs =>
      obtain ⟨hnodup, hlength, hgood⟩ := h.families fs hfs
      simp only [elim_some, readAllowedToolFamilies]
      have hcollect : collectFamilies P [] fs = .ok fs :=
        collectFamilies_id (by rwa [nil_append]) hgood
      rw [hcollect]
      simp only [Nat.not_lt.mpr hlength, if_false]
  simp only [Policy.value, normalizeExecutionPolicy, normalizeLoaded, readPolicy, ne_eq,
    not_true_eq_false, if_false, hcalls, htimeout, hfamilies]

end OpenAgent.Grants
