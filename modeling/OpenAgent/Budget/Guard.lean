import OpenAgent.Contracts
import OpenAgent.Lib.Trim

/-!
# The budget gate

The guard keeps a snapshot of its rules, each with the spend of its current window. The router asks the gate
for the catalog without the models that are over a cap. Three fallbacks keep the catalog from becoming empty,
and only the last of them knows the strict scopes.
-/

namespace OpenAgent.Budget

open Lib

/-- The scope kinds that the router gate acts on, `ENFORCEABLE_SCOPE_KINDS`. -/
inductive ScopeKind
  | global
  | provider
  | model
  deriving DecidableEq

def ScopeKind.read : List Char → Option ScopeKind := fun name =>
  if name = "global".toList then some .global
  else if name = "provider".toList then some .provider
  else if name = "model".toList then some .model
  else none

/-- A pair of `blocked_scope_keys` and `_strict_scopes`; a global scope has the value `""`. -/
structure ScopeKey where
  kind : ScopeKind
  value : String
  deriving DecidableEq

def globalKey : ScopeKey := ⟨.global, ""⟩

/-- A rule's evaluation for the current window. -/
structure RuleState where
  ruleId : String
  scope : ScopeKey
  thresholds : List Rat
  windowStart : Int
  windowEnd : Int
  ratio : Rat
  isOver : Bool

/-- A model of the catalog. -/
structure Entry where
  runtimeId : String
  provider : String
  deriving DecidableEq

/-- One token of `OPENAGENT_BUDGET_STRICT_SCOPES`. -/
def strictToken (tok : List Char) : Option ScopeKey :=
  if tok = "global".toList then some globalKey
  else if ':' ∈ tok then
    let value := String.ofList (Lib.trim isSpace (tok.dropWhile (· ≠ ':')).tail)
    (ScopeKind.read (Lib.trim isSpace (tok.takeWhile (· ≠ ':')))).map fun kind =>
      ⟨kind, if kind = .global then "" else value⟩
  else none

/-- `_strict_scopes` -/
def strictScopes (raw : String) : List ScopeKey :=
  ((Lib.trim isSpace raw.toList).splitOnP (· = ',')).filterMap fun tok => strictToken (Lib.trim isSpace tok)

/-- `blocked_scope_keys` -/
def blockedScopeKeys (snapshot : List RuleState) (now : Int) : List ScopeKey :=
  (snapshot.filter fun st => st.isOver && decide (st.windowStart ≤ now ∧ now < st.windowEnd)).map (·.scope)

/-- The scopes of a model's own: its provider and itself. -/
def Entry.ownKeys (e : Entry) : List ScopeKey := [⟨.provider, e.provider⟩, ⟨.model, e.runtimeId⟩]

/-- `_specific` -/
def Entry.specific (keys : List ScopeKey) (e : Entry) : Bool := e.ownKeys.any (· ∈ keys)

/-- `_blocked` -/
def Entry.blocked (keys : List ScopeKey) (e : Entry) : Bool := e.specific keys || decide (globalKey ∈ keys)

/-- `_strict_blocked` -/
def Entry.strictBlocked (keys strict : List ScopeKey) (e : Entry) : Bool :=
  (globalKey :: e.ownKeys).any fun k => k ∈ strict && k ∈ keys

/-- `filter_catalog`, with the value of the variable that names the strict scopes. -/
def filterCatalog (snapshot : List RuleState) (now : Int) (strictVar : String) (entries : List Entry) :
    List Entry :=
  let keys := blockedScopeKeys snapshot now
  if keys = [] then entries
  else
    let remaining := entries.filter fun e => !e.blocked keys
    if remaining ≠ [] then remaining
    else
      let onlyGlobal := entries.filter fun e => !e.specific keys
      if 0 < onlyGlobal.length ∧ onlyGlobal.length < entries.length then onlyGlobal
      else
        let strict := strictScopes strictVar
        if strict = [] then entries
        else
          let survivors := entries.filter fun e => !e.strictBlocked keys strict
          if survivors.length < entries.length then survivors else entries

/-! ### What is asked of the gate -/

/-- The result is a part of the catalog without what a strict scope over its cap targets; a model over its own
cap is left only when all are and none of its caps is strict; and nothing is left only if a strict scope over
its cap targets everything. -/
structure Gates (keys strict : List ScopeKey) (entries result : List Entry) : Prop where
  sublist : result.Sublist entries
  held : ∀ e ∈ result, ∀ k ∈ globalKey :: e.ownKeys, k ∈ keys → k ∉ strict
  own : ∀ e ∈ result, (∃ k ∈ e.ownKeys, k ∈ keys) →
    (∀ f ∈ entries, ∃ k ∈ f.ownKeys, k ∈ keys) ∧ ∀ k ∈ e.ownKeys, k ∈ keys → k ∉ strict
  offline : entries ≠ [] → result = [] →
    ∀ e ∈ entries, ∃ k ∈ globalKey :: e.ownKeys, k ∈ keys ∧ k ∈ strict

variable {keys strict : List ScopeKey} {entries : List Entry}

theorem specific_iff {e : Entry} : e.specific keys = true ↔ ∃ k ∈ e.ownKeys, k ∈ keys := by
  simp [Entry.specific]

theorem strictBlocked_iff {e : Entry} :
    e.strictBlocked keys strict = true ↔ ∃ k ∈ globalKey :: e.ownKeys, k ∈ keys ∧ k ∈ strict := by
  simp only [Entry.strictBlocked, List.any_eq_true, Bool.and_eq_true, decide_eq_true_eq, and_comm]

/-- What no cap of its own holds back is right to keep, as long as no strict global cap is over. -/
theorem gates_of_unspecific {result : List Entry} (hsub : result.Sublist entries) (hsome : result ≠ [])
    (hown : ∀ e ∈ result, e.specific keys = false) (hglobal : globalKey ∈ keys → globalKey ∉ strict) :
    Gates keys strict entries result where
  sublist := hsub
  held e he k hk hkey := by
    rcases List.mem_cons.mp hk with rfl | hown'
    · exact hglobal hkey
    · have hspecific := specific_iff.mpr ⟨k, hown', hkey⟩
      simp [hown e he] at hspecific
  own e he hcap := by
    have hspecific := specific_iff.mpr hcap
    simp [hown e he] at hspecific
  offline _ hnone := absurd hnone hsome

/-- Dropping just what strict scopes target is right where all models are over caps of their own or none is. -/
theorem gates_survivors
    (heven : (∀ e ∈ entries, e.specific keys = true) ∨ ∀ e ∈ entries, e.specific keys = false) :
    Gates keys strict entries (entries.filter fun e => !e.strictBlocked keys strict) where
  sublist := List.filter_sublist
  held e he k hk hkey hstrict := by
    have hkept := (List.mem_filter.mp he).2
    simp [strictBlocked_iff.mpr ⟨k, hk, hkey, hstrict⟩] at hkept
  own e he hcap := by
    obtain ⟨hmem, hkept⟩ := List.mem_filter.mp he
    constructor
    · intro f hf
      apply specific_iff.mp
      apply heven.resolve_right _ f hf
      intro hnone
      have hspecific := specific_iff.mpr hcap
      simp [hnone e hmem] at hspecific
    · intro k hk hkey hstrict
      simp [strictBlocked_iff.mpr ⟨k, .tail _ hk, hkey, hstrict⟩] at hkept
  offline _ hnone e he := by
    apply strictBlocked_iff.mp
    by_contra hkept
    rw [List.filter_eq_nil_iff] at hnone
    exact hnone e he (by simpa using hkept)

theorem strictBlocked_nil (e : Entry) : e.strictBlocked keys [] = false := by
  simp [Entry.strictBlocked]

/-- The last fallback drops what strict scopes target, and nothing else. -/
theorem last_fallback (keys strict : List ScopeKey) (entries : List Entry) :
    (if strict = [] then entries
      else if (entries.filter fun e => !e.strictBlocked keys strict).length < entries.length then
        entries.filter fun e => !e.strictBlocked keys strict
      else entries) = entries.filter fun e => !e.strictBlocked keys strict := by
  split
  · rename_i hnone
    simp [hnone, strictBlocked_nil]
  · split
    · rfl
    · rename_i hall
      apply Eq.symm
      exact List.filter_sublist.eq_of_length_le (Nat.le_of_not_lt hall)

/-- The gate keeps what it promises except where a strict global cap is over and only some of the models are
over a cap of their own as well. -/
theorem gate_holds_iff (snapshot : List RuleState) (now : Int) (strictVar : String) (entries : List Entry) :
    Gates (blockedScopeKeys snapshot now) (strictScopes strictVar) entries
        (filterCatalog snapshot now strictVar entries) ↔
      ¬ (globalKey ∈ blockedScopeKeys snapshot now ∧ globalKey ∈ strictScopes strictVar ∧
        (∃ e ∈ entries, e.specific (blockedScopeKeys snapshot now) = true) ∧
        ∃ e ∈ entries, e.specific (blockedScopeKeys snapshot now) = false) := by
  unfold filterCatalog
  dsimp only
  generalize blockedScopeKeys snapshot now = keys
  generalize strictScopes strictVar = strict
  split
  · rename_i hkeys
    subst hkeys
    refine iff_of_true ⟨.refl _, ?_, ?_, fun hne hnone => absurd hnone hne⟩ (by simp)
    · exact nofun
    · exact fun _ _ ⟨_, _, hkey⟩ => nomatch hkey
  split
  · rename_i hsome
    have hopen : globalKey ∉ keys := by
      intro hglobal
      apply hsome
      simp [Entry.blocked, hglobal]
    refine iff_of_true (gates_of_unspecific List.filter_sublist hsome ?_ fun h => absurd h hopen) ?_
    · intro e he
      simpa [Entry.blocked, hopen] using (List.mem_filter.mp he).2
    · exact fun h => hopen h.1
  rename_i hnone
  have hblocked : ∀ e ∈ entries, e.specific keys = true ∨ globalKey ∈ keys := by
    intro e he
    have hout := List.filter_eq_nil_iff.mp (not_not.mp hnone) e he
    simpa only [Entry.blocked, Bool.not_eq_true', Bool.not_eq_false, Bool.or_eq_true, decide_eq_true_eq] using hout
  split
  · rename_i hmixed
    have hne := List.ne_nil_of_length_pos hmixed.1
    obtain ⟨e, he⟩ := List.exists_mem_of_ne_nil _ hne
    obtain ⟨hmem, hunspecific⟩ := List.mem_filter.mp he
    rw [Bool.not_eq_true'] at hunspecific
    have hglobal : globalKey ∈ keys := (hblocked e hmem).resolve_left (by simp [hunspecific])
    have hother : ∃ f ∈ entries, f.specific keys = true := by
      by_contra hall
      push Not at hall
      apply hmixed.2.ne
      rw [List.filter_eq_self.mpr fun f hf => by simpa using hall f hf]
    constructor
    · rintro hgates ⟨-, hstrict, -⟩
      exact hgates.held e he globalKey List.mem_cons_self hglobal hstrict
    · intro hcond
      refine gates_of_unspecific List.filter_sublist hne ?_ ?_
      · exact fun f hf => by simpa using (List.mem_filter.mp hf).2
      · exact fun _ hstrict => hcond ⟨hglobal, hstrict, hother, e, hmem, hunspecific⟩
  · rename_i heven
    rw [last_fallback]
    have hsame : (∀ e ∈ entries, e.specific keys = true) ∨ ∀ e ∈ entries, e.specific keys = false := by
      rw [not_and_or, Nat.pos_iff_ne_zero, not_not, List.length_eq_zero_iff] at heven
      refine heven.imp (fun hempty e he => ?_) (fun hfull e he => ?_)
      · simpa using List.filter_eq_nil_iff.mp hempty e he
      · have hall := List.filter_sublist.eq_of_length_le (Nat.le_of_not_lt hfull)
        simpa using List.filter_eq_self.mp hall e he
    refine iff_of_true (gates_survivors hsame) ?_
    rintro ⟨-, -, ⟨e, he, hspecific⟩, f, hf, hunspecific⟩
    obtain hall | hall := hsame
    · simp [hall f hf] at hunspecific
    · simp [hall e he] at hspecific

/-- A strict global cap is over and so is one provider's: the models of the others stay. -/
theorem strict_global_is_masked :
    let capped (scope : ScopeKey) : RuleState := ⟨scope.value, scope, [], 0, 100, 1, true⟩
    let snapshot := [capped globalKey, capped ⟨.provider, "deepseek"⟩]
    let entries := [⟨"deepseek:chat", "deepseek"⟩, ⟨"openai:gpt", "openai"⟩]
    ¬ Gates (blockedScopeKeys snapshot 10) (strictScopes "global") entries
      (filterCatalog snapshot 10 "global" entries) := by
  intro capped snapshot entries hgates
  have hleft : filterCatalog snapshot 10 "global" entries = [⟨"openai:gpt", "openai"⟩] := rfl
  have hstrict : globalKey ∈ strictScopes "global" := by decide
  have hover : globalKey ∈ blockedScopeKeys snapshot 10 := by decide
  rw [hleft] at hgates
  exact hgates.held _ List.mem_cons_self globalKey List.mem_cons_self hover hstrict

end OpenAgent.Budget
