import Mathlib.Data.Finset.Card
import Mathlib.Data.Finset.Range
import OpenAgent.Lib.Text
import OpenAgent.Models.Pool

/-!
# Rotation before fallback

A call that runs into a rate limit tries the other accounts of its provider before the fallback models.
The loop has no counter. Each failed attempt is reported under the key of the account that made it, and
the loop goes on as long as the pool has an account to hand out.
-/

namespace OpenAgent.Models

open Lib List Option

/-! ### Provider errors -/

inductive ErrorClass
  | provider | rateLimit | contextWindow
deriving DecidableEq

/-- `ModelProviderError` and its subclasses -/
structure ProviderError where
  errorClass : ErrorClass := .provider
  statusCode : Nat := 502
  message : String := ""

/-- `RATE_LIMIT_MESSAGE_PATTERNS` -/
def rateLimitMessagePatterns : List String :=
  ["no available claude oauth account", "no available oauth account", "no available chatgpt account"]

/-- `CONTEXT_WINDOW_PATTERNS` -/
def contextWindowPatterns : List String :=
  ["context_length_exceeded", "context window", "maximum context length", "token limit", "max_tokens",
    "too many tokens", "payload too large", "content_too_large", "request too large", "input too long",
    "prompt is too long", "prompt too long", "exceeds the model"]

/-- `ModelProviderError.classify` -/
def ProviderError.classify (L : LowerCase) (error : ProviderError) : ProviderError :=
  if error.errorClass ≠ .provider then error
  else if error.statusCode ∈ [429, 529] then { error with errorClass := .rateLimit }
  else if rateLimitMessagePatterns.any fun pattern => L.has pattern error.message then
    { error with errorClass := .rateLimit }
  else if contextWindowPatterns.any fun pattern => L.has pattern error.message then
    { error with errorClass := .contextWindow }
  else error

/-! ### Fallback models -/

/-- `FallbackConfig` -/
structure FallbackConfig (M : Type) where
  onError : List M := []
  onRateLimit : List M := []
  onContextOverflow : List M := []

/-- `get_fallback_models`; no models stand for `None`. -/
def getFallbackModels {M : Type} (L : LowerCase) (config : Option (FallbackConfig M))
    (error : ProviderError) : List M :=
  match config with
  | none => []
  | some config =>
    let classified := error.classify L
    if error.errorClass = .rateLimit ∧ ¬ config.onRateLimit.isEmpty then config.onRateLimit
    else if error.errorClass = .contextWindow ∧ ¬ config.onContextOverflow.isEmpty then
      config.onContextOverflow
    else if classified.errorClass = .rateLimit ∧ ¬ config.onRateLimit.isEmpty then config.onRateLimit
    else if classified.errorClass = .contextWindow ∧ ¬ config.onContextOverflow.isEmpty then
      config.onContextOverflow
    else if error.errorClass = .provider ∧ 400 ≤ error.statusCode ∧ error.statusCode < 500 ∧
        error.statusCode ∉ [429, 529] then []
    else config.onError

/-- What one attempt does. An error may come after the attempt has emitted output. -/
inductive Outcome
  | returns
  | fails (error : ProviderError) (emitted : Bool)
  /-- An exception that is no provider error. -/
  | breaks
  /-- The call is cancelled, or its stream closed. -/
  | cancelled

structure Outcomes (M : Type) where
  original : Outcome
  repaired : Outcome
  rotated : Nat → Outcome
  fallback : M → Outcome

/-- What a call finds around it. `repairable` says for which errors `_plan_inplace_recovery` has a repaired
request, `quarantined` which models the breaker holds back. -/
structure Setting (M : Type) where
  lower : LowerCase
  config : Option (FallbackConfig M)
  repairable : ProviderError → Bool
  quarantined : M → Bool
  breakerEnabled : Bool
  clock : Nat → Nat

inductive Ending
  | returned | raised
deriving DecidableEq

/-- The attempts of a call, in order: the original one, the repaired one, those on accounts of the pool and
those on fallback models. -/
structure Result (M : Type) where
  repaired : Bool := false
  accounts : List Nat := []
  fallbacks : List M := []
  ending : Ending

variable {M : Type}

/-- `_ordered_candidates` -/
def orderedCandidates (s : Setting M) (models : List M) : List M :=
  if !s.breakerEnabled || models.length < 2 then models
  else models.filter (fun m => !s.quarantined m) ++ models.filter s.quarantined

/-- `_atry_fallback_models`, `_atry_fallback_models_stream` -/
def tryFallbackModels (outcome : M → Outcome) : List M → List M × Ending
  | [] => ([], .raised)
  | m :: rest =>
    match outcome m with
    | .returns => ([m], .returned)
    | .fails _ _ =>
      let (tried, ending) := tryFallbackModels outcome rest
      (m :: tried, ending)
    | .breaks => ([m], .raised)
    | .cancelled => ([m], .raised)

def fallBack (s : Setting M) (o : Outcomes M) (repaired : Bool) (accounts : List Nat)
    (primaryError : ProviderError) : Result M :=
  let fallbacks := getFallbackModels s.lower s.config primaryError
  if fallbacks.isEmpty then { repaired, accounts, ending := .raised }
  else
    let (tried, ending) := tryFallbackModels o.fallback (orderedCandidates s fallbacks)
    { repaired, accounts, fallbacks := tried, ending }

/-! ### The rotation -/

inductive Exit
  | ended (ending : Ending)
  | fellThrough (primaryError : ProviderError)

/-- The rotation loop, for at most `fuel` rounds; `stream` tells the two variants apart. The stream reports
each failure with its own status code, and it does not rotate once an attempt has emitted output. -/
def rotation (stream : Bool) (s : Setting M) (rotated : Nat → Outcome) :
    Nat → CredentialPool → Option String → ProviderError → Nat → Nat → Option (List Nat × Exit)
  | 0, _, _, _, _, _ => none
  | fuel + 1, pool, key, primaryError, status, round =>
    match (pool.mark (some status) key (s.clock (2 * round))).selectLocked (s.clock (2 * round + 1)) with
    | (_, none) => some ([], .fellThrough primaryError)
    | (pool, some i) =>
      match rotated round with
      | .returns => some ([i], .ended .returned)
      | .cancelled => some ([i], .ended .raised)
      | .breaks => some ([i], .fellThrough primaryError)
      | .fails e emitted =>
        if stream && emitted then some ([i], .fellThrough e)
        else
          let classified := e.classify s.lower
          if classified.errorClass ≠ .rateLimit then some ([i], .fellThrough e)
          else
            let key := (pool.accounts[i]?).map (·.apiKey)
            let status := if stream then classified.statusCode else status
            (rotation stream s rotated fuel pool key primaryError status (round + 1)).map
              fun (accounts, exit) => (i :: accounts, exit)

def rotateThenFallBack (stream : Bool) (s : Setting M) (o : Outcomes M) (fuel : Nat)
    (pool : Option CredentialPool) (key : Option String) (repaired : Bool) (primaryError : ProviderError) :
    Option (Result M) :=
  let classified := primaryError.classify s.lower
  match pool with
  | none => some (fallBack s o repaired [] primaryError)
  | some pool =>
    if classified.errorClass ≠ .rateLimit then some (fallBack s o repaired [] primaryError)
    else
      (rotation stream s o.rotated fuel pool key primaryError classified.statusCode 0).map
        fun (accounts, exit) =>
          match exit with
          | .ended ending => { repaired, accounts, ending }
          | .fellThrough error => fallBack s o repaired accounts error

def repairThenRotate (stream : Bool) (s : Setting M) (o : Outcomes M) (fuel : Nat)
    (pool : Option CredentialPool) (key : Option String) (primaryError : ProviderError) :
    Option (Result M) :=
  if s.repairable primaryError then
    match o.repaired with
    | .returns => some { repaired := true, ending := .returned }
    | .cancelled => some { repaired := true, ending := .raised }
    | _ => rotateThenFallBack stream s o fuel pool key true primaryError
  else rotateThenFallBack stream s o fuel pool key false primaryError

/-- `acall_model_with_fallback` -/
def acallModelWithFallback (s : Setting M) (o : Outcomes M) (pool : Option CredentialPool)
    (key : Option String) (fuel : Nat) : Option (Result M) :=
  match o.original with
  | .returns => some { ending := .returned }
  | .breaks => some { ending := .raised }
  | .cancelled => some { ending := .raised }
  | .fails e _ => repairThenRotate false s o fuel pool key e

/-- `acall_model_stream_with_fallback` -/
def acallModelStreamWithFallback (s : Setting M) (o : Outcomes M) (pool : Option CredentialPool)
    (key : Option String) (fuel : Nat) : Option (Result M) :=
  match o.original with
  | .returns => some { ending := .returned }
  | .breaks => some { ending := .raised }
  | .cancelled => some { ending := .raised }
  | .fails e emitted =>
    if emitted then some (fallBack s o false [] e) else repairThenRotate true s o fuel pool key e

/-! ### Accounts that a call may use -/

def PooledAccount.OkAt (now : Nat) (acc : PooledAccount) : Prop :=
  acc.lastStatus = .ok ∨
    acc.lastStatus = .exhausted ∧ ∃ reset, acc.lastErrorResetAt = some reset ∧ reset ≤ now

theorem lifted_ok_iff {now : Nat} {acc : PooledAccount} :
    (acc.lifted now).lastStatus = .ok ↔ acc.OkAt now := by
  rw [PooledAccount.OkAt, PooledAccount.lifted]
  constructor
  · intro h
    split at h
    · rename_i hover
      obtain ⟨reset, hreset, hle⟩ := (any_eq_true _ _).mp hover.2
      exact .inr ⟨hover.1, reset, hreset, of_decide_eq_true hle⟩
    · exact .inl h
  · rintro (hok | ⟨hexhausted, reset, hreset, hle⟩)
    · rw [if_neg]
      · exact hok
      · rintro ⟨hexhausted, -⟩
        simp [hok] at hexhausted
    · rw [if_pos]
      exact ⟨hexhausted, by rw [hreset]; exact decide_eq_true hle⟩

def selectable (now : Nat) (accounts : List PooledAccount) : Finset Nat :=
  (available (accounts.map (·.lifted now))).toFinset

variable {accounts : List PooledAccount}

theorem mem_selectable {now i : Nat} :
    i ∈ selectable now accounts ↔ ∃ acc, accounts[i]? = some acc ∧ acc.OkAt now := by
  rw [selectable, List.mem_toFinset, mem_available]
  constructor
  · rintro ⟨acc, hacc, hok⟩
    rw [getElem?_map] at hacc
    obtain ⟨acc', hacc', rfl⟩ := Option.map_eq_some_iff.mp hacc
    exact ⟨acc', hacc', lifted_ok_iff.mp hok⟩
  · rintro ⟨acc, hacc, hok⟩
    exact ⟨acc.lifted now, by rw [getElem?_map, hacc, map_some], lifted_ok_iff.mpr hok⟩

def PooledAccount.Settled (clock : Nat → Nat) (acc : PooledAccount) : Prop :=
  ∀ reset, acc.lastErrorResetAt = some reset → ∀ k, reset ≤ clock k → reset ≤ clock 0

def Short (clock : Nat → Nat) : Prop := ∀ k, clock 0 ≤ clock k ∧ clock k < clock 0 + rateLimitCooldown

/-- No cooldown elapses while the clock runs: none of those that the pool has, and none that starts. -/
structure NoCooldownElapses (pool : CredentialPool) (clock : Nat → Nat) : Prop where
  short : Short clock
  lasting : ∀ acc ∈ pool.accounts, acc.Settled clock

def failureOf (accounts : List PooledAccount) (i : Nat) : Option Nat :=
  (accounts[i]?).bind fun acc => accountOf accounts (some acc.apiKey)

def FailuresMatch (pool : CredentialPool) (now : Nat) : Prop :=
  ∀ i ∈ selectable now pool.accounts, failureOf pool.accounts i = some i

instance (pool : CredentialPool) (now : Nat) : Decidable (FailuresMatch pool now) :=
  inferInstanceAs (Decidable (∀ i ∈ selectable now pool.accounts, failureOf pool.accounts i = some i))

/-! ### One round -/

theorem accountOf_keys {accounts' : List PooledAccount}
    (h : accounts'.map (·.apiKey) = accounts.map (·.apiKey)) (key : Option String) :
    accountOf accounts' key = accountOf accounts key := by
  have hmap : ∀ l : List PooledAccount,
      accountOf l key = (l.map (·.apiKey)).findIdx? fun k => some k = key := by
    intro l
    rw [accountOf, findIdx?_map]
    rfl
  rw [hmap, hmap, h]

theorem failureOf_keys {accounts' : List PooledAccount}
    (h : accounts'.map (·.apiKey) = accounts.map (·.apiKey)) (i : Nat) :
    failureOf accounts' i = failureOf accounts i := by
  have hmap : ∀ l : List PooledAccount, l.map (·.apiKey) = accounts.map (·.apiKey) →
      failureOf l i = ((accounts.map (·.apiKey))[i]?).bind fun k => accountOf accounts (some k) := by
    intro l hl
    rw [failureOf, ← hl, getElem?_map, bind_map]
    congr 1
    funext acc
    exact accountOf_keys hl _
  rw [hmap accounts' h, hmap accounts rfl]

variable {clock : Nat → Nat}

theorem okAt_settled {acc : PooledAccount} (hsettled : acc.Settled clock) {k : Nat} (hk : clock 0 ≤ clock k)
    : acc.OkAt (clock k) ↔ acc.OkAt (clock 0) := by
  constructor
  · rintro (hok | ⟨hexhausted, reset, hreset, hle⟩)
    · exact .inl hok
    · exact .inr ⟨hexhausted, reset, hreset, hsettled reset hreset k hle⟩
  · rintro (hok | ⟨hexhausted, reset, hreset, hle⟩)
    · exact .inl hok
    · exact .inr ⟨hexhausted, reset, hreset, Nat.le_trans hle hk⟩

theorem okAt_lifted {acc : PooledAccount} (hsettled : acc.Settled clock) (k n : Nat) :
    PooledAccount.OkAt (clock 0) { acc.lifted (clock k) with requestCount := n } ↔ acc.OkAt (clock 0) := by
  obtain hsame | ⟨hexhausted, ⟨reset, hreset, hle⟩, hlifted⟩ := PooledAccount.lifted_cases (clock k) acc
  · rw [hsame]
    exact Iff.rfl
  · rw [hlifted]
    constructor
    · intro _
      exact .inr ⟨hexhausted, reset, hreset, hsettled reset hreset k hle⟩
    · intro _
      exact .inl rfl

variable {p pool : CredentialPool}

theorem mark_spec (hshort : Short clock) (hsettled : ∀ acc ∈ p.accounts, acc.Settled clock)
    (status : Option Nat) (key : Option String) (k : Nat) :
    (p.mark status key (clock k)).accounts.map (·.apiKey) = p.accounts.map (·.apiKey) ∧
      (∀ acc ∈ (p.mark status key (clock k)).accounts, acc.Settled clock) ∧
      ∀ i, i ∈ selectable (clock 0) (p.mark status key (clock k)).accounts ↔
        i ∈ selectable (clock 0) p.accounts ∧ accountOf p.accounts key ≠ some i := by
  refine ⟨?_, ?_, ?_⟩
  · apply ext_getElem?
    intro i
    rw [getElem?_map, getElem?_map, CredentialPool.mark, failFirst_spec]
    split
    · rw [Option.map_map]
      congr 1
      funext acc
      simp only [Function.comp, PooledAccount.failed]
      split <;> rfl
    · rfl
  · intro acc hmem
    obtain ⟨i, hi⟩ := getElem?_of_mem hmem
    rw [CredentialPool.mark, failFirst_spec] at hi
    split at hi
    · obtain ⟨old, -, rfl⟩ := Option.map_eq_some_iff.mp hi
      intro reset hreset j hle
      obtain ⟨-, hnone⟩ | ⟨-, hsome⟩ := failed_cases status (clock k) old
      · simp [hnone] at hreset
      · rw [hsome] at hreset
        have hstart := (hshort k).1
        have hend := (hshort j).2
        have hvalue := some.inj hreset
        omega
    · exact hsettled acc (mem_of_getElem? hi)
  · intro i
    rw [mem_selectable, mem_selectable, CredentialPool.mark, failFirst_spec]
    split
    · rename_i hhit
      constructor
      · rintro ⟨acc, hacc, hok⟩
        obtain ⟨old, -, rfl⟩ := Option.map_eq_some_iff.mp hacc
        exfalso
        obtain ⟨hdead, -⟩ | ⟨hexhausted, hreset⟩ := failed_cases status (clock k) old
        · rcases hok with hok | ⟨hexhausted, -⟩
          · simp [hdead] at hok
          · simp [hdead] at hexhausted
        · rcases hok with hok | ⟨-, reset, hreset', hle⟩
          · simp [hexhausted] at hok
          · rw [hreset] at hreset'
            have hstart := (hshort k).1
            have hpos : 0 < rateLimitCooldown := by decide
            have hvalue := some.inj hreset'
            omega
      · rintro ⟨-, hmiss⟩
        exact absurd hhit hmiss
    · rename_i hmiss
      exact ⟨fun h => ⟨h, hmiss⟩, fun h => h.1⟩

theorem select_spec (hshort : Short clock) {q : CredentialPool} {k : Nat} {handed : Option Nat}
    (hsettled : ∀ acc ∈ p.accounts, acc.Settled clock) (h : p.selectLocked (clock k) = (q, handed)) :
    q.accounts.map (·.apiKey) = p.accounts.map (·.apiKey) ∧
      (∀ acc ∈ q.accounts, acc.Settled clock) ∧
      (∀ i, i ∈ selectable (clock 0) q.accounts ↔ i ∈ selectable (clock 0) p.accounts) ∧
      (∀ i, handed = some i → i ∈ selectable (clock 0) p.accounts) ∧
      (handed = none → selectable (clock 0) p.accounts = ∅) := by
  obtain ⟨hlen, hkept, hhanded, hnone⟩ := CredentialPool.selectLocked_spec h
  have hback : ∀ (i : Nat) acc', q.accounts[i]? = some acc' →
      ∃ acc n, p.accounts[i]? = some acc ∧ acc' = { acc.lifted (clock k) with requestCount := n } := by
    intro i acc' hacc'
    have hlt : i < p.accounts.length := by
      rw [← hlen]
      exact (List.getElem?_eq_some_iff.mp hacc').1
    obtain ⟨n, hn⟩ := hkept i _ (getElem?_eq_getElem hlt)
    rw [hn] at hacc'
    exact ⟨_, n, getElem?_eq_getElem hlt, (some.inj hacc').symm⟩
  refine ⟨?_, ?_, ?_, ?_, ?_⟩
  · apply ext_getElem?
    intro i
    rw [getElem?_map, getElem?_map]
    cases hacc : p.accounts[i]? with
    | none =>
      rw [getElem?_eq_none_iff] at hacc
      rw [getElem?_eq_none (by omega)]
    | some acc =>
      obtain ⟨n, hn⟩ := hkept i acc hacc
      rw [hn, map_some, map_some]
      exact congrArg some (PooledAccount.lifted_apiKey (clock k) acc)
  · intro acc' hmem reset hreset
    obtain ⟨i, hi⟩ := getElem?_of_mem hmem
    obtain ⟨acc, n, hacc, rfl⟩ := hback i acc' hi
    exact hsettled acc (mem_of_getElem? hacc) reset (lifted_reset hreset)
  · intro i
    rw [mem_selectable, mem_selectable]
    constructor
    · rintro ⟨acc', hacc', hok⟩
      obtain ⟨acc, n, hacc, rfl⟩ := hback i acc' hacc'
      exact ⟨acc, hacc, (okAt_lifted (hsettled acc (mem_of_getElem? hacc)) k n).mp hok⟩
    · rintro ⟨acc, hacc, hok⟩
      obtain ⟨n, hn⟩ := hkept i acc hacc
      exact ⟨_, hn, (okAt_lifted (hsettled acc (mem_of_getElem? hacc)) k n).mpr hok⟩
  · intro i hi
    obtain ⟨acc, hacc, hok⟩ := hhanded i hi
    rw [mem_selectable]
    refine ⟨acc, hacc, ?_⟩
    exact (okAt_settled (hsettled acc (mem_of_getElem? hacc)) (hshort k).1).mp (lifted_ok_iff.mp hok)
  · intro hn
    apply Finset.eq_empty_of_forall_notMem
    intro i hi
    obtain ⟨acc, hacc, hok⟩ := mem_selectable.mp hi
    apply hnone hn acc (mem_of_getElem? hacc)
    apply lifted_ok_iff.mpr
    exact (okAt_settled (hsettled acc (mem_of_getElem? hacc)) (hshort k).1).mpr hok

theorem round_spec (hshort : Short clock) {q : CredentialPool} {status : Option Nat} {key : Option String}
    {j k : Nat} {handed : Option Nat} (hsettled : ∀ acc ∈ p.accounts, acc.Settled clock)
    (h : (p.mark status key (clock j)).selectLocked (clock k) = (q, handed)) :
    q.accounts.map (·.apiKey) = p.accounts.map (·.apiKey) ∧
      (∀ acc ∈ q.accounts, acc.Settled clock) ∧
      (∀ i, i ∈ selectable (clock 0) q.accounts ↔
        i ∈ selectable (clock 0) p.accounts ∧ accountOf p.accounts key ≠ some i) ∧
      (∀ i, handed = some i → i ∈ selectable (clock 0) q.accounts) ∧
      (handed = none → selectable (clock 0) q.accounts = ∅) := by
  obtain ⟨hkeys, hsettled', hmarked⟩ := mark_spec hshort hsettled status key j
  obtain ⟨hkeys', hsettled'', hselected, hsome, hnone⟩ := select_spec hshort hsettled' h
  refine ⟨hkeys'.trans hkeys, hsettled'', ?_, ?_, ?_⟩
  · intro i
    exact (hselected i).trans (hmarked i)
  · intro i hi
    exact (hselected i).mpr (hsome i hi)
  · intro hn
    rw [← hnone hn]
    ext i
    exact hselected i

/-! ### All rounds -/

def left (now : Nat) (p : CredentialPool) (key : Option String) : Finset Nat :=
  (selectable now p.accounts).filter fun i => accountOf p.accounts key ≠ some i

/-- Where failures match, each round takes the account that it hands out from what is left, so the
rotation ends and tries no account twice. -/
theorem rotation_ends (stream : Bool) (s : Setting M) (rotated : Nat → Outcome) (hshort : Short s.clock)
    {fuel : Nat} {key : Option String} (hsettled : ∀ acc ∈ p.accounts, acc.Settled s.clock)
    (hmatch : FailuresMatch p (s.clock 0)) (hfuel : (left (s.clock 0) p key).card < fuel)
    (primaryError : ProviderError) (status round : Nat) :
    ∃ handed exit, rotation stream s rotated fuel p key primaryError status round = some (handed, exit) ∧
      handed.Nodup ∧ ∀ i ∈ handed, i ∈ left (s.clock 0) p key := by
  induction fuel generalizing p key status round with
  | zero => exact absurd hfuel (Nat.not_lt_zero _)
  | succ fuel ih =>
    rw [rotation]
    cases hsel : (p.mark (some status) key (s.clock (2 * round))).selectLocked
        (s.clock (2 * round + 1)) with
    | mk q handed =>
      obtain ⟨hkeys, hsettled', hleft, hsome, -⟩ := round_spec hshort hsettled hsel
      have hq : ∀ i, i ∈ selectable (s.clock 0) q.accounts ↔ i ∈ left (s.clock 0) p key := by
        intro i
        rw [hleft i, left, Finset.mem_filter]
      cases handed with
      | none => exact ⟨[], _, rfl, nodup_nil, fun i hi => absurd hi not_mem_nil⟩
      | some i =>
        have hi := (hq i).mp (hsome i rfl)
        have hone : ∀ exit : Exit, ∃ handed exit', some ([i], exit) = some (handed, exit') ∧
            handed.Nodup ∧ ∀ j ∈ handed, j ∈ left (s.clock 0) p key := by
          intro exit
          refine ⟨[i], exit, rfl, nodup_singleton i, ?_⟩
          intro j hj
          rwa [List.mem_singleton.mp hj]
        simp only
        cases hout : rotated round with
        | returns => exact hone _
        | cancelled => exact hone _
        | breaks => exact hone _
        | fails e emitted =>
          simp only
          split
          · exact hone _
          · split
            · exact hone _
            · have hmatch' : FailuresMatch q (s.clock 0) := by
                intro j hj
                rw [failureOf_keys hkeys]
                exact hmatch j ((hleft j).mp hj).1
              have hhit : accountOf q.accounts ((q.accounts[i]?).map (·.apiKey)) = some i := by
                have hfirst := hmatch' i (hsome i rfl)
                obtain ⟨acc, hacc, hof⟩ := Option.bind_eq_some_iff.mp hfirst
                rw [hacc]
                exact hof
              have hless : ∀ j, j ∈ left (s.clock 0) q ((q.accounts[i]?).map (·.apiKey)) ↔
                  j ∈ left (s.clock 0) p key ∧ j ≠ i := by
                intro j
                rw [left, Finset.mem_filter, hhit, hq]
                simp [eq_comm]
              have hcard : (left (s.clock 0) q ((q.accounts[i]?).map (·.apiKey))).card < fuel := by
                have hlt : (left (s.clock 0) q ((q.accounts[i]?).map (·.apiKey))).card <
                    (left (s.clock 0) p key).card := by
                  apply Finset.card_lt_card
                  refine ⟨fun j hj => ((hless j).mp hj).1, fun hsub => ?_⟩
                  exact ((hless i).mp (hsub hi)).2 rfl
                omega
              obtain ⟨more, exit, hrest, hnodup, hmore⟩ :=
                ih hsettled' hmatch' hcard
                  (if stream then (e.classify s.lower).statusCode else status) (round + 1)
              rw [hrest]
              refine ⟨i :: more, exit, rfl, ?_, ?_⟩
              · apply List.nodup_cons.mpr
                exact ⟨fun hmem => ((hless i).mp (hmore i hmem)).2 rfl, hnodup⟩
              · intro j hj
                rcases List.mem_cons.mp hj with rfl | hj
                · exact hi
                · exact ((hless j).mp (hmore j hj)).1

theorem key_of_accountOf {key : Option String} {i : Nat} (h : accountOf accounts key = some i)
    : (accounts[i]?).map (·.apiKey) = key := by
  obtain ⟨hlt, hkey, -⟩ := List.findIdx?_eq_some_iff_getElem.mp h
  rw [getElem?_eq_getElem hlt, map_some]
  exact of_decide_eq_true hkey

def limited : ProviderError := { errorClass := .rateLimit, statusCode := 429 }

def allLimited : Outcomes M where
  original := .fails limited false
  repaired := .fails limited false
  rotated _ := .fails limited false
  fallback _ := .fails limited false

theorem rotation_endless (stream : Bool) (s : Setting M) (hshort : Short s.clock) (fuel : Nat) {i : Nat}
    (hsettled : ∀ acc ∈ p.accounts, acc.Settled s.clock) (hi : i ∈ selectable (s.clock 0) p.accounts)
    (hother : failureOf p.accounts i ≠ some i) (key : Option String) (primaryError : ProviderError)
    (status round : Nat) :
    rotation stream s (fun _ => .fails limited false) fuel p key primaryError status round = none := by
  induction fuel generalizing p key status round with
  | zero => rw [rotation]
  | succ fuel ih =>
    rw [rotation]
    cases hsel : (p.mark (some status) key (s.clock (2 * round))).selectLocked
        (s.clock (2 * round + 1)) with
    | mk q handed =>
      obtain ⟨hkeys, hsettled', hleft, -, hnone⟩ := round_spec hshort hsettled hsel
      have hmiss : accountOf p.accounts key ≠ some i := by
        intro hhit
        apply hother
        have hkey := key_of_accountOf hhit
        obtain ⟨acc, hacc, -⟩ := mem_selectable.mp hi
        rw [hacc, map_some] at hkey
        rw [failureOf, hacc, bind_some, hkey, hhit]
      have hi' : i ∈ selectable (s.clock 0) q.accounts := (hleft i).mpr ⟨hi, hmiss⟩
      have hother' : failureOf q.accounts i ≠ some i := by
        rw [failureOf_keys hkeys]
        exact hother
      cases handed with
      | none =>
        rw [hnone rfl] at hi'
        exact absurd hi' (Finset.notMem_empty i)
      | some j =>
        have hclass : (limited.classify s.lower).errorClass = .rateLimit := rfl
        simp only [Bool.and_false, Bool.false_eq_true, if_false, hclass, ne_eq, not_true_eq_false]
        rw [ih hsettled' hi' hother', map_none]

/-! ### A call -/

theorem fallBack_accounts (s : Setting M) (o : Outcomes M) (repaired : Bool) (accounts : List Nat)
    (primaryError : ProviderError) : (fallBack s o repaired accounts primaryError).accounts = accounts := by
  rw [fallBack]
  split <;> rfl

def EndsOnce (call : Nat → Option (Result M)) : Prop :=
  ∃ fuel result, call fuel = some result ∧ result.accounts.Nodup

theorem endsOnce_of_const {call : Nat → Option (Result M)} {result : Result M}
    (h : ∀ fuel, call fuel = some result) (hnone : result.accounts = []) : EndsOnce call :=
  ⟨0, result, h 0, by rw [hnone]; exact nodup_nil⟩

theorem rotateThenFallBack_ends (stream : Bool) (s : Setting M) (o : Outcomes M) (key : Option String)
    (hclock : NoCooldownElapses pool s.clock) (hmatch : FailuresMatch pool (s.clock 0)) (repaired : Bool)
    (primaryError : ProviderError) :
    EndsOnce fun fuel => rotateThenFallBack stream s o fuel (some pool) key repaired primaryError := by
  by_cases hclass : (primaryError.classify s.lower).errorClass = .rateLimit
  · obtain ⟨handed, exit, hrot, hnodup, -⟩ := rotation_ends stream s o.rotated hclock.short hclock.lasting
      hmatch (Nat.lt_succ_self (left (s.clock 0) pool key).card) primaryError
      (primaryError.classify s.lower).statusCode 0
    refine ⟨(left (s.clock 0) pool key).card + 1, ?_⟩
    simp only [rotateThenFallBack, hclass, ne_eq, not_true_eq_false, if_false]
    rw [hrot]
    cases exit with
    | ended ending => exact ⟨_, rfl, hnodup⟩
    | fellThrough error => exact ⟨_, rfl, by rw [fallBack_accounts]; exact hnodup⟩
  · apply endsOnce_of_const _ (fallBack_accounts s o repaired [] primaryError)
    intro fuel
    simp only [rotateThenFallBack]
    rw [if_pos hclass]

theorem rotateThenFallBack_endless (stream : Bool) (s : Setting M) (key : Option String)
    (hclock : NoCooldownElapses pool s.clock) (hmatch : ¬ FailuresMatch pool (s.clock 0)) (repaired : Bool)
    (fuel : Nat) :
    rotateThenFallBack stream s allLimited fuel (some pool) key repaired limited = none := by
  have hclass : (limited.classify s.lower).errorClass = .rateLimit := rfl
  rw [FailuresMatch] at hmatch
  push Not at hmatch
  obtain ⟨i, hi, hother⟩ := hmatch
  simp only [rotateThenFallBack, hclass, ne_eq, not_true_eq_false, if_false, allLimited]
  rw [rotation_endless stream s hclock.short fuel hclock.lasting hi hother, map_none]

theorem repairThenRotate_ends (stream : Bool) (s : Setting M) (o : Outcomes M) (key : Option String)
    (hclock : NoCooldownElapses pool s.clock) (hmatch : FailuresMatch pool (s.clock 0))
    (primaryError : ProviderError) :
    EndsOnce fun fuel => repairThenRotate stream s o fuel (some pool) key primaryError := by
  have hrotate := rotateThenFallBack_ends stream s o key hclock hmatch
  simp only [repairThenRotate]
  split
  · split
    · exact endsOnce_of_const (fun _ => rfl) rfl
    · exact endsOnce_of_const (fun _ => rfl) rfl
    · exact hrotate true primaryError
  · exact hrotate false primaryError

theorem acall_ends (s : Setting M) (o : Outcomes M) (key : Option String)
    (hclock : NoCooldownElapses pool s.clock) (hmatch : FailuresMatch pool (s.clock 0)) :
    EndsOnce (acallModelWithFallback s o (some pool) key) := by
  show EndsOnce fun fuel => acallModelWithFallback s o (some pool) key fuel
  simp only [acallModelWithFallback]
  split
  · exact endsOnce_of_const (fun _ => rfl) rfl
  · exact endsOnce_of_const (fun _ => rfl) rfl
  · exact endsOnce_of_const (fun _ => rfl) rfl
  · exact repairThenRotate_ends false s o key hclock hmatch _

theorem acallStream_ends (s : Setting M) (o : Outcomes M) (key : Option String)
    (hclock : NoCooldownElapses pool s.clock) (hmatch : FailuresMatch pool (s.clock 0)) :
    EndsOnce (acallModelStreamWithFallback s o (some pool) key) := by
  show EndsOnce fun fuel => acallModelStreamWithFallback s o (some pool) key fuel
  simp only [acallModelStreamWithFallback]
  split
  · exact endsOnce_of_const (fun _ => rfl) rfl
  · exact endsOnce_of_const (fun _ => rfl) rfl
  · exact endsOnce_of_const (fun _ => rfl) rfl
  · split
    · exact endsOnce_of_const (fun _ => rfl) (fallBack_accounts s o false [] _)
    · exact repairThenRotate_ends true s o key hclock hmatch _

theorem repairThenRotate_endless (stream : Bool) (s : Setting M) (key : Option String)
    (hclock : NoCooldownElapses pool s.clock) (hmatch : ¬ FailuresMatch pool (s.clock 0)) (fuel : Nat) :
    repairThenRotate stream s allLimited fuel (some pool) key limited = none := by
  rw [repairThenRotate]
  split
  · exact rotateThenFallBack_endless stream s key hclock hmatch true fuel
  · exact rotateThenFallBack_endless stream s key hclock hmatch false fuel

theorem calls_endless (s : Setting M) (key : Option String) (hclock : NoCooldownElapses pool s.clock)
    (hmatch : ¬ FailuresMatch pool (s.clock 0)) :
    ¬ EndsOnce (acallModelWithFallback s allLimited (some pool) key) ∧
      ¬ EndsOnce (acallModelStreamWithFallback s allLimited (some pool) key) := by
  constructor
  · rintro ⟨fuel, result, hresult, -⟩
    have hnone : acallModelWithFallback s allLimited (some pool) key fuel = none :=
      repairThenRotate_endless false s key hclock hmatch fuel
    simp [hnone] at hresult
  · rintro ⟨fuel, result, hresult, -⟩
    have hnone : acallModelStreamWithFallback s allLimited (some pool) key fuel = none :=
      repairThenRotate_endless true s key hclock hmatch fuel
    simp [hnone] at hresult

/-- Whatever the attempts do, a call of either variant ends and tries no account twice, if and only if no
selectable account shares its key with an earlier one. -/
theorem rotation_ends_iff (s : Setting M) {pool : CredentialPool} (key : Option String)
    (hclock : NoCooldownElapses pool s.clock) :
    ((∀ o, EndsOnce (acallModelWithFallback s o (some pool) key)) ↔ FailuresMatch pool (s.clock 0)) ∧
      ((∀ o, EndsOnce (acallModelStreamWithFallback s o (some pool) key)) ↔
        FailuresMatch pool (s.clock 0)) := by
  constructor
  · constructor
    · intro hends
      by_contra hmatch
      exact (calls_endless s key hclock hmatch).1 (hends allLimited)
    · intro hmatch o
      exact acall_ends s o key hclock hmatch
  · constructor
    · intro hends
      by_contra hmatch
      exact (calls_endless s key hclock hmatch).2 (hends allLimited)
    · intro hmatch o
      exact acallStream_ends s o key hclock hmatch

/-! ### Pools as they are configured -/

def plainSetting : Setting Unit where
  lower := .asciiOnly
  config := some { onError := [()] }
  repairable _ := false
  quarantined _ := false
  breakerEnabled := true
  clock _ := 0

theorem noCooldownElapses_ofCredentials (credentials : List Credential) (strategy : Strategy) :
    NoCooldownElapses (.ofCredentials credentials strategy) plainSetting.clock where
  short _ := ⟨Nat.le_refl 0, show 0 < rateLimitCooldown by decide⟩
  lasting := by
    intro acc hmem reset hreset
    obtain ⟨c, -, rfl⟩ := List.mem_map.mp hmem
    cases hreset

/-- Two accounts with different keys are each tried once. -/
theorem different_keys_end :
    EndsOnce (acallModelWithFallback plainSetting allLimited
      (some (.ofCredentials [⟨"a", none, "", 0⟩, ⟨"b", none, "", 0⟩] .fillFirst)) (some "a")) := by
  have hclock := noCooldownElapses_ofCredentials [⟨"a", none, "", 0⟩, ⟨"b", none, "", 0⟩] .fillFirst
  exact ((rotation_ends_iff plainSetting (some "a") hclock).1.mpr (by decide)) allLimited

/-- Two entries with one key: every failure is about the first, and the second is tried for ever. -/
theorem shared_key_never_ends :
    ∃ pool, buildPool none [{ apiKey := some "k" }, { apiKey := some "k" }] "fill_first" = some pool ∧
      NoCooldownElapses pool plainSetting.clock ∧
      ¬ EndsOnce (acallModelWithFallback plainSetting allLimited (some pool) (some "k")) ∧
      ¬ EndsOnce (acallModelStreamWithFallback plainSetting allLimited (some pool) (some "k")) := by
  have hclock := noCooldownElapses_ofCredentials [⟨"k", none, "", 0⟩, ⟨"k", none, "", 0⟩] .fillFirst
  have hbuilt : buildAccounts none [{ apiKey := some "k" }, { apiKey := some "k" }] =
      [⟨"k", none, "", 0⟩, ⟨"k", none, "", 0⟩] := by
    rfl
  refine ⟨.ofCredentials [⟨"k", none, "", 0⟩, ⟨"k", none, "", 0⟩] .fillFirst, ?_, hclock, ?_⟩
  · rw [buildPool, hbuilt]
    rfl
  · exact calls_endless plainSetting (some "k") hclock (by decide)

end OpenAgent.Models
