import OpenAgent.Contracts
import OpenAgent.Lib.Least
import OpenAgent.Lib.Transition

/-!
# The accounts of a provider

A pool rotates the accounts of one provider. A selection first lifts the cooldowns that are over and then
takes one of the accounts that are OK; a reported failure finds its account by the key of the call and
takes it out, for an hour or for good. Times are nanoseconds of the monotonic clock.
-/

namespace OpenAgent.Models

open Lib List Option

/-- `last_status` -/
inductive Status
  | ok | exhausted | dead
deriving DecidableEq

/-- `_RATE_LIMIT_COOLDOWN_S` -/
def rateLimitCooldown : Nat := 3600 * 1000000000

/-- `_AUTH_STATUS_CODES` -/
def authStatusCodes : List Nat := [401, 403]

structure Credential where
  apiKey : String
  baseUrl : Option String := none
  label : String := ""
  priority : Int := 0
deriving DecidableEq

/-- `PooledAccount` -/
structure PooledAccount extends Credential where
  lastStatus : Status := .ok
  lastErrorResetAt : Option Nat := none
  requestCount : Nat := 0
deriving DecidableEq

inductive Strategy
  | fillFirst | roundRobin | leastUsed
deriving DecidableEq

def Strategy.ofName (name : String) : Strategy :=
  if name = "round_robin" then .roundRobin else if name = "least_used" then .leastUsed else .fillFirst

/-- `CredentialPool` -/
structure CredentialPool where
  accounts : List PooledAccount
  strategy : Strategy := .fillFirst
  rrCursor : Int := -1

/-- `CredentialPool.__init__` -/
def CredentialPool.ofCredentials (credentials : List Credential) (strategy : Strategy) : CredentialPool where
  accounts := credentials.map fun c => { c with }
  strategy := strategy

/-! ### The configuration -/

/-- `text.strip()` -/
def strip (text : String) : String :=
  String.ofList ((text.toList.dropWhile isSpace).reverse.dropWhile isSpace).reverse

/-- One entry of `metadata.accounts`; a priority that is no number counts as none. -/
structure RawAccount where
  apiKey : Option String := none
  baseUrl : Option String := none
  label : Option String := none
  priority : Option Int := none

/-- `value or other` -/
def orElse (value other : Option String) : Option String :=
  if value = some "" then other else value <|> other

def RawAccount.credential (providerBaseUrl : Option String) (raw : RawAccount) : Option Credential :=
  match raw.apiKey with
  | none => none
  | some key =>
    if strip key = "" then none
    else some {
      apiKey := strip key
      baseUrl := orElse raw.baseUrl providerBaseUrl
      label := strip (raw.label.getD "")
      priority := raw.priority.getD 0 }

/-- `_build_accounts` -/
def buildAccounts (providerBaseUrl : Option String) (raws : List RawAccount) : List Credential :=
  raws.filterMap fun raw => raw.credential providerBaseUrl

/-- `get_or_build_pool`, where no pool is cached -/
def buildPool (providerBaseUrl : Option String) (raws : List RawAccount) (strategy : String) :
    Option CredentialPool :=
  let accounts := buildAccounts providerBaseUrl raws
  if accounts.length ≤ 1 then none else some (.ofCredentials accounts (.ofName strategy))

/-! ### Selection -/

def PooledAccount.lifted (now : Nat) (acc : PooledAccount) : PooledAccount :=
  if acc.lastStatus = .exhausted ∧ acc.lastErrorResetAt.any (· ≤ now) then
    { acc with lastStatus := .ok, lastErrorResetAt := none }
  else acc

def available (accounts : List PooledAccount) : List Nat :=
  (List.range accounts.length).filter fun i => accounts[i]?.any fun acc => acc.lastStatus = .ok

def priorityAt (accounts : List PooledAccount) (i : Nat) : Int := (accounts[i]?.map (·.priority)).getD 0

def requestCountAt (accounts : List PooledAccount) (i : Nat) : Nat :=
  (accounts[i]?.map (·.requestCount)).getD 0

def roundRobinOrder (cursor : Int) (n : Nat) : List Nat :=
  (List.range n).map fun step => ((cursor + (step + 1)) % n).toNat

def CredentialPool.choose (p : CredentialPool) (free : List Nat) : Option Nat :=
  match p.strategy with
  | .roundRobin => ((roundRobinOrder p.rrCursor p.accounts.length).find? (· ∈ free)).or free.head?
  | .leastUsed => leastBy (fun i => requestCountAt p.accounts i) free
  | .fillFirst => leastBy (fun i => -priorityAt p.accounts i) free

def CredentialPool.hand (p : CredentialPool) (i : Nat) : CredentialPool :=
  { p with
    accounts := p.accounts.modify i fun acc => { acc with requestCount := acc.requestCount + 1 }
    rrCursor := if p.strategy = .roundRobin then i else p.rrCursor }

/-- `_select_locked` -/
def CredentialPool.selectLocked (p : CredentialPool) (now : Nat) : CredentialPool × Option Nat :=
  let p := { p with accounts := p.accounts.map (·.lifted now) }
  match p.choose (available p.accounts) with
  | none => (p, none)
  | some i => (p.hand i, some i)

/-! ### Failures -/

def PooledAccount.failed (status : Option Nat) (now : Nat) (acc : PooledAccount) : PooledAccount :=
  if status.any (· ∈ authStatusCodes) then { acc with lastStatus := .dead, lastErrorResetAt := none }
  else { acc with lastStatus := .exhausted, lastErrorResetAt := some (now + rateLimitCooldown) }

def failFirst (status : Option Nat) (key : Option String) (now : Nat) :
    List PooledAccount → List PooledAccount
  | [] => []
  | acc :: rest =>
    if some acc.apiKey = key then acc.failed status now :: rest
    else acc :: failFirst status key now rest

/-- The first half of `mark_exhausted_and_rotate`; the second is a selection. -/
def CredentialPool.mark (p : CredentialPool) (status : Option Nat) (key : Option String) (now : Nat) :
    CredentialPool :=
  { p with accounts := failFirst status key now p.accounts }

/-! ### What one operation does -/

theorem PooledAccount.lifted_cases (now : Nat) (acc : PooledAccount) :
    acc.lifted now = acc ∨
      acc.lastStatus = .exhausted ∧ (∃ reset, acc.lastErrorResetAt = some reset ∧ reset ≤ now) ∧
        acc.lifted now = { acc with lastStatus := .ok, lastErrorResetAt := none } := by
  rw [PooledAccount.lifted]
  split
  · rename_i h
    right
    obtain ⟨hstatus, hreset⟩ := h
    obtain ⟨reset, hsome, hle⟩ := (any_eq_true _ _).mp hreset
    exact ⟨hstatus, ⟨reset, hsome, of_decide_eq_true hle⟩, rfl⟩
  · exact .inl rfl

theorem lifted_reset {now reset : Nat} {acc : PooledAccount}
    (h : (acc.lifted now).lastErrorResetAt = some reset) : acc.lastErrorResetAt = some reset := by
  obtain hsame | ⟨-, -, hlifted⟩ := PooledAccount.lifted_cases now acc
  · rwa [hsame] at h
  · simp [hlifted] at h

theorem failed_cases (status : Option Nat) (now : Nat) (acc : PooledAccount) :
    (acc.failed status now).lastStatus = .dead ∧ (acc.failed status now).lastErrorResetAt = none ∨
      (acc.failed status now).lastStatus = .exhausted ∧
        (acc.failed status now).lastErrorResetAt = some (now + rateLimitCooldown) := by
  rw [PooledAccount.failed]
  split
  · exact .inl ⟨rfl, rfl⟩
  · exact .inr ⟨rfl, rfl⟩

theorem PooledAccount.lifted_apiKey (now : Nat) (acc : PooledAccount) : (acc.lifted now).apiKey = acc.apiKey := by
  rw [PooledAccount.lifted]
  split <;> rfl

theorem mem_available {accounts : List PooledAccount} {i : Nat} :
    i ∈ available accounts ↔ ∃ acc, accounts[i]? = some acc ∧ acc.lastStatus = .ok := by
  simp only [available, List.mem_filter, mem_range, Option.any_eq_true, decide_eq_true_eq]
  constructor
  · rintro ⟨-, acc, hacc, hok⟩
    exact ⟨acc, hacc, hok⟩
  · rintro ⟨acc, hacc, hok⟩
    exact ⟨(List.getElem?_eq_some_iff.mp hacc).1, acc, hacc, hok⟩

theorem CredentialPool.choose_mem {p : CredentialPool} {free : List Nat} {i : Nat}
    (h : p.choose free = some i) : i ∈ free := by
  rw [CredentialPool.choose] at h
  cases hs : p.strategy with
  | roundRobin =>
    rw [hs] at h
    simp only [Option.or_eq_some_iff] at h
    rcases h with hfound | ⟨-, hhead⟩
    · have hmem := find?_some hfound
      exact of_decide_eq_true hmem
    · exact mem_of_head? hhead
  | leastUsed =>
    rw [hs] at h
    exact leastBy_mem h
  | fillFirst =>
    rw [hs] at h
    exact leastBy_mem h

theorem CredentialPool.choose_none {p : CredentialPool} {free : List Nat} (h : p.choose free = none) :
    free = [] := by
  rw [CredentialPool.choose] at h
  cases hs : p.strategy with
  | roundRobin =>
    rw [hs] at h
    simp only [or_eq_none_iff] at h
    exact List.head?_eq_none_iff.mp h.2
  | leastUsed =>
    rw [hs] at h
    exact leastBy_eq_none.mp h
  | fillFirst =>
    rw [hs] at h
    exact leastBy_eq_none.mp h

theorem CredentialPool.selectLocked_spec {p q : CredentialPool} {now : Nat} {handed : Option Nat}
    (h : p.selectLocked now = (q, handed)) :
    q.accounts.length = p.accounts.length ∧
      (∀ (i : Nat) acc, p.accounts[i]? = some acc →
        ∃ n, q.accounts[i]? = some { acc.lifted now with requestCount := n }) ∧
      (∀ i, handed = some i → ∃ acc, p.accounts[i]? = some acc ∧ (acc.lifted now).lastStatus = .ok) ∧
      (handed = none → ∀ acc ∈ p.accounts, (acc.lifted now).lastStatus ≠ .ok) := by
  have hlifted : ∀ (i : Nat) acc, p.accounts[i]? = some acc →
      (p.accounts.map (·.lifted now))[i]? = some (acc.lifted now) := by
    intro i acc hacc
    rw [getElem?_map, hacc, map_some]
  rw [CredentialPool.selectLocked] at h
  simp only at h
  split at h
  · rename_i hnone
    cases h
    refine ⟨length_map .., ?_, ?_, ?_⟩
    · intro i acc hacc
      exact ⟨(acc.lifted now).requestCount, hlifted i acc hacc⟩
    · exact nofun
    · intro _ acc hmem hok
      obtain ⟨i, hi⟩ := getElem?_of_mem hmem
      have hfree := mem_available.mpr ⟨acc.lifted now, hlifted i acc hi, hok⟩
      simp [CredentialPool.choose_none hnone] at hfree
  · rename_i chosen hsome
    cases h
    refine ⟨?_, ?_, ?_, ?_⟩
    · rw [CredentialPool.hand, length_modify, length_map]
    · intro i acc hacc
      rw [CredentialPool.hand, getElem?_modify, hlifted i acc hacc]
      split
      · exact ⟨(acc.lifted now).requestCount + 1, rfl⟩
      · exact ⟨(acc.lifted now).requestCount, rfl⟩
    · intro i hi
      cases hi
      obtain ⟨acc, hacc, hok⟩ := mem_available.mp (CredentialPool.choose_mem hsome)
      rw [getElem?_map] at hacc
      obtain ⟨acc', hacc', rfl⟩ := Option.map_eq_some_iff.mp hacc
      exact ⟨acc', hacc', hok⟩
    · exact nofun

def accountOf (accounts : List PooledAccount) (key : Option String) : Option Nat :=
  accounts.findIdx? fun acc => some acc.apiKey = key

theorem failFirst_spec (status : Option Nat) (key : Option String) (now : Nat)
    (accounts : List PooledAccount) (i : Nat) :
    (failFirst status key now accounts)[i]? =
      if accountOf accounts key = some i then (accounts[i]?).map (·.failed status now)
      else accounts[i]? := by
  induction accounts generalizing i with
  | nil => rfl
  | cons acc rest ih =>
    rw [failFirst, accountOf, findIdx?_cons]
    by_cases hkey : some acc.apiKey = key
    · cases i with
      | zero => simp [hkey]
      | succ i => simp [hkey]
    · cases i with
      | zero => simp [hkey]
      | succ i =>
        have hrest := ih i
        rw [accountOf] at hrest
        by_cases hfound : rest.findIdx? (fun acc => some acc.apiKey = key) = some i
        · rw [if_pos hfound] at hrest
          simp [hkey, hfound, hrest]
        · rw [if_neg hfound] at hrest
          simp [hkey, hfound, hrest]

end OpenAgent.Models
