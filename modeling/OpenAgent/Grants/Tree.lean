import OpenAgent.Grants.Narrowing
import Mathlib.Data.String.Basic

/-!
# The grant of nested runs

A run carries two context variables: the families it may use, and its execution policy. A child session
narrows the first by the families it was asked to have. A scheduled task and an event narrow the policy and
take their families from it. Whatever was set is set back when the run ends, however it ends.
-/

namespace OpenAgent.Grants

open List

structure Context where
  allow : Option (List String) := none
  policy : Option Policy := none
deriving DecidableEq

structure Tokens where
  allow : Option (Option (List String)) := none
  policy : Option (Option Policy) := none

/-- How a run is started: by `run_child_session`, by the scheduler, or by the event dispatcher. For a task of
the lean local profile the families are those picked for its prompt. -/
inductive Level
  | child (allowedTools : Option (List String))
  | task (policy : Value) (lean : Option (List String))
  | event (policy : Value)

variable (P : Python)

/-- `set_tool_allowlist` -/
def Context.setAllowlist (c : Context) (allow : Option (List String)) : Context :=
  { c with allow := allow.map fun families => families.map P.normalizeFamily }

/-- `set_execution_policy` -/
def Context.setPolicy (c : Context) (policy : Policy) : Except String Context :=
  match normalizeExecutionPolicy P policy.value with
  | .error e => .error e
  | .ok normalized => .ok { c with policy := if normalized = {} then none else some normalized }

/-- `narrow_execution_policy(current_execution_policy(), …)` -/
def Context.narrowed (c : Context) (own : Value) : Except String Policy :=
  match normalizeExecutionPolicy P own with
  | .error e => .error e
  | .ok policy => narrowExecutionPolicy P (c.policy.elim .null Policy.value) policy.value

def Context.granted (c : Context) (policy : Policy) : Option (List String) :=
  match policy.allowedToolFamilies, c.allow with
  | some families, some ambient => some (families.filter fun item => P.normalizeFamily item ∈ ambient)
  | families, _ => families

def Context.install (c : Context) (families : Option (List String)) (policy : Policy) :
    Except String (Context × Tokens) :=
  match (if families = none then c else c.setAllowlist P families).setPolicy P policy with
  | .error e => .error e
  | .ok inside =>
    .ok (inside, { allow := if families = none then none else some c.allow, policy := some c.policy })

def Context.enterChild (c : Context) : Option (List String) → Context × Tokens
  | none => (c, {})
  | some tools =>
    let requested := tools.map P.normalizeFamily
    let effective :=
      match c.allow with
      | none => requested
      | some ambient => requested.filter fun family => family ∈ ambient
    (c.setAllowlist P (some effective), { allow := some c.allow })

def taskFamilies (granted lean : Option (List String)) : Option (List String) :=
  match granted, lean with
  | none, some (family :: rest) => some (family :: rest)
  | families, _ => families

def Context.enter (c : Context) : Level → Except String (Context × Tokens)
  | .child allowedTools => .ok (c.enterChild P allowedTools)
  | .task own lean =>
    match c.narrowed P own with
    | .error e => .error e
    | .ok policy => c.install P (taskFamilies (c.granted P policy) lean) policy
  | .event own =>
    match c.narrowed P own with
    | .error e => .error e
    | .ok policy => c.install P (c.granted P policy) policy

/-- The `finally` of each of them. -/
def Context.leave (c : Context) (tokens : Tokens) : Context where
  allow := tokens.allow.getD c.allow
  policy := tokens.policy.getD c.policy

/-! ### What a run may use -/

/-- `_require_server_allowed` lets the call through. -/
def Context.permits (c : Context) (server : String) : Bool :=
  match c.allow with
  | none => true
  | some allow => P.normalizeFamily server ∈ allow

/-- `_list_servers_impl`, each server with the number of its tools that are not denied. -/
def Context.listServers (c : Context) (pool : List (String × Nat)) : List (String × Nat) :=
  (pool.filter fun entry => entry.1 ≠ "tool-search" && c.permits P entry.1).mergeSort fun a b =>
    decide (a.1 ≤ b.1)

/-! ### Trees of runs -/

/-- The runs that one run starts, one after the other. What runs in a task of its own has a copy of the
context variables. -/
inductive Tree
  | ends
  | nested (ownTask : Bool) (level : Level) (child rest : Tree)

/-- A run, as the path to it, at one moment: what it may use then, and what its ancestors could when they
started it or an ancestor of it. -/
structure Moment where
  path : List Nat
  ancestors : List Context
  context : Context

def moments (path : List Nat) (ancestors : List Context) (next : Nat) (c : Context) :
    Tree → List Moment × Context
  | .ends => ([⟨path, ancestors, c⟩], c)
  | .nested ownTask level child rest =>
    match c.enter P level with
    | .error _ =>
      let later := moments path ancestors (next + 1) c rest
      (⟨path, ancestors, c⟩ :: later.1, later.2)
    | .ok (inside, tokens) =>
      let nested := moments (next :: path) (c :: ancestors) 0 inside child
      let later := moments path ancestors (next + 1) (if ownTask then c else nested.2.leave tokens) rest
      (⟨path, ancestors, c⟩ :: (nested.1 ++ later.1), later.2)

def Level.Plain : Level → Prop
  | .task own (some (_ :: _)) =>
    ∀ policy, normalizeExecutionPolicy P own = .ok policy → policy.allowedToolFamilies ≠ none
  | _ => True

def Tree.Plain : Tree → Prop
  | .ends => True
  | .nested _ level child rest => level.Plain P ∧ child.Plain ∧ rest.Plain

/-! ### One level -/

variable {P} {c c' inside : Context} {tokens : Tokens}

/-- `inside` permits no more than `c`. -/
def Context.Narrower (P : Python) (inside c : Context) : Prop :=
  ∀ server, inside.permits P server = true → c.permits P server = true

theorem Context.Narrower.refl (c : Context) : c.Narrower P c := fun _ h => h

theorem Context.Narrower.trans {a b : Context} (h : a.Narrower P b) (h' : b.Narrower P c) :
    a.Narrower P c := fun server hserver => h' server (h server hserver)

theorem normalizeFamily_idem (s : String) :
    P.normalizeFamily (P.normalizeFamily s) = P.normalizeFamily s := by
  unfold Python.normalizeFamily
  rw [String.toList_ofList, map_map]
  refine congrArg String.ofList (map_congr_left fun ch _ => ?_)
  simp only [Function.comp_apply]
  split
  · rfl
  · simp

theorem permits_none (hallow : c.allow = none) (server : String) : c.permits P server = true := by
  unfold Context.permits
  rw [hallow]

theorem permits_some {allow : List String} (hallow : c.allow = some allow) (server : String) :
    c.permits P server = true ↔ P.normalizeFamily server ∈ allow := by
  unfold Context.permits
  rw [hallow, decide_eq_true_eq]

variable {policy : Policy}

theorem setPolicy_allow (h : c.setPolicy P policy = .ok c') : c'.allow = c.allow := by
  unfold Context.setPolicy at h
  split at h
  · cases h
  · rw [← Except.ok.inj h]

theorem narrower_of_allow (h : inside.allow = c.allow) : inside.Narrower P c := by
  intro server hserver
  unfold Context.permits at *
  rwa [← h]

theorem enterChild_narrower (allowedTools : Option (List String)) :
    (c.enterChild P allowedTools).1.Narrower P c := by
  cases allowedTools with
  | none => exact .refl c
  | some tools =>
    intro server hserver
    cases hallow : c.allow with
    | none => exact permits_none hallow server
    | some ambient =>
      simp only [Context.enterChild, Context.setAllowlist, hallow, Option.map_some] at hserver
      rw [permits_some rfl, mem_map] at hserver
      obtain ⟨family, hfamily, hsame⟩ := hserver
      obtain ⟨hrequested, hambient⟩ := List.mem_filter.mp hfamily
      obtain ⟨tool, -, rfl⟩ := List.mem_map.mp hrequested
      rw [normalizeFamily_idem] at hsame
      rw [permits_some hallow, ← hsame]
      exact of_decide_eq_true hambient

theorem install_narrower {families : Option (List String)}
    (h : c.install P families policy = .ok (inside, tokens))
    (hwithin : ∀ fs ambient, families = some fs → c.allow = some ambient →
      ∀ f ∈ fs, P.normalizeFamily f ∈ ambient) : inside.Narrower P c := by
  unfold Context.install at h
  split at h
  · cases h
  · rename_i installed hset
    cases Except.ok.inj h
    have hallow := setPolicy_allow hset
    cases families with
    | none => exact narrower_of_allow hallow
    | some fs =>
      intro server hserver
      cases hambient : c.allow with
      | none => exact permits_none hambient server
      | some ambient =>
        rw [if_neg (Option.some_ne_none fs)] at hallow
        rw [permits_some hallow, mem_map] at hserver
        obtain ⟨f, hf, hsame⟩ := hserver
        rw [permits_some hambient, ← hsame]
        exact hwithin fs ambient rfl hambient f hf

theorem granted_within {fs ambient : List String}
    (hfamilies : c.granted P policy = some fs) (hambient : c.allow = some ambient) :
    ∀ f ∈ fs, P.normalizeFamily f ∈ ambient := by
  intro f hf
  unfold Context.granted at hfamilies
  rw [hambient] at hfamilies
  cases hpolicy : policy.allowedToolFamilies with
  | none =>
    simp [hpolicy] at hfamilies
  | some families =>
    rw [hpolicy] at hfamilies
    cases hfamilies
    exact of_decide_eq_true (List.mem_filter.mp hf).2

theorem narrowFamilies_eq_none {a b : Option (List String)} (h : narrowFamilies P a b = none) :
    b = none := by
  cases b with
  | none => rfl
  | some fs => cases a <;> cases h

theorem granted_of_families {own : Value} (h : c.narrowed P own = .ok policy)
    (hown : ∀ p, normalizeExecutionPolicy P own = .ok p → p.allowedToolFamilies ≠ none) :
    c.granted P policy ≠ none := by
  have hfamilies : policy.allowedToolFamilies ≠ none := by
    unfold Context.narrowed at h
    split at h
    · cases h
    · rename_i p hp
      obtain ⟨a, b, -, hb, rfl⟩ := narrowExecutionPolicy_eq_ok h
      obtain rfl := Except.ok.inj (hb.symm.trans (normalize_value (normalize_accepted hp)))
      exact fun hnone => hown b hp (narrowFamilies_eq_none hnone)
  intro hgranted
  unfold Context.granted at hgranted
  split at hgranted
  · cases hgranted
  · exact hfamilies hgranted

theorem taskFamilies_within {granted lean : Option (List String)} {fs : List String}
    (h : taskFamilies granted lean = some fs)
    (hplain : granted ≠ none ∨ lean = none ∨ lean = some []) : granted = some fs := by
  unfold taskFamilies at h
  split at h
  · rcases hplain with hne | hnone | hempty
    · exact absurd rfl hne
    · cases hnone
    · cases hempty
  · exact h

theorem enter_narrower {level : Level} (h : c.enter P level = .ok (inside, tokens))
    (hplain : level.Plain P) : inside.Narrower P c := by
  cases level with
  | child allowedTools =>
    obtain ⟨rfl, -⟩ := Prod.mk.inj (Except.ok.inj h)
    exact enterChild_narrower allowedTools
  | event own =>
    simp only [Context.enter] at h
    split at h
    · cases h
    · exact install_narrower h fun fs ambient hfs hambient => granted_within hfs hambient
  | task own lean =>
    simp only [Context.enter] at h
    split at h
    · cases h
    · rename_i policy hpolicy
      refine install_narrower h fun fs ambient hfs hambient => ?_
      refine granted_within (taskFamilies_within hfs ?_) hambient
      cases lean with
      | none => exact .inr (.inl rfl)
      | some lean =>
        cases lean with
        | nil => exact .inr (.inr rfl)
        | cons family rest => exact .inl (granted_of_families hpolicy hplain)

theorem install_leave {families : Option (List String)} (left : Context)
    (h : c.install P families policy = .ok (inside, tokens)) (hleft : left = inside) :
    left.leave tokens = c := by
  unfold Context.install at h
  split at h
  · cases h
  · rename_i installed hset
    cases Except.ok.inj h
    have hallow := setPolicy_allow hset
    subst hleft
    unfold Context.leave
    cases families with
    | none =>
      rw [if_pos rfl] at hallow
      simp [hallow]
    | some fs => simp

theorem enter_leave {level : Level} (h : c.enter P level = .ok (inside, tokens)) :
    inside.leave tokens = c := by
  cases level with
  | child allowedTools =>
    obtain ⟨rfl, rfl⟩ := Prod.mk.inj (Except.ok.inj h)
    cases allowedTools <;> rfl
  | event own | task own lean =>
    simp only [Context.enter] at h
    split at h
    · cases h
    · exact install_leave inside h rfl

/-! ### Whole trees -/

theorem moments_leave (t : Tree) (path : List Nat) (ancestors : List Context) (next : Nat) (c : Context) :
    (moments P path ancestors next c t).2 = c := by
  induction t generalizing path ancestors next c with
  | ends => rfl
  | nested ownTask level child rest ihChild ihRest =>
    rw [moments]
    split
    · exact ihRest _ _ _ _
    · rename_i inside tokens henter
      dsimp only
      rw [ihChild, enter_leave henter, ite_self]
      exact ihRest _ _ _ _

theorem moments_nested {ownTask : Bool} {level : Level} {child rest : Tree} (path : List Nat)
    (ancestors : List Context) (next : Nat) (h : c.enter P level = .ok (inside, tokens)) :
    (moments P path ancestors next c (.nested ownTask level child rest)).1 =
      ⟨path, ancestors, c⟩ :: ((moments P (next :: path) (c :: ancestors) 0 inside child).1 ++
        (moments P path ancestors (next + 1) c rest).1) := by
  rw [moments, h]
  dsimp only
  rw [moments_leave, enter_leave h, ite_self]

theorem moments_refused {ownTask : Bool} {level : Level} {child rest : Tree} {e : String}
    (path : List Nat) (ancestors : List Context) (next : Nat) (h : c.enter P level = .error e) :
    (moments P path ancestors next c (.nested ownTask level child rest)).1 =
      ⟨path, ancestors, c⟩ :: (moments P path ancestors (next + 1) c rest).1 := by
  rw [moments, h]

theorem moments_narrower {t : Tree} (hplain : t.Plain P) (path : List Nat) (ancestors : List Context)
    (next : Nat) (c : Context) (hancestors : ∀ a ∈ ancestors, c.Narrower P a) :
    ∀ m ∈ (moments P path ancestors next c t).1, ∀ a ∈ m.ancestors, m.context.Narrower P a := by
  induction t generalizing path ancestors next c with
  | ends =>
    intro m hm
    cases List.mem_singleton.mp hm
    exact hancestors
  | nested ownTask level child rest ihChild ihRest =>
    obtain ⟨hlevel, hchild, hrest⟩ := hplain
    intro m hm
    cases henter : c.enter P level with
    | error e =>
      rw [moments_refused path ancestors next henter] at hm
      rcases List.mem_cons.mp hm with rfl | hlater
      · exact hancestors
      · exact ihRest hrest path ancestors (next + 1) c hancestors m hlater
    | ok entered =>
      obtain ⟨inside, tokens⟩ := entered
      have hinside := enter_narrower henter hlevel
      rw [moments_nested path ancestors next henter] at hm
      rcases List.mem_cons.mp hm with rfl | hm
      · exact hancestors
      rcases List.mem_append.mp hm with hnested | hlater
      · refine ihChild hchild (next :: path) (c :: ancestors) 0 inside (fun a ha => ?_) m hnested
        rcases List.mem_cons.mp ha with rfl | hold
        · exact hinside
        · exact hinside.trans (hancestors a hold)
      · exact ihRest hrest path ancestors (next + 1) c hancestors m hlater

theorem moments_path (t : Tree) (path : List Nat) (ancestors : List Context) (next : Nat) (c : Context) :
    ∀ m ∈ (moments P path ancestors next c t).1, (m.path = path ∧ m.context = c) ∨
      ∃ below k, next ≤ k ∧ m.path = below ++ k :: path := by
  induction t generalizing path ancestors next c with
  | ends =>
    intro m hm
    cases List.mem_singleton.mp hm
    exact .inl ⟨rfl, rfl⟩
  | nested ownTask level child rest ihChild ihRest =>
    have hrest : ∀ m ∈ (moments P path ancestors (next + 1) c rest).1,
        (m.path = path ∧ m.context = c) ∨ ∃ below k, next ≤ k ∧ m.path = below ++ k :: path := by
      intro m hm
      rcases ihRest path ancestors (next + 1) c m hm with hown | ⟨below, k, hk, hpath⟩
      · exact .inl hown
      · exact .inr ⟨below, k, Nat.le_of_succ_le hk, hpath⟩
    intro m hm
    cases henter : c.enter P level with
    | error e =>
      rw [moments_refused path ancestors next henter] at hm
      rcases List.mem_cons.mp hm with rfl | hlater
      · exact .inl ⟨rfl, rfl⟩
      · exact hrest m hlater
    | ok entered =>
      rw [moments_nested path ancestors next henter] at hm
      rcases List.mem_cons.mp hm with rfl | hm
      · exact .inl ⟨rfl, rfl⟩
      rcases List.mem_append.mp hm with hnested | hlater
      · rcases ihChild (next :: path) (c :: ancestors) 0 entered.1 m hnested with
          ⟨hpath, -⟩ | ⟨below, k, -, hpath⟩
        · exact .inr ⟨[], next, Nat.le_refl next, hpath⟩
        · exact .inr ⟨below ++ [k], next, Nat.le_refl next, by rw [hpath, append_assoc]; rfl⟩
      · exact hrest m hlater

theorem path_apart {below below' path : List Nat} {k k' : Nat} (h : below ++ k :: path = below' ++ k' :: path) :
    k = k' := by
  have hcut : below ++ [k] = below' ++ [k'] := by
    refine append_cancel_right (?_ : below ++ [k] ++ path = below' ++ [k'] ++ path)
    rw [append_assoc, append_assoc]
    exact h
  exact (append_inj' hcut rfl).2 |> List.singleton_inj.mp

theorem path_below {below path : List Nat} {k : Nat} : below ++ k :: path ≠ path := by
  intro h
  have hlength := congrArg List.length h
  rw [length_append, length_cons] at hlength
  omega

theorem own_context {m : Moment} {path : List Nat} {next : Nat}
    (h : (m.path = path ∧ m.context = c) ∨ ∃ below k, next ≤ k ∧ m.path = below ++ k :: path)
    (hpath : m.path = path) : m.context = c := by
  rcases h with ⟨-, hcontext⟩ | ⟨below, k, -, hbelow⟩
  · exact hcontext
  · exact absurd (hbelow.symm.trans hpath) path_below

def OneContext (ms : List Moment) : Prop :=
  ∀ m ∈ ms, ∀ m' ∈ ms, m.path = m'.path → m.context = m'.context

theorem OneContext.cons {own : Moment} {ms : List Moment}
    (hown : ∀ m ∈ ms, m.path = own.path → m.context = own.context) (h : OneContext ms) :
    OneContext (own :: ms) := by
  intro m hm m' hm' hsame
  rcases List.mem_cons.mp hm with rfl | hmem
  · rcases List.mem_cons.mp hm' with rfl | hmem'
    · rfl
    · exact (hown m' hmem' hsame.symm).symm
  · rcases List.mem_cons.mp hm' with rfl | hmem'
    · exact hown m hmem hsame
    · exact h m hmem m' hmem' hsame

theorem moments_context (t : Tree) (path : List Nat) (ancestors : List Context) (next : Nat) (c : Context) :
    OneContext (moments P path ancestors next c t).1 := by
  induction t generalizing path ancestors next c with
  | ends =>
    intro m hm m' hm' _
    cases List.mem_singleton.mp hm
    cases List.mem_singleton.mp hm'
    rfl
  | nested ownTask level child rest ihChild ihRest =>
    cases henter : c.enter P level with
    | error e =>
      rw [moments_refused path ancestors next henter]
      refine OneContext.cons (fun m hm hpath => ?_) (ihRest path ancestors (next + 1) c)
      exact own_context (moments_path rest path ancestors (next + 1) c m hm) hpath
    | ok entered =>
      obtain ⟨inside, tokens⟩ := entered
      have hnested : ∀ m ∈ (moments P (next :: path) (c :: ancestors) 0 inside child).1,
          ∃ below, m.path = below ++ next :: path := by
        intro m hm
        rcases moments_path child (next :: path) (c :: ancestors) 0 inside m hm with
          ⟨hpath, -⟩ | ⟨below, k, -, hpath⟩
        · exact ⟨[], hpath⟩
        · exact ⟨below ++ [k], by rw [hpath, append_assoc]; rfl⟩
      have hlater := moments_path (P := P) rest path ancestors (next + 1) c
      have hcross : ∀ m ∈ (moments P (next :: path) (c :: ancestors) 0 inside child).1,
          ∀ m' ∈ (moments P path ancestors (next + 1) c rest).1, m.path ≠ m'.path := by
        intro m hm m' hm' hsame
        obtain ⟨below, hbelow⟩ := hnested m hm
        rcases hlater m' hm' with ⟨hpath, -⟩ | ⟨below', k, hk, hpath⟩
        · exact path_below (hbelow.symm.trans (hsame.trans hpath))
        · have := path_apart (hbelow.symm.trans (hsame.trans hpath))
          omega
      rw [moments_nested path ancestors next henter]
      refine OneContext.cons (fun m hm hpath => ?_) fun m hm m' hm' hsame => ?_
      · rcases List.mem_append.mp hm with hchild | hrest
        · obtain ⟨below, hbelow⟩ := hnested m hchild
          exact absurd (hbelow.symm.trans hpath) path_below
        · exact own_context (hlater m hrest) hpath
      · rcases List.mem_append.mp hm with hchild | hrest
        · rcases List.mem_append.mp hm' with hchild' | hrest'
          · exact ihChild (next :: path) (c :: ancestors) 0 inside m hchild m' hchild' hsame
          · exact absurd hsame (hcross m hchild m' hrest')
        · rcases List.mem_append.mp hm' with hchild' | hrest'
          · exact absurd hsame.symm (hcross m' hchild' m hrest)
          · exact ihRest path ancestors (next + 1) c m hrest m' hrest' hsame

theorem mem_listServers {pool : List (String × Nat)} {entry : String × Nat} :
    entry ∈ c.listServers P pool ↔
      entry ∈ pool ∧ entry.1 ≠ "tool-search" ∧ c.permits P entry.1 = true := by
  unfold Context.listServers
  rw [mem_mergeSort, List.mem_filter, Bool.and_eq_true, decide_eq_true_eq]

theorem Context.Narrower.lists (h : inside.Narrower P c) (pool : List (String × Nat)) :
    inside.listServers P pool ⊆ c.listServers P pool := by
  intro entry hentry
  obtain ⟨hpool, hself, hpermits⟩ := mem_listServers.mp hentry
  exact mem_listServers.mpr ⟨hpool, hself, h entry.1 hpermits⟩

/-! ### The laws of `narrow_execution_policy` -/

/-- Two policies with the same limits, that allow the same families in some order, spelling and number. -/
structure Policy.Swapped (P : Python) (p q : Policy) : Prop where
  calls : p.maxToolCalls = q.maxToolCalls
  timeout : p.timeoutSeconds = q.timeoutSeconds
  families : FamiliesWithin P p.allowedToolFamilies q.allowedToolFamilies
  families_back : FamiliesWithin P q.allowedToolFamilies p.allowedToolFamilies

theorem Policy.narrow_swapped {a b : Policy} (ha : a.Timed) (hb : b.Timed) :
    (a.narrow P b).Swapped P (b.narrow P a) where
  calls := narrowNumber_comm int_strictTotal (allGood_true _) (allGood_true _)
  timeout := narrowNumber_comm number_strictTotal ha.allGood hb.allGood
  families := narrowFamilies_comm _ _
  families_back := narrowFamilies_comm _ _

/-- Every run, at every moment, may call and list only what each of its ancestors may, and keeps the context
it was started with. Of policies with timeouts that are numbers, narrowing gives the greatest that is no
wider than either. -/
theorem grants_only_narrow (P : Python) :
    (∀ (t : Tree) (c : Context), t.Plain P → ∀ m ∈ (moments P [] [] 0 c t).1, ∀ ancestor ∈ m.ancestors,
      (∀ server, m.context.permits P server = true → ancestor.permits P server = true) ∧
        ∀ pool, m.context.listServers P pool ⊆ ancestor.listServers P pool) ∧
    (∀ (t : Tree) (c : Context), (moments P [] [] 0 c t).2 = c ∧ OneContext (moments P [] [] 0 c t).1) ∧
    ∀ (x y z : Value) (a b d : Policy), normalizeExecutionPolicy P x = .ok a →
      normalizeExecutionPolicy P y = .ok b → normalizeExecutionPolicy P z = .ok d →
      a.Timed → b.Timed → d.Timed → ∃ xy yx yz, narrowExecutionPolicy P x y = .ok xy ∧
        narrowExecutionPolicy P y x = .ok yx ∧ narrowExecutionPolicy P y z = .ok yz ∧
        (xy.NoWider P a ∧ xy.NoWider P b ∧ ∀ p : Policy, p.NoWider P a → p.NoWider P b → p.NoWider P xy) ∧
        narrowExecutionPolicy P x x = .ok a ∧
        narrowExecutionPolicy P xy.value z = narrowExecutionPolicy P x yz.value ∧ xy.Swapped P yx := by
  refine ⟨fun t c hplain m hm ancestor ha => ?_, fun t c => ?_, ?_⟩
  · have hnarrower := moments_narrower hplain [] [] 0 c (nofun) m hm ancestor ha
    exact ⟨hnarrower, hnarrower.lists⟩
  · exact ⟨moments_leave t [] [] 0 c, moments_context t [] [] 0 c⟩
  · intro x y z a b d hx hy hz ha hb hd
    have haccepted := (normalize_accepted hx).narrow (normalize_accepted hy)
    have haccepted' := (normalize_accepted hy).narrow (normalize_accepted hz)
    refine ⟨a.narrow P b, b.narrow P a, b.narrow P d, narrowExecutionPolicy_ok hx hy,
      narrowExecutionPolicy_ok hy hx, narrowExecutionPolicy_ok hy hz,
      ⟨a.narrow_left b, Policy.narrow_right ha hb, fun p => Policy.narrow_greatest⟩, ?_, ?_,
      Policy.narrow_swapped ha hb⟩
    · rw [narrowExecutionPolicy_ok hx hx, a.narrow_self]
    · rw [narrowExecutionPolicy_ok (normalize_value haccepted) hz,
        narrowExecutionPolicy_ok hx (normalize_value haccepted'), Policy.narrow_assoc hb hd]

def plainPython : Python where
  loads _ := none
  int _ := none
  float _ := none
  isSpace ch := ch == ' '
  isAlnum := Char.isAlphanum

def listing (families : List String) : Value := .mapping { allowedToolFamilies := .array families }

def nestedGrant : Tree :=
  .nested true (.child (some ["vault", "web-search"]))
    (.nested false (.event (listing ["vault", "shell"])) .ends .ends) .ends

theorem grants_only_narrow_nested :
    (∀ m ∈ (moments plainPython [] [] 0 {} nestedGrant).1, ∀ ancestor ∈ m.ancestors,
      (∀ server, m.context.permits plainPython server = true → ancestor.permits plainPython server = true) ∧
        ∀ pool, m.context.listServers plainPython pool ⊆ ancestor.listServers plainPython pool) ∧
    ∃ xy yx yz, narrowExecutionPolicy plainPython (listing ["vault"]) .null = .ok xy ∧
      narrowExecutionPolicy plainPython .null (listing ["vault"]) = .ok yx ∧
      narrowExecutionPolicy plainPython .null (listing []) = .ok yz ∧ xy.Swapped plainPython yx := by
  refine ⟨(grants_only_narrow plainPython).1 nestedGrant {} ⟨trivial, ⟨trivial, trivial, trivial⟩, trivial⟩, ?_⟩
  obtain ⟨xy, yx, yz, hxy, hyx, hyz, -, -, -, hswapped⟩ := (grants_only_narrow plainPython).2.2
    (listing ["vault"]) .null (listing []) { allowedToolFamilies := some ["vault"] } {}
    { allowedToolFamilies := some [] } (rfl) rfl rfl
    (nofun) (nofun) nofun
  exact ⟨xy, yx, yz, hxy, hyx, hyz, hswapped⟩

/-- A family keeps the spelling of the outer policy, so that the other way round it is another name. A
timeout that is not a number is kept beside ten seconds. And a task of the lean local profile is granted
what was picked for its prompt, whatever had been granted before. -/
theorem grants_can_widen :
    (∃ xy yx fs gs, narrowExecutionPolicy plainPython (listing ["computer-control"])
        (listing ["computer_control"]) = .ok xy ∧
      narrowExecutionPolicy plainPython (listing ["computer_control"]) (listing ["computer-control"]) = .ok yx ∧
      xy.allowedToolFamilies = some fs ∧ yx.allowedToolFamilies = some gs ∧ ¬ fs.Perm gs) ∧
    (∃ xy, narrowExecutionPolicy plainPython (.mapping { timeoutSeconds := .float .nan })
        (.mapping { timeoutSeconds := .int 10 }) = .ok xy ∧
      ¬ AtMost Number.lt xy.timeoutSeconds (some (.finite 10))) ∧
    ∃ m ∈ (moments plainPython [] [] 0 { allow := some ["vault"] }
        (.nested true (.task .null (some ["shell"])) .ends .ends)).1, ∃ ancestor ∈ m.ancestors,
      m.context.permits plainPython "shell" = true ∧ ancestor.permits plainPython "shell" = false := by
  refine ⟨⟨⟨none, none, some ["computer-control"]⟩, ⟨none, none, some ["computer_control"]⟩, _, _, ?_, ?_, rfl,
    rfl, ?_⟩, ⟨⟨none, some .nan, none⟩, ?_, ?_⟩, ⟨[0], [{ allow := some ["vault"] }], { allow := some ["shell"] }⟩,
    ?_, _, List.mem_singleton_self _, ?_, ?_⟩
  · decide +kernel
  · decide +kernel
  · decide
  · decide +kernel
  · intro h
    obtain ⟨x, hx, hle⟩ := h _ rfl
    cases hx
    rcases hle with heq | hlt
    · cases heq
    · cases hlt
  · exact List.mem_of_getElem? (i := 1) rfl
  · rfl
  · rfl

end OpenAgent.Grants
