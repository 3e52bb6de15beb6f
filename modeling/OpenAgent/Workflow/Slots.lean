import OpenAgent.Lib.Semaphore
import OpenAgent.Lib.Transition

/-!
# Run slots of a workflow

The runs of a workflow with a cap go through a limiter, a semaphore sized to the cap. A run that arrives
under another cap than the limiter's gets a new limiter, and the runs of the old one keep to the old one.
So a cap binds the runs of one limiter, not all runs of the workflow.
-/

namespace OpenAgent.Workflow.Slots

open Lib List Option

/-- `max_concurrent_runs` as `int` sees it. -/
inductive MaxRuns
  | missing | unparseable | int (value : Int)
deriving DecidableEq

/-- `_resolve_capacity` -/
def resolveCapacity : MaxRuns → Option Nat
  | .missing => none
  | .unparseable => none
  | .int value => if value < 1 then none else some value.toNat

structure Limiter where
  capacity : Nat
  sem : Semaphore String

/-- The runs of one workflow. `gate` is the limiter that `_gates` holds, among all there ever were;
`entering` are the runs on their way to `_gates_lock`, each with the cap it has read; `free` execute without
a cap; `caps` are the caps that were in force, up to the present one. -/
structure State where
  caps : List (Option Nat)
  limiters : List Limiter := []
  gate : Option Nat := none
  entering : List (String × Nat) := []
  free : List String := []

def State.executing (s : State) : List String := s.free ++ s.limiters.flatMap (·.sem.holders)

def State.runs (s : State) : List String :=
  s.entering.map Prod.fst ++ s.free ++
    s.limiters.flatMap fun l => l.sem.holders ++ l.sem.woken ++ l.sem.waiters

def State.renew (s : State) (capacity : Nat) : State :=
  { s with
    limiters := s.limiters ++ [{ capacity, sem := { value := capacity } }]
    gate := some s.limiters.length }

/-- The part of `_acquire_slot` under `_gates_lock`. -/
def State.openGate (s : State) (capacity : Nat) : State × Nat :=
  match s.gate with
  | none => (s.renew capacity, s.limiters.length)
  | some i =>
    if s.limiters[i]?.map (·.capacity) = some capacity then (s, i)
    else (s.renew capacity, s.limiters.length)

def State.operate (s : State) (i : Nat) (op : Semaphore.Op String) : Option State :=
  s.limiters[i]?.bind fun l =>
    (l.sem.step op).map fun sem => { s with limiters := s.limiters.set i { l with sem } }

/-- `_acquire_slot` up to the lock: without a cap there is nothing to wait for. -/
def State.arrive (s : State) (run : String) : Option Nat → State
  | none => { s with free := s.free ++ [run] }
  | some capacity => { s with entering := s.entering ++ [(run, capacity)] }

inductive Label
  | edit (value : MaxRuns)
  | request (run : String) (cap : Option Nat)
  | enter (run : String)
  | resume (i : Nat) (run : String)
  | finish (i : Nat) (run : String)
  | abandon (i : Nat) (run : String)
  | finishFree (run : String)
  | giveUp (run : String)
deriving DecidableEq

/-- One step. A run reads a cap that was in force at some time, not always the present one; it is cancelled
while it is on its way (`giveUp`) or while it waits (`abandon`). -/
def step (s : State) : Label → Option State
  | .edit value => some { s with caps := s.caps ++ [resolveCapacity value] }
  | .request run cap =>
    if run ∈ s.runs ∨ cap ∉ s.caps then none else some (s.arrive run cap)
  | .enter run =>
    (s.entering.find? fun p => p.1 = run).bind fun p =>
      let opened := { s with entering := s.entering.erase p }.openGate p.2
      opened.1.operate opened.2 (.acquire run)
  | .resume i run => s.operate i (.resume run)
  | .finish i run => s.operate i (.release run)
  | .abandon i run => s.operate i (.abandon run)
  | .finishFree run => if run ∈ s.free then some { s with free := s.free.erase run } else none
  | .giveUp run =>
    (s.entering.find? fun p => p.1 = run).map fun p => { s with entering := s.entering.erase p }

def start (value : MaxRuns) : State := { caps := [resolveCapacity value] }

/-! ### Limiters -/

variable {s t : State} {l : Limiter} {i : Nat} {label : Label}

def Goes (l l' : Limiter) : Prop :=
  l'.capacity = l.capacity ∧ (l'.sem = l.sem ∨ ∃ op, l.sem.step op = some l'.sem)

theorem Goes.refl (l : Limiter) : Goes l l := ⟨rfl, .inl rfl⟩

theorem operate_limiter {j : Nat} {op : Semaphore.Op String} (h : s.operate j op = some t)
    (hl : s.limiters[i]? = some l) : ∃ l', t.limiters[i]? = some l' ∧ Goes l l' := by
  obtain ⟨k, hk, hmap⟩ := Option.bind_eq_some_iff.mp h
  obtain ⟨sem, hsem, rfl⟩ := Option.map_eq_some_iff.mp hmap
  by_cases hij : j = i
  · rw [hij, hl] at hk
    cases hk
    have hlt := (List.getElem?_eq_some_iff.mp hl).1
    refine ⟨{ l with sem }, ?_, rfl, .inr ⟨op, hsem⟩⟩
    show (s.limiters.set j { l with sem })[i]? = _
    rw [hij, getElem?_set_self hlt]
  · refine ⟨l, ?_, .refl l⟩
    show (s.limiters.set j { k with sem })[i]? = _
    rw [getElem?_set_ne hij]
    exact hl

theorem renew_limiter {capacity : Nat} (hl : s.limiters[i]? = some l) :
    (s.renew capacity).limiters[i]? = some l := by
  have hlt := (List.getElem?_eq_some_iff.mp hl).1
  show (s.limiters ++ _)[i]? = _
  rw [getElem?_append_left hlt]
  exact hl

theorem openGate_limiter {capacity : Nat} (hl : s.limiters[i]? = some l) :
    (s.openGate capacity).1.limiters[i]? = some l := by
  rw [State.openGate]
  split
  · exact renew_limiter hl
  · split
    · exact hl
    · exact renew_limiter hl

theorem step_limiter (h : step s label = some t) (hl : s.limiters[i]? = some l) :
    ∃ l', t.limiters[i]? = some l' ∧ Goes l l' := by
  cases label with
  | edit value =>
    cases h
    exact ⟨l, hl, .refl l⟩
  | request run cap =>
    rw [step] at h
    split at h
    · cases h
    · cases h
      cases cap with
      | none => exact ⟨l, hl, .refl l⟩
      | some capacity => exact ⟨l, hl, .refl l⟩
  | enter run =>
    obtain ⟨p, -, hop⟩ := Option.bind_eq_some_iff.mp h
    exact operate_limiter hop (openGate_limiter hl)
  | resume j run => exact operate_limiter h hl
  | finish j run => exact operate_limiter h hl
  | abandon j run => exact operate_limiter h hl
  | finishFree run =>
    rw [step] at h
    split at h
    · cases h
      exact ⟨l, hl, .refl l⟩
    · cases h
  | giveUp run =>
    obtain ⟨p, -, rfl⟩ := Option.map_eq_some_iff.mp h
    exact ⟨l, hl, .refl l⟩

/-! ### What holds of every state -/

structure Inv (s : State) : Prop where
  balanced : ∀ l ∈ s.limiters, l.sem.Balanced l.capacity ∧ some l.capacity ∈ s.caps
  entering : ∀ p ∈ s.entering, some p.2 ∈ s.caps
  free : s.free ≠ [] → none ∈ s.caps
  gate : ∀ l ∈ s.limiters, s.gate = some (s.limiters.length - 1)
  changed : ∀ (i : Nat) (l l' : Limiter), s.limiters[i]? = some l → s.limiters[i + 1]? = some l' → l.capacity ≠ l'.capacity

theorem inv_start (value : MaxRuns) : Inv (start value) :=
  ⟨fun l hl => absurd hl not_mem_nil, fun p hp => absurd hp not_mem_nil, fun h => absurd rfl h,
    fun l hl => absurd hl not_mem_nil, fun i l l' hl => by cases hl⟩

theorem Inv.operate (hinv : Inv s) {op : Semaphore.Op String} (h : s.operate i op = some t) : Inv t := by
  obtain ⟨k, hk, hmap⟩ := Option.bind_eq_some_iff.mp h
  obtain ⟨sem, hsem, rfl⟩ := Option.map_eq_some_iff.mp hmap
  have hmem : k ∈ s.limiters := mem_of_getElem? hk
  have hlength : (s.limiters.set i { k with sem }).length = s.limiters.length := length_set
  have hcapacity : ∀ (j : Nat) (l : Limiter), (s.limiters.set i { k with sem })[j]? = some l →
      ∃ l', s.limiters[j]? = some l' ∧ l'.capacity = l.capacity := by
    intro j l hl
    by_cases hij : i = j
    · rw [hij, getElem?_set_self (by rw [← hij]; exact (List.getElem?_eq_some_iff.mp hk).1)] at hl
      cases hl
      exact ⟨k, hij ▸ hk, rfl⟩
    · rw [getElem?_set_ne hij] at hl
      exact ⟨l, hl, rfl⟩
  refine ⟨?_, hinv.entering, hinv.free, ?_, ?_⟩
  · intro l hl
    rcases mem_or_eq_of_mem_set hl with hold | rfl
    · exact hinv.balanced l hold
    · obtain ⟨hbalanced, hforce⟩ := hinv.balanced k hmem
      exact ⟨Semaphore.balanced_step hbalanced hsem, hforce⟩
  · intro l _
    show s.gate = some ((s.limiters.set i { k with sem }).length - 1)
    rw [hlength]
    exact hinv.gate k hmem
  · intro j l l' hl hl'
    obtain ⟨m, hm, hmc⟩ := hcapacity j l hl
    obtain ⟨m', hm', hmc'⟩ := hcapacity (j + 1) l' hl'
    rw [← hmc, ← hmc']
    exact hinv.changed j m m' hm hm'

theorem Inv.renew (hinv : Inv s) {capacity : Nat} (hforce : some capacity ∈ s.caps)
    (hother : ∀ (i : Nat) (l : Limiter), s.gate = some i → s.limiters[i]? = some l → l.capacity ≠ capacity) :
    Inv (s.renew capacity) := by
  refine ⟨?_, hinv.entering, hinv.free, ?_, ?_⟩
  · intro l hl
    rcases List.mem_append.mp hl with hold | hnew
    · exact hinv.balanced l hold
    · cases List.mem_singleton.mp hnew
      exact ⟨Semaphore.balanced_new capacity, hforce⟩
  · intro l _
    show some s.limiters.length = some ((s.limiters ++ [_]).length - 1)
    rw [length_append, length_singleton, Nat.add_sub_cancel]
  · intro j l l' hl hl'
    have hlt : j + 1 < s.limiters.length + 1 := by
      have hlen := (List.getElem?_eq_some_iff.mp hl').1
      rw [State.renew, length_append, length_singleton] at hlen
      exact hlen
    have hold : s.limiters[j]? = some l := by
      rw [State.renew, getElem?_append_left (by omega)] at hl
      exact hl
    by_cases hlast : j + 1 < s.limiters.length
    · rw [State.renew, getElem?_append_left hlast] at hl'
      exact hinv.changed j l l' hold hl'
    · have hend : j + 1 = s.limiters.length := by omega
      rw [State.renew, getElem?_append_right (by omega), hend, Nat.sub_self] at hl'
      cases hl'
      have hgate := hinv.gate l (mem_of_getElem? hold)
      rw [← hend, Nat.add_sub_cancel] at hgate
      exact hother j l hgate hold

theorem Inv.openGate (hinv : Inv s) {capacity : Nat} (hforce : some capacity ∈ s.caps) :
    Inv (s.openGate capacity).1 := by
  rw [State.openGate]
  split
  · rename_i hnone
    exact hinv.renew hforce fun i l hi => by rw [hnone] at hi; cases hi
  · rename_i j hj
    split
    · exact hinv
    · rename_i hne
      refine hinv.renew hforce fun i l hi hl heq => hne ?_
      rw [hj] at hi
      cases hi
      rw [hl, map_some, heq]

theorem Inv.withEntering (hinv : Inv s) {entering : List (String × Nat)}
    (h : ∀ p ∈ entering, some p.2 ∈ s.caps) : Inv { s with entering } :=
  ⟨hinv.balanced, h, hinv.free, hinv.gate, hinv.changed⟩

theorem inv_step (hinv : Inv s) (h : step s label = some t) : Inv t := by
  cases label with
  | edit value =>
    cases h
    refine ⟨fun l hl => ?_, fun p hp => ?_, fun hfree => ?_, hinv.gate, hinv.changed⟩
    · obtain ⟨hbalanced, hforce⟩ := hinv.balanced l hl
      exact ⟨hbalanced, mem_append_left _ hforce⟩
    · exact mem_append_left _ (hinv.entering p hp)
    · exact mem_append_left _ (hinv.free hfree)
  | request run cap =>
    rw [step] at h
    split at h
    · cases h
    · rename_i hguard
      rw [not_or, not_not] at hguard
      cases h
      cases cap with
      | none => exact ⟨hinv.balanced, hinv.entering, fun _ => hguard.2, hinv.gate, hinv.changed⟩
      | some capacity =>
        refine hinv.withEntering fun p hp => ?_
        rcases List.mem_append.mp hp with hold | hnew
        · exact hinv.entering p hold
        · rw [List.mem_singleton.mp hnew]
          exact hguard.2
  | enter run =>
    obtain ⟨p, hp, hop⟩ := Option.bind_eq_some_iff.mp h
    have hleft : Inv { s with entering := s.entering.erase p } :=
      hinv.withEntering fun q hq => hinv.entering q (mem_of_mem_erase hq)
    have hcap : some p.2 ∈ ({ s with entering := s.entering.erase p } : State).caps :=
      hinv.entering p (mem_of_find?_eq_some hp)
    exact (hleft.openGate hcap).operate hop
  | resume j run => exact hinv.operate h
  | finish j run => exact hinv.operate h
  | abandon j run => exact hinv.operate h
  | finishFree run =>
    rw [step] at h
    split at h
    · rename_i hmem
      cases h
      exact ⟨hinv.balanced, hinv.entering, fun _ => hinv.free (ne_nil_of_mem hmem), hinv.gate, hinv.changed⟩
    · cases h
  | giveUp run =>
    obtain ⟨p, -, rfl⟩ := Option.map_eq_some_iff.mp h
    exact hinv.withEntering fun q hq => hinv.entering q (mem_of_mem_erase hq)

/-! ### The cap -/

/-- The runs of a limiter never exceed the cap it was made for, which was in force; and under one and the
same cap all along the runs that execute do not exceed it. -/
structure Bounded (s : State) : Prop where
  each : ∀ l ∈ s.limiters, l.sem.holders.length ≤ l.capacity
  inForce : ∀ l ∈ s.limiters, some l.capacity ∈ s.caps
  steady : ∀ c, (∀ k ∈ s.caps, k = some c) → s.executing.length ≤ c

theorem Inv.bounded (hinv : Inv s) : Bounded s := by
  refine ⟨fun l hl => (hinv.balanced l hl).1.holders_le, fun l hl => (hinv.balanced l hl).2, fun c hc => ?_⟩
  have hfree : s.free = [] := by
    by_contra hne
    have hnone := hc _ (hinv.free hne)
    cases hnone
  have hsame : ∀ l ∈ s.limiters, l.capacity = c := fun l hl => some.inj (hc _ (hinv.balanced l hl).2)
  rw [State.executing, hfree, nil_append]
  cases hl : s.limiters with
  | nil => exact Nat.zero_le c
  | cons l rest =>
    have hmem : l ∈ s.limiters := by
      rw [hl]
      exact mem_cons_self
    cases rest with
    | nil =>
      rw [flatMap_cons, flatMap_nil, append_nil, ← hsame l hmem]
      exact (hinv.balanced l hmem).1.holders_le
    | cons l' rest =>
      have hmem' : l' ∈ s.limiters := by
        rw [hl]
        exact mem_cons_of_mem _ mem_cons_self
      have hne := hinv.changed 0 l l' (by rw [hl]; rfl) (by rw [hl]; rfl)
      exact absurd ((hsame l hmem).trans (hsame l' hmem').symm) hne

/-! ### Waiting -/

structure Course (σ : Nat → State) : Prop where
  reached : ∃ value labels, run step (start value) labels = some (σ 0)
  steps : ∀ n, σ (n + 1) = σ n ∨ ∃ label, step (σ n) label = some (σ (n + 1))
  /-- Whoever was let in is resumed some day, or is cancelled. -/
  fair : ∀ (n i : Nat) (l : Limiter), (σ n).limiters[i]? = some l → ∀ r ∈ l.sem.woken,
    ∃ (m : Nat) (l' : Limiter), n ≤ m ∧ (σ m).limiters[i]? = some l' ∧ r ∉ l'.sem.woken

def Waits (s : State) (i : Nat) (r : String) : Prop := ∃ l, s.limiters[i]? = some l ∧ r ∈ l.sem.waiters

def Full (s : State) (i : Nat) : Prop := ∃ l, s.limiters[i]? = some l ∧ l.capacity ≤ l.sem.holders.length

theorem Course.inv {σ : Nat → State} (h : Course σ) (n : Nat) : Inv (σ n) := by
  induction n with
  | zero =>
    obtain ⟨value, labels, hrun⟩ := h.reached
    exact run_invariant (fun s a s' hs hstep => inv_step hs hstep) (inv_start value) hrun
  | succ n ih =>
    rcases h.steps n with hsame | ⟨label, hstep⟩
    · rw [hsame]
      exact ih
    · exact inv_step ih hstep

theorem Course.limiter {σ : Nat → State} (h : Course σ) {n i : Nat} {l : Limiter}
    (hl : (σ n).limiters[i]? = some l) :
    ∃ τ : Nat → Limiter, τ 0 = l ∧ (∀ k, (σ (n + k)).limiters[i]? = some (τ k)) ∧ ∀ k, Goes (τ k) (τ (k + 1)) := by
  have hall : ∀ k, ∃ l', (σ (n + k)).limiters[i]? = some l' := by
    intro k
    induction k with
    | zero => exact ⟨l, hl⟩
    | succ k ih =>
      obtain ⟨l', hl'⟩ := ih
      rcases h.steps (n + k) with hsame | ⟨label, hstep⟩
      · exact ⟨l', by rw [← Nat.add_assoc, hsame]; exact hl'⟩
      · obtain ⟨m, hm, -⟩ := step_limiter hstep hl'
        exact ⟨m, hm⟩
  choose τ hτ using hall
  refine ⟨τ, some.inj ((hτ 0).symm.trans hl), hτ, fun k => ?_⟩
  have hnext := hτ (k + 1)
  rw [← Nat.add_assoc] at hnext
  rcases h.steps (n + k) with hsame | ⟨label, hstep⟩
  · rw [hsame, hτ k] at hnext
    rw [← some.inj hnext]
    exact .refl _
  · obtain ⟨m, hm, hgoes⟩ := step_limiter hstep (hτ k)
    rw [hnext] at hm
    rw [some.inj hm]
    exact hgoes

theorem Course.served {σ : Nat → State} (h : Course σ) {n i : Nat} {r : String} (hwaits : Waits (σ n) i r) :
    ∃ m, n ≤ m ∧ (¬ Waits (σ m) i r ∨ Full (σ m) i) := by
  obtain ⟨l, hl, -⟩ := hwaits
  obtain ⟨τ, hzero, hτ, hgoes⟩ := h.limiter hl
  have hcapacity : ∀ k, (τ k).capacity = (τ 0).capacity := by
    intro k
    induction k with
    | zero => rfl
    | succ k ih => exact (hgoes k).1.trans ih
  have hbalanced : (τ 0).sem.Balanced (τ 0).capacity :=
    ((h.inv n).balanced _ (mem_of_getElem? (hτ 0))).1
  have hsteps : ∀ k, (τ (k + 1)).sem = (τ k).sem ∨ ∃ op, (τ k).sem.step op = some (τ (k + 1)).sem :=
    fun k => (hgoes k).2
  have hfair : ∀ k, ∀ b ∈ (τ k).sem.woken, ∃ m, k ≤ m ∧ b ∉ (τ m).sem.woken := by
    intro k b hb
    obtain ⟨m, l', hm, hl', hgone⟩ := h.fair (n + k) i _ (hτ k) b hb
    obtain ⟨j, rfl⟩ := Nat.exists_eq_add_of_le hm
    refine ⟨k + j, by omega, ?_⟩
    have hsame := hτ (k + j)
    rw [← Nat.add_assoc, hl'] at hsame
    cases hsame
    exact hgone
  obtain ⟨k, -, hk⟩ := Semaphore.served hbalanced hsteps hfair 0 r
  refine ⟨n + k, by omega, ?_⟩
  rcases hk with hgone | hfull
  · left
    rintro ⟨l', hl', hmem⟩
    rw [hτ k] at hl'
    cases hl'
    exact hgone hmem
  · exact .inr ⟨τ k, hτ k, by rw [hcapacity k]; exact hfull⟩

/-- The runs of each limiter keep to its cap, and all runs to the workflow's while it is not edited; and no
run waits forever while fewer runs than its limiter admits execute. -/
theorem slots_kept :
    (∀ value labels s, run step (start value) labels = some s → Bounded s) ∧
      ∀ σ, Course σ → ∀ n i r, Waits (σ n) i r → ∃ m, n ≤ m ∧ (¬ Waits (σ m) i r ∨ Full (σ m) i) := by
  constructor
  · intro value labels s hrun
    exact (run_invariant (fun s a s' hs hstep => inv_step hs hstep) (inv_start value) hrun : Inv s).bounded
  · exact fun σ hσ n i r hwaits => hσ.served hwaits

def busy : List Label := [.request "a" (some 1), .enter "a", .request "b" (some 1), .enter "b"]

theorem one_waits_for_one : ∃ s, run step (start (.int 1)) busy = some s ∧ Bounded s ∧ s.executing = ["a"] ∧
    Waits s 0 "b" ∧ ∃ m, 0 ≤ m ∧ (¬ Waits s 0 "b" ∨ Full s 0) := by
  have htrace : (run step (start (.int 1)) busy).map (fun s => (s.executing,
      s.limiters.map fun l => (l.sem.waiters, l.sem.woken))) = some (["a"], [(["b"], [])]) := rfl
  obtain ⟨s, hrun, hs⟩ := Option.map_eq_some_iff.mp htrace
  obtain ⟨hexecuting, hlimiters⟩ := Prod.mk.inj hs
  obtain ⟨l, hl⟩ : ∃ l, s.limiters = [l] := List.length_eq_one_iff.mp (by
    have hlen : (s.limiters.map fun l => (l.sem.waiters, l.sem.woken)).length = s.limiters.length :=
      List.length_map _
    rw [← hlen, hlimiters]
    rfl)
  rw [hl] at hlimiters
  obtain ⟨hwaiters, hwoken⟩ := Prod.mk.inj (List.cons.inj hlimiters).1
  have hat : s.limiters[0]? = some l := by
    rw [hl]
    rfl
  have hwaits : Waits s 0 "b" := ⟨l, hat, by rw [hwaiters]; exact List.mem_cons_self⟩
  have hcourse : Course fun _ => s := by
    refine ⟨⟨.int 1, busy, hrun⟩, fun _ => .inl rfl, fun n i l' hl' r hr => ?_⟩
    have hmem := List.mem_of_getElem? hl'
    rw [hl] at hmem
    cases List.mem_singleton.mp hmem
    rw [hwoken] at hr
    exact absurd hr List.not_mem_nil
  exact ⟨s, hrun, slots_kept.1 _ _ _ hrun, hexecuting, hwaits, slots_kept.2 _ hcourse 0 0 "b" hwaits⟩

/-- Under the cap 1 a run executes; the cap is raised to 2, and two more runs execute besides it. -/
theorem edited_cap_is_exceeded :
    (run step (start (.int 1)) [.request "a" (some 1), .enter "a", .edit (.int 2), .request "b" (some 2),
      .enter "b", .request "c" (some 2), .enter "c"]).map (fun s => (s.executing, s.caps)) =
    some (["a", "b", "c"], [some 1, some 2]) := rfl

end OpenAgent.Workflow.Slots
