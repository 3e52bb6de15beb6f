import Mathlib.Data.Finset.Max
import Mathlib.Data.Prod.Lex
import Mathlib.Order.Lattice.Nat
import Mathlib.Tactic.Common

/-!
# Resource hierarchies

Processes take counting semaphores one after another, keep them while they wait for the processes they have started,
and give them back in the opposite order. If every process takes its semaphores upwards in some order, and the
semaphores of a process lie above those of the process that waits for it, then some process can always go on: the one
that holds the highest semaphore waits for nobody. Two ladders whose rungs the processes take in different turns
merge into one such order if no two processes take them in opposite turns.
-/

namespace Lib.Hierarchy

open List

variable {ρ : Type*} {κ : Type*}

/-- A process: `held` has the semaphores it holds, the latest first, and `wanted` those it has yet to take. -/
structure Process (ρ : Type*) where
  parent : Option Nat
  held : List ρ := []
  wanted : List ρ
  leaving : Bool := false
deriving DecidableEq

def Process.ended (t : Process ρ) : Bool := t.leaving && t.held.isEmpty

def Process.acquire (t : Process ρ) : Process ρ :=
  match t.wanted with
  | [] => t
  | r :: rest => { t with held := r :: t.held, wanted := rest }

def Process.finish (t : Process ρ) : Process ρ := { t with wanted := [], leaving := true }

def Process.release (t : Process ρ) : Process ρ := { t with held := t.held.tail }

/-- The process in place `i` has a child that has not ended. -/
def awaits (processes : List (Process ρ)) (i : Nat) : Bool := processes.any fun c => c.parent == some i && !c.ended

section Semaphores

variable [DecidableEq ρ]

def holders (processes : List (Process ρ)) (r : ρ) : Nat := (processes.flatMap (·.held)).count r

def Process.blocked (capacity : ρ → Nat) (processes : List (Process ρ)) (i : Nat) (t : Process ρ) : Bool :=
  !t.leaving &&
    match t.wanted with
    | [] => awaits processes i
    | r :: _ => decide (capacity r ≤ holders processes r)

def Deadlocked (capacity : ρ → Nat) (processes : List (Process ρ)) : Prop :=
  (∃ t ∈ processes, t.ended = false) ∧
    ∀ p ∈ processes.zipIdx, p.1.ended = false → p.1.blocked capacity processes p.2 = true

instance (capacity : ρ → Nat) (processes : List (Process ρ)) : Decidable (Deadlocked capacity processes) :=
  inferInstanceAs (Decidable (_ ∧ _))

def Within (capacity : ρ → Nat) (processes : List (Process ρ)) : Prop := ∀ r, holders processes r ≤ capacity r

@[simp] theorem holders_nil (r : ρ) : holders ([] : List (Process ρ)) r = 0 := by
  rfl

@[simp] theorem holders_cons (t : Process ρ) (processes : List (Process ρ)) (r : ρ) :
    holders (t :: processes) r = t.held.count r + holders processes r := by
  simp [holders]

variable {processes : List (Process ρ)}

theorem holders_pos {r : ρ} : 0 < holders processes r ↔ ∃ t ∈ processes, r ∈ t.held := by
  simp [holders, count_pos_iff, mem_flatMap]

theorem holders_append (xs ys : List (Process ρ)) (r : ρ) : holders (xs ++ ys) r = holders xs r + holders ys r := by
  simp [holders]

theorem holders_set {i : Nat} {t u : Process ρ} (ht : processes[i]? = some t) (r : ρ) :
    holders (processes.set i u) r + t.held.count r = holders processes r + u.held.count r := by
  induction processes generalizing i with
  | nil => simp at ht
  | cons x rest ih =>
    cases i with
    | zero =>
      obtain rfl : x = t := by simpa using ht
      simp only [set_cons_zero, holders_cons]
      omega
    | succ i =>
      have hrest := ih (by simpa using ht)
      simp only [set_cons_succ, holders_cons]
      omega

variable {capacity : ρ → Nat}

theorem within_acquire {i : Nat} {t : Process ρ} {r : ρ} {rest : List ρ}
    (h : Within capacity processes) (ht : processes[i]? = some t) (hwanted : t.wanted = r :: rest)
    (hfree : holders processes r < capacity r) : Within capacity (processes.set i t.acquire) := by
  intro q
  have hset := holders_set (u := t.acquire) ht q
  have hle := h q
  simp only [Process.acquire, hwanted, count_cons] at hset
  by_cases hq : r = q
  · subst hq
    simp only [Process.acquire, hwanted]
    simp at hset
    omega
  · simp only [Process.acquire, hwanted]
    simp [hq] at hset
    omega

theorem within_set {i : Nat} {t u : Process ρ} (h : Within capacity processes)
    (ht : processes[i]? = some t) (hheld : u.held.Sublist t.held) : Within capacity (processes.set i u) := by
  intro q
  have hset := holders_set (u := u) ht q
  have hle := h q
  have hcount := hheld.count_le q
  omega

/-- The processes take their semaphores upwards, and a child's lie above those of the process that waits for it. -/
structure Ordered [Preorder κ] (rank : ρ → κ) (processes : List (Process ρ)) : Prop where
  own : ∀ t ∈ processes, (t.held.reverse ++ t.wanted).Pairwise fun r q => rank r < rank q
  child : ∀ c ∈ processes, c.ended = false → ∀ i p, c.parent = some i → processes[i]? = some p →
    ∀ r ∈ p.held, ∀ q ∈ c.held ++ c.wanted, rank r < rank q
  works : ∀ t ∈ processes, t.leaving = false → t.held ++ t.wanted ≠ []

theorem held_of_blocked {i : Nat} {t : Process ρ}
    (hplaces : ∀ t ∈ processes, ∀ r ∈ t.wanted, 0 < capacity r) (ht : t ∈ processes)
    (hblocked : t.blocked capacity processes i = true) (hwanted : t.wanted ≠ []) :
    ∃ r ∈ t.wanted, ∃ u ∈ processes, r ∈ u.held := by
  cases hw : t.wanted with
  | nil => exact absurd hw hwanted
  | cons r rest =>
    have hmem : r ∈ t.wanted := hw ▸ mem_cons_self
    have hfull : capacity r ≤ holders processes r := by simpa [Process.blocked, hw] using (Bool.and_eq_true_iff.mp hblocked).2
    have hpos : 0 < holders processes r := Nat.lt_of_lt_of_le (hplaces t ht r hmem) hfull
    exact ⟨r, mem_cons_self, holders_pos.mp hpos⟩

theorem Ordered.not_deadlocked [LinearOrder κ] {rank : ρ → κ}
    (h : Ordered rank processes) (hplaces : ∀ t ∈ processes, ∀ r ∈ t.wanted, 0 < capacity r) :
    ¬ Deadlocked capacity processes := by
  rintro ⟨⟨t, ht, hlive⟩, hall⟩
  have hblocked : ∀ t ∈ processes, t.ended = false → ∃ i, processes[i]? = some t ∧ t.blocked capacity processes i = true := by
    intro t ht hlive
    obtain ⟨i, hi⟩ := getElem?_of_mem ht
    exact ⟨i, hi, hall (t, i) (mk_mem_zipIdx_iff_getElem?.mpr hi) hlive⟩
  -- a process that waits for a semaphore, waits for one that is held
  have hwaits : ∀ t ∈ processes, t.ended = false → t.wanted ≠ [] → ∃ r ∈ t.wanted, ∃ u ∈ processes, r ∈ u.held := by
    intro t ht hlive hwanted
    obtain ⟨i, -, hb⟩ := hblocked t ht hlive
    exact held_of_blocked hplaces ht hb hwanted
  have hstays : ∀ t ∈ processes, t.ended = false → t.leaving = false := by
    intro t ht hlive
    obtain ⟨i, -, hb⟩ := hblocked t ht hlive
    simpa using (Bool.and_eq_true_iff.mp hb).1
  let held : Finset ρ := (processes.flatMap (·.held)).toFinset
  have hheld : ∀ {r : ρ}, r ∈ held ↔ ∃ t ∈ processes, r ∈ t.held := by simp [held]
  have hsome : held.Nonempty := by
    by_cases hnone : t.held = []
    · have hwanted : t.wanted ≠ [] := by simpa [hnone] using h.works t ht (hstays t ht hlive)
      obtain ⟨r, -, hr⟩ := hwaits t ht hlive hwanted
      exact ⟨r, hheld.mpr hr⟩
    · obtain ⟨r, hr⟩ := exists_mem_of_ne_nil _ hnone
      exact ⟨r, hheld.mpr ⟨t, ht, hr⟩⟩
  obtain ⟨top, htop, hmax⟩ := held.exists_max_image rank hsome
  obtain ⟨u, hu, hut⟩ := hheld.mp htop
  have hulive : u.ended = false := by simp [Process.ended, ne_nil_of_mem hut]
  obtain ⟨i, hi, hub⟩ := hblocked u hu hulive
  cases huw : u.wanted with
  | cons q rest =>
    -- what it waits for lies higher than all that is held
    obtain ⟨r, hr, hrheld⟩ := hwaits u hu hulive (by simp [huw])
    have hlt : rank top < rank r :=
      (List.pairwise_append.mp (h.own u hu)).2.2 top (List.mem_reverse.mpr hut) r hr
    exact absurd (hmax r (hheld.mpr hrheld)) (not_le.mpr hlt)
  | nil =>
    have hawaits : awaits processes i = true := by simpa [Process.blocked, huw] using (Bool.and_eq_true_iff.mp hub).2
    obtain ⟨c, hc, hcond⟩ := List.any_eq_true.mp hawaits
    obtain ⟨hparent, hclive⟩ : c.parent = some i ∧ c.ended = false := by simpa using hcond
    have habove := h.child c hc hclive i u hparent hi top hut
    have hcheld : c.held = [] := by
      apply List.eq_nil_iff_forall_not_mem.mpr
      intro r hr
      have hlt := habove r (mem_append_left _ hr)
      exact absurd (hmax r (hheld.mpr ⟨c, hc, hr⟩)) (not_le.mpr hlt)
    have hcwanted : c.wanted ≠ [] := by simpa [hcheld] using h.works c hc (hstays c hc hclive)
    obtain ⟨r, hr, hrheld⟩ := hwaits c hc hclive hcwanted
    have hlt := habove r (mem_append_right _ hr)
    exact absurd (hmax r (hheld.mpr hrheld)) (not_le.mpr hlt)

end Semaphores

/-! ### Two ladders -/

/-- Rung `a` of the first ladder comes before rung `b` of the second where `before a b`, and after it where
`after b a`. If no two of these are opposite, there is a merge of the two ladders: below rung `a` of the first lie
the rungs up to `cut a` of the second. -/
theorem exists_merge {before after : Nat → Nat → Prop} {bound : Nat} (hbound : ∀ b a, after b a → b ≤ bound)
    (hagree : ∀ a b b' a', before a b → after b' a' → a' ≤ a → b' < b) :
    ∃ cut : Nat → Nat, Monotone cut ∧ (∀ a b, before a b → cut a ≤ b) ∧ ∀ b a, after b a → b < cut a := by
  let least (a : Nat) : Set Nat := {n | ∀ b a', after b a' → a' ≤ a → b < n}
  have hleast : ∀ a, (least a).Nonempty := by
    intro a
    refine ⟨bound + 1, fun b a' hafter _ => ?_⟩
    exact Nat.lt_succ_of_le (hbound b a' hafter)
  refine ⟨fun a => sInf (least a), ?_, ?_, ?_⟩
  · intro a a' hle
    apply Nat.sInf_le
    intro b c hafter hc
    exact Nat.sInf_mem (hleast a') b c hafter (hc.trans hle)
  · intro a b hbefore
    apply Nat.sInf_le
    intro b' a' hafter hle
    exact hagree a b b' a' hbefore hafter hle
  · intro b a hafter
    exact Nat.sInf_mem (hleast a) b a hafter le_rfl

end Lib.Hierarchy
