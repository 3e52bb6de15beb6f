import Mathlib.Data.List.Nodup
import Mathlib.Order.WellFounded

/-!
# Counting semaphores

A semaphore hands its permits out first come, first served. A permit that is given back goes to the first
who waits, who takes it up once it is resumed; nobody who comes after the first waiter gets past. So all
permits are held, or on their way to somebody, or nobody waits, and whoever waits long enough sees all
permits held.
-/

namespace Lib

open List

/-- A semaphore: free permits, those who hold one, those who were given one but have not been resumed, and
those who wait, the first one first. -/
structure Semaphore (α : Type) where
  value : Nat
  holders : List α := []
  woken : List α := []
  waiters : List α := []

namespace Semaphore

inductive Op (α : Type)
  | acquire (a : α)
  | resume (a : α)
  | release (a : α)
  | abandon (a : α)

variable {α : Type}

/-- At most `n` waiters are given a permit, as long as there are any. -/
def grant (s : Semaphore α) (n : Nat) : Semaphore α :=
  let k := min n (min s.value s.waiters.length)
  { s with value := s.value - k, woken := s.woken ++ s.waiters.take k, waiters := s.waiters.drop k }

variable [DecidableEq α]

def step (s : Semaphore α) : Op α → Option (Semaphore α)
  | .acquire a =>
    if a ∈ s.holders ++ s.woken ++ s.waiters then none
    else if 0 < s.value ∧ s.woken = [] ∧ s.waiters = [] then
      some { s with value := s.value - 1, holders := s.holders ++ [a] }
    else some { s with waiters := s.waiters ++ [a] }
  | .resume a =>
    if a ∈ s.woken then
      some (({ s with holders := s.holders ++ [a], woken := s.woken.erase a }).grant s.value)
    else none
  | .release a =>
    if a ∈ s.holders then
      some (({ s with value := s.value + 1, holders := s.holders.erase a }).grant 1)
    else none
  | .abandon a =>
    if a ∈ s.waiters then some (({ s with waiters := s.waiters.erase a }).grant s.value)
    else if a ∈ s.woken then
      some (({ s with value := s.value + 1, woken := s.woken.erase a }).grant (s.value + 1))
    else none

structure Balanced (capacity : Nat) (s : Semaphore α) : Prop where
  permits : s.holders.length + s.woken.length + s.value = capacity
  queue : s.waiters ≠ [] → s.value = 0 ∨ s.woken ≠ []
  once : s.waiters.Nodup

variable {capacity : Nat} {s t : Semaphore α} {op : Op α} {a : α}

omit [DecidableEq α] in
theorem balanced_new (capacity : Nat) : Balanced capacity { value := capacity : Semaphore α } :=
  ⟨by simp, fun h => absurd rfl h, nodup_nil⟩

omit [DecidableEq α] in
theorem permits_grant (s : Semaphore α) (n : Nat) :
    (s.grant n).holders.length + (s.grant n).woken.length + (s.grant n).value =
      s.holders.length + s.woken.length + s.value := by
  simp only [grant, length_append, length_take]
  omega

omit [DecidableEq α] in
theorem queue_grant (s : Semaphore α) {n : Nat} (hn : s.value ≤ n) (hwait : (s.grant n).waiters ≠ []) :
    (s.grant n).value = 0 := by
  simp only [grant] at hwait ⊢
  have hlt : min n (min s.value s.waiters.length) < s.waiters.length := by
    by_contra hge
    exact hwait (drop_of_length_le (Nat.le_of_not_lt hge))
  omega

omit [DecidableEq α] in
theorem woken_grant_one (s : Semaphore α) (hpos : 0 < s.value) (hwait : s.waiters ≠ []) :
    (s.grant 1).woken ≠ [] := by
  have hlen := length_pos_of_ne_nil hwait
  have hk : min 1 (min s.value s.waiters.length) = 1 := by omega
  simp only [grant, hk]
  intro hnil
  obtain ⟨-, htake⟩ := List.append_eq_nil_iff.mp hnil
  rcases List.take_eq_nil_iff.mp htake with h | h
  · cases h
  · exact hwait h

theorem balanced_step (h : Balanced capacity s) (hstep : s.step op = some t) : Balanced capacity t := by
  obtain ⟨hpermits, hqueue, honce⟩ := h
  cases op with
  | acquire a =>
    rw [step] at hstep
    split at hstep
    · cases hstep
    · rename_i hnew
      split at hstep
      · rename_i hfree
        cases hstep
        refine ⟨?_, fun hwait => absurd hfree.2.2 hwait, honce⟩
        simp only [length_append, length_singleton]
        omega
      · rename_i hbusy
        cases hstep
        refine ⟨hpermits, fun _ => ?_, ?_⟩
        · by_contra hnone
          rw [not_or, not_not] at hnone
          by_cases hwait : s.waiters = []
          · exact hbusy ⟨Nat.pos_of_ne_zero hnone.1, hnone.2, hwait⟩
          · rcases hqueue hwait with hzero | hwoken
            · exact hnone.1 hzero
            · exact hwoken hnone.2
        · have hnot : a ∉ s.waiters := fun hmem => hnew (mem_append_right _ hmem)
          apply List.Nodup.append honce (nodup_singleton a)
          intro b hb hba
          rw [List.mem_singleton.mp hba] at hb
          exact hnot hb
  | resume a =>
    rw [step] at hstep
    split at hstep
    · rename_i hmem
      cases hstep
      refine ⟨?_, fun hwait => .inl (queue_grant _ (Nat.le_refl _) hwait), ?_⟩
      · rw [permits_grant]
        have hpos := length_pos_of_mem hmem
        simp only [length_append, length_singleton, length_erase_of_mem hmem]
        omega
      · exact honce.sublist (drop_sublist _ _)
    · cases hstep
  | release a =>
    rw [step] at hstep
    split at hstep
    · rename_i hmem
      cases hstep
      refine ⟨?_, fun hwait => .inr (woken_grant_one _ (Nat.succ_pos _) ?_), ?_⟩
      · rw [permits_grant]
        have hpos := length_pos_of_mem hmem
        simp only [length_erase_of_mem hmem]
        omega
      · intro hnil
        apply hwait
        have hnone : s.waiters = [] := hnil
        simp only [grant, hnone, drop_nil]
      · exact honce.sublist (drop_sublist _ _)
    · cases hstep
  | abandon a =>
    rw [step] at hstep
    split at hstep
    · cases hstep
      refine ⟨?_, fun hwait => .inl (queue_grant _ (Nat.le_refl _) hwait), ?_⟩
      · rw [permits_grant]
        exact hpermits
      · exact (honce.sublist (erase_sublist)).sublist (drop_sublist _ _)
    · split at hstep
      · rename_i hmem
        cases hstep
        refine ⟨?_, fun hwait => .inl (queue_grant _ (Nat.le_refl _) hwait), ?_⟩
        · rw [permits_grant]
          have hpos := length_pos_of_mem hmem
          simp only [length_erase_of_mem hmem]
          omega
        · exact honce.sublist (drop_sublist _ _)
      · cases hstep

omit [DecidableEq α] in
theorem Balanced.holders_le (h : Balanced capacity s) : s.holders.length ≤ capacity := by
  have hpermits := h.permits
  omega

omit [DecidableEq α] in
theorem Balanced.woken_ne_nil (h : Balanced capacity s) (hwait : s.waiters ≠ [])
    (hless : s.holders.length < capacity) : s.woken ≠ [] := by
  intro hnone
  have hzero : s.value = 0 := (h.queue hwait).resolve_right fun hwoken => hwoken hnone
  have hpermits := h.permits
  rw [hnone, length_nil, hzero] at hpermits
  omega

/-! ### Waiting -/

def Nearer (a : α) (t s : Semaphore α) : Prop :=
  t.waiters.idxOf a < s.waiters.idxOf a ∨
    t.waiters.idxOf a = s.waiters.idxOf a ∧ t.woken.Sublist s.woken

theorem Nearer.refl (a : α) (s : Semaphore α) : Nearer a s s := .inr ⟨rfl, List.Sublist.refl _⟩

theorem Nearer.trans {u : Semaphore α} (h : Nearer a u t) (h' : Nearer a t s) : Nearer a u s := by
  rcases h with hlt | ⟨heq, hsub⟩
  · rcases h' with hlt' | ⟨heq', -⟩
    · exact .inl (Nat.lt_trans hlt hlt')
    · exact .inl (heq' ▸ hlt)
  · rcases h' with hlt' | ⟨heq', hsub'⟩
    · exact .inl (heq ▸ hlt')
    · exact .inr ⟨heq.trans heq', hsub.trans hsub'⟩

theorem idxOf_drop {l : List α} {k : Nat} (h : a ∈ l.drop k) (hnodup : l.Nodup) :
    (l.drop k).idxOf a + k = l.idxOf a := by
  have hsplit := take_append_drop k l
  have hlen : k ≤ l.length := by
    by_contra hgt
    rw [drop_of_length_le (by omega)] at h
    exact not_mem_nil h
  have hnot : a ∉ l.take k := by
    intro hmem
    rw [← hsplit] at hnodup
    exact disjoint_of_nodup_append hnodup hmem h
  conv_rhs => rw [← hsplit]
  rw [idxOf_append_of_notMem hnot, length_take]
  omega

theorem nearer_grant {n : Nat} (hnodup : s.waiters.Nodup) (hstill : a ∈ (s.grant n).waiters) :
    Nearer a (s.grant n) s := by
  simp only [grant] at hstill
  have hidx := idxOf_drop hstill hnodup
  by_cases hzero : min n (min s.value s.waiters.length) = 0
  · right
    simp only [grant, hzero, drop_zero, take_zero, append_nil]
    exact ⟨trivial, List.Sublist.refl _⟩
  · left
    simp only [grant]
    omega

theorem idxOf_erase_le {l : List α} {b : α} (hne : a ≠ b) : (l.erase b).idxOf a ≤ l.idxOf a := by
  induction l with
  | nil => exact Nat.le_refl _
  | cons x rest ih =>
    by_cases hx : x = b
    · rw [hx, erase_cons_head, idxOf_cons_ne _ (Ne.symm hne)]
      exact Nat.le_succ _
    · rw [erase_cons_tail (by simpa using hx)]
      by_cases hxa : x = a
      · rw [hxa, idxOf_cons_self, idxOf_cons_self]
      · rw [idxOf_cons_ne _ hxa, idxOf_cons_ne _ hxa]
        exact Nat.succ_le_succ ih

theorem nearer_step (h : Balanced capacity s) (hstep : s.step op = some t) (hwait : a ∈ s.waiters)
    (hstill : a ∈ t.waiters) : Nearer a t s := by
  have hsome : s.waiters ≠ [] := ne_nil_of_mem hwait
  cases op with
  | acquire b =>
    rw [step] at hstep
    split at hstep
    · cases hstep
    · split at hstep
      · rename_i hfree
        exact absurd hfree.2.2 hsome
      · cases hstep
        exact .inr ⟨idxOf_append_of_mem hwait, List.Sublist.refl _⟩
  | resume b =>
    rw [step] at hstep
    split at hstep
    · cases hstep
      exact (nearer_grant (s := { s with holders := s.holders ++ [b], woken := s.woken.erase b })
        h.once hstill).trans (.inr ⟨rfl, erase_sublist⟩)
    · cases hstep
  | release b =>
    rw [step] at hstep
    split at hstep
    · cases hstep
      exact (nearer_grant (s := { s with value := s.value + 1, holders := s.holders.erase b })
        h.once hstill).trans (.inr ⟨rfl, List.Sublist.refl _⟩)
    · cases hstep
  | abandon b =>
    rw [step] at hstep
    split at hstep
    · cases hstep
      have herased : (s.waiters.erase b).Nodup := h.once.sublist erase_sublist
      have hne : a ≠ b := by
        rintro rfl
        exact h.once.not_mem_erase (mem_of_mem_drop hstill)
      refine (nearer_grant herased hstill).trans ?_
      rcases Nat.lt_or_eq_of_le (idxOf_erase_le (l := s.waiters) hne) with hlt | heq
      · exact .inl hlt
      · exact .inr ⟨heq, List.Sublist.refl _⟩
    · split at hstep
      · cases hstep
        exact (nearer_grant (s := { s with value := s.value + 1, woken := s.woken.erase b })
          h.once hstill).trans (.inr ⟨rfl, erase_sublist⟩)
      · cases hstep

theorem served {σ : Nat → Semaphore α} (h : Balanced capacity (σ 0))
    (hsteps : ∀ n, σ (n + 1) = σ n ∨ ∃ op, (σ n).step op = some (σ (n + 1)))
    (hfair : ∀ n, ∀ b ∈ (σ n).woken, ∃ m, n ≤ m ∧ b ∉ (σ m).woken) (n : Nat) (a : α) :
    ∃ m, n ≤ m ∧ (a ∉ (σ m).waiters ∨ capacity ≤ (σ m).holders.length) := by
  have hbalanced : ∀ m, Balanced capacity (σ m) := by
    intro m
    induction m with
    | zero => exact h
    | succ m ih =>
      rcases hsteps m with hsame | ⟨op, hop⟩
      · rw [hsame]
        exact ih
      · exact balanced_step ih hop
  by_contra hnever
  push Not at hnever
  have hnearer : ∀ m, n ≤ m → ∀ k, Nearer a (σ (m + k)) (σ m) := by
    intro m hm k
    induction k with
    | zero => exact .refl a _
    | succ k ih =>
      refine Nearer.trans ?_ ih
      show Nearer a (σ (m + k + 1)) (σ (m + k))
      rcases hsteps (m + k) with hsame | ⟨op, hop⟩
      · rw [hsame]
        exact .refl a _
      · exact nearer_step (hbalanced _) hop (hnever (m + k) (by omega)).1 (hnever (m + k + 1) (by omega)).1
  -- the place in the queue goes down, or the permits on their way grow fewer
  have hdown : ∀ m, n ≤ m → ∃ k, n ≤ k ∧ Prod.Lex (· < ·) (· < ·)
      ((σ k).waiters.idxOf a, (σ k).woken.length) ((σ m).waiters.idxOf a, (σ m).woken.length) := by
    intro m hm
    obtain ⟨hwait, hless⟩ := hnever m hm
    obtain ⟨b, hb⟩ := exists_mem_of_ne_nil _
      ((hbalanced m).woken_ne_nil (ne_nil_of_mem hwait) hless)
    obtain ⟨k, hk, hgone⟩ := hfair m b hb
    obtain ⟨j, rfl⟩ := Nat.exists_eq_add_of_le hk
    refine ⟨m + j, by omega, ?_⟩
    rcases hnearer m hm j with hlt | ⟨heq, hsub⟩
    · exact .left _ _ hlt
    · rw [heq]
      refine .right _ (Nat.lt_of_le_of_ne hsub.length_le fun hlen => ?_)
      rw [hsub.eq_of_length hlen] at hgone
      exact hgone hb
  have hwf : WellFounded (Prod.Lex (· < · : Nat → Nat → Prop) (· < · : Nat → Nat → Prop)) :=
    (Prod.lex ⟨(· < ·), Nat.lt_wfRel.wf⟩ ⟨(· < ·), Nat.lt_wfRel.wf⟩).wf
  have hnone : ∀ p : Nat × Nat, ∀ m, n ≤ m → ((σ m).waiters.idxOf a, (σ m).woken.length) = p → False := by
    intro p
    induction p using hwf.induction with
    | _ p ih =>
      rintro m hm rfl
      obtain ⟨k, hk, hlt⟩ := hdown m hm
      exact ih _ hlt k hk rfl
  exact hnone _ n (Nat.le_refl n) rfl

end Semaphore

end Lib
