import OpenAgent.Lib.Dict
import Mathlib.Data.List.Sort
import Mathlib.Data.List.Pairwise
import Mathlib.Data.List.Perm.Basic

/-!
# Tables with unique slots

A table keeps its rows under a primary key, and a row takes slots that no second row may hold. Bringing
a table to a list of desired rows writes them one by one: a row that the table did not have, or that was
removed on purpose, is inserted, a row that changed is updated where it stands, and any other is left
alone. That reaches the desired rows when what counts as present is present, and when no row asks for a
slot that another one still holds.
-/

namespace Lib

open List

/-- `ORDER BY` -/
def orderBy {ρ : Type} (f : ρ → Nat) (rows : List ρ) : List ρ :=
  rows.insertionSort fun a b => f a ≤ f b

theorem orderBy_eq_of_perm {ρ : Type} {f : ρ → Nat} {rows sorted : List ρ} (hperm : rows.Perm sorted)
    (hsorted : sorted.Pairwise fun a b => f a < f b) : orderBy f rows = sorted := by
  have htotal : Std.Total fun a b : ρ => f a ≤ f b := ⟨fun a b => Nat.le_total (f a) (f b)⟩
  have htrans : IsTrans ρ fun a b : ρ => f a ≤ f b := ⟨fun _ _ _ => Nat.le_trans⟩
  have hsymm : Std.Symm fun a b : ρ => f a ≠ f b := ⟨fun _ _ => Ne.symm⟩
  have hapart : sorted.Pairwise fun a b => f a ≠ f b := hsorted.imp Nat.ne_of_lt
  have hordered := pairwise_insertionSort (fun a b : ρ => f a ≤ f b) rows
  refine List.Perm.eq_of_pairwise ?_ hordered (hsorted.imp Nat.le_of_lt)
    ((perm_insertionSort _ rows).trans hperm)
  intro a b ha hb hab hba
  have ha' : a ∈ sorted := hperm.subset ((mem_insertionSort _).mp ha)
  by_contra hne
  exact hapart.forall ha' hb hne (Nat.le_antisymm hab hba)

/-- How the rows of a table are kept: their key, the slots they take, and when one is as good as another. -/
structure Schema (κ σ ρ : Type) where
  key : ρ → κ
  slots : ρ → List σ
  same : ρ → ρ → Bool
  same_refl : ∀ r, same r r = true
  slots_same : ∀ a b, same a b = true → slots a = slots b

namespace Schema

variable {κ σ ρ : Type} [DecidableEq κ] [DecidableEq σ] (S : Schema κ σ ρ)

def clashes (t : Dict κ ρ) (r : ρ) : Bool :=
  t.entries.any fun e => e.1 ≠ S.key r && (S.slots e.2).any fun slot => decide (slot ∈ S.slots r)

/-- `INSERT`, for rows that pass `check`. -/
def insert (check : ρ → Bool) (t : Dict κ ρ) (r : ρ) : Option (Dict κ ρ) :=
  if check r && (t.get? (S.key r)).isNone && !S.clashes t r then some (t.set (S.key r) r) else none

/-- `UPDATE … WHERE id=?`, which passes over a row that is not there. -/
def update (check : ρ → Bool) (t : Dict κ ρ) (r : ρ) : Option (Dict κ ρ) :=
  if (t.get? (S.key r)).isNone then some t
  else if check r && !S.clashes t r then some (t.set (S.key r) r) else none

def write (check : ρ → Bool) (existing : Dict κ ρ) (removed : List κ) (t : Dict κ ρ) (r : ρ) :
    Option (Dict κ ρ) :=
  match existing.get? (S.key r) with
  | none => S.insert check t r
  | some prior =>
    if S.key r ∈ removed then S.insert check t r
    else if S.same prior r then some t
    else S.update check t r

def sync (check : ρ → Bool) (existing : Dict κ ρ) (removed : List κ) (t : Dict κ ρ) (desired : List ρ) :
    Option (Dict κ ρ) :=
  desired.foldlM (S.write check existing removed) t

/-- What makes writing the desired rows go through: present is what counts as present, and no slot that a
row takes is held by a row outside, or by one that is only written later. -/
structure Ready (existing : Dict κ ρ) (removed : List κ) (t : Dict κ ρ) (desired : List ρ) : Prop where
  nodup : (desired.map S.key).Nodup
  fresh : ∀ r ∈ desired, (existing.get? (S.key r) = none ∨ S.key r ∈ removed) → t.get? (S.key r) = none
  kept : ∀ r ∈ desired, ∀ prior, existing.get? (S.key r) = some prior → S.key r ∉ removed →
    t.get? (S.key r) = some prior
  outside : ∀ k q, t.get? k = some q → k ∉ desired.map S.key → ∀ r ∈ desired,
    (S.slots q).Disjoint (S.slots r)
  apart : desired.Pairwise fun r later => (S.slots r).Disjoint (S.slots later)
  waiting : desired.Pairwise fun r later => ∀ prior, t.get? (S.key later) = some prior →
    (S.slots prior).Disjoint (S.slots r)

variable {S} {check : ρ → Bool} {existing t : Dict κ ρ} {removed : List κ} {desired rest : List ρ}

theorem clashes_eq_false {r : ρ}
    (h : ∀ k q, t.get? k = some q → k ≠ S.key r → (S.slots q).Disjoint (S.slots r)) :
    S.clashes t r = false := by
  rw [clashes, any_eq_false]
  intro e he
  have hget : t.get? e.1 = some e.2 := Dict.get?_eq_some_iff.mpr he
  by_cases hkey : e.1 = S.key r
  · simp [hkey]
  · have hdisjoint := h e.1 e.2 hget hkey
    simp only [hkey, ne_eq, not_false_eq_true, decide_true, Bool.true_and, Bool.not_eq_true,
      any_eq_false, decide_eq_true_eq]
    exact fun slot hslot hin => hdisjoint hslot hin

theorem Ready.clashes {r : ρ} (h : S.Ready existing removed t (r :: rest)) :
    S.clashes t r = false := by
  apply clashes_eq_false
  intro k q hget hkey
  by_cases hin : k ∈ rest.map S.key
  · obtain ⟨later, hlater, rfl⟩ := List.mem_map.mp hin
    exact (List.pairwise_cons.mp h.waiting).1 later hlater q hget
  · apply h.outside k q hget _ r mem_cons_self
    simp [hkey, hin]

theorem Ready.write {r : ρ} (h : S.Ready existing removed t (r :: rest)) (hcheck : check r = true) :
    ∃ t', S.write check existing removed t r = some t' ∧
      (∃ q, t'.get? (S.key r) = some q ∧ S.same q r = true) ∧
      (∀ k, k ≠ S.key r → t'.get? k = t.get? k) ∧ S.Ready existing removed t' rest := by
  have hclash := h.clashes
  have hnodup := List.nodup_cons.mp h.nodup
  have hwritten : ∀ t' : Dict κ ρ, (∃ q, t'.get? (S.key r) = some q ∧ S.same q r = true) →
      (∀ k, k ≠ S.key r → t'.get? k = t.get? k) → S.Ready existing removed t' rest := by
    rintro t' ⟨q, hq, hsame⟩ hother
    have hlater : ∀ later ∈ rest, t'.get? (S.key later) = t.get? (S.key later) := by
      intro later hmem
      apply hother
      exact fun heq => hnodup.1 (heq ▸ mem_map_of_mem hmem)
    refine
      { nodup := hnodup.2
        fresh := fun later hmem hnew => by
          rw [hlater later hmem]
          exact h.fresh later (mem_cons_of_mem _ hmem) hnew
        kept := fun later hmem prior hprior hstays => by
          rw [hlater later hmem]
          exact h.kept later (mem_cons_of_mem _ hmem) prior hprior hstays
        outside := ?_
        apart := (List.pairwise_cons.mp h.apart).2
        waiting := ?_ }
    · intro k p hget hout later hmem
      by_cases hk : k = S.key r
      · subst hk
        cases hq.symm.trans hget
        rw [S.slots_same q r hsame]
        exact (List.pairwise_cons.mp h.apart).1 later hmem
      · rw [hother k hk] at hget
        apply h.outside k p hget _ later (mem_cons_of_mem _ hmem)
        rw [map_cons, mem_cons, not_or]
        exact ⟨hk, hout⟩
    · refine (List.pairwise_cons.mp h.waiting).2.imp_of_mem fun {a b} _ hb hab => ?_
      rw [hlater b hb]
      exact hab
  have hset : ∀ k, k ≠ S.key r → (t.set (S.key r) r).get? k = t.get? k :=
    fun k hk => Dict.get?_set_ne t r hk
  have hhere : ∃ q, (t.set (S.key r) r).get? (S.key r) = some q ∧ S.same q r = true :=
    ⟨r, Dict.get?_set_self t _ r, S.same_refl r⟩
  have hinsert : t.get? (S.key r) = none → S.insert check t r = some (t.set (S.key r) r) := by
    intro hnone
    rw [insert, hcheck, hnone, hclash]
    rfl
  cases hexisting : existing.get? (S.key r) with
  | none =>
    have hnone := h.fresh r mem_cons_self (.inl hexisting)
    refine ⟨t.set (S.key r) r, ?_, hhere, hset, hwritten _ hhere hset⟩
    simp only [Schema.write, hexisting]
    exact hinsert hnone
  | some prior =>
    by_cases hremoved : S.key r ∈ removed
    · have hnone := h.fresh r mem_cons_self (.inr hremoved)
      refine ⟨t.set (S.key r) r, ?_, hhere, hset, hwritten _ hhere hset⟩
      simp only [Schema.write, hexisting, if_pos hremoved]
      exact hinsert hnone
    · have hprior := h.kept r mem_cons_self prior hexisting hremoved
      cases hsame : S.same prior r with
      | true =>
        refine ⟨t, ?_, ⟨prior, hprior, hsame⟩, fun _ _ => rfl,
          hwritten t ⟨prior, hprior, hsame⟩ fun _ _ => rfl⟩
        simp only [Schema.write, hexisting, if_neg hremoved, hsame, if_true]
      | false =>
        refine ⟨t.set (S.key r) r, ?_, hhere, hset, hwritten _ hhere hset⟩
        simp only [Schema.write, hexisting, if_neg hremoved, hsame, Schema.update, hprior, hcheck,
          hclash]
        rfl

theorem Ready.sync (h : S.Ready existing removed t desired) (hcheck : ∀ r ∈ desired, check r = true) :
    ∃ t', S.sync check existing removed t desired = some t' ∧
      (∀ r ∈ desired, ∃ q, t'.get? (S.key r) = some q ∧ S.same q r = true) ∧
      ∀ k, k ∉ desired.map S.key → t'.get? k = t.get? k := by
  induction desired generalizing t with
  | nil => exact ⟨t, rfl, fun r hr => absurd hr not_mem_nil, fun _ _ => rfl⟩
  | cons r rest ih =>
    obtain ⟨t₁, hwrite, hhere, hother, hready⟩ := h.write (hcheck r mem_cons_self)
    obtain ⟨t', hsync, hrest, hout⟩ := ih hready fun later hmem => hcheck later (mem_cons_of_mem _ hmem)
    refine ⟨t', ?_, ?_, ?_⟩
    · rw [Schema.sync, foldlM_cons, hwrite]
      exact hsync
    · intro row hrow
      rcases List.mem_cons.mp hrow with rfl | hmem
      · rw [hout _ (List.nodup_cons.mp h.nodup).1]
        exact hhere
      · exact hrest row hmem
    · intro k hk
      rw [map_cons, mem_cons, not_or] at hk
      rw [hout k hk.2, hother k hk.1]

end Schema

end Lib
