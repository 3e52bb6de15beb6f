import Mathlib.Data.List.Nodup

/-!
# Insertion-ordered dictionaries

A finite map that keeps the order in which its keys first arrived, with no key twice. Assigning to a
present key keeps its place, assigning to an absent one appends it, and removing a key closes the
gap. That no key occurs twice is part of the type, so a lookup and an iteration never disagree.
-/

namespace Lib

open List

structure Dict (κ ν : Type) [DecidableEq κ] where
  entries : List (κ × ν)
  nodup : (entries.map Prod.fst).Nodup

namespace Dict

variable {κ ν : Type} [DecidableEq κ]

def empty : Dict κ ν := ⟨[], by simp⟩

def keys (d : Dict κ ν) : List κ := d.entries.map Prod.fst

def values (d : Dict κ ν) : List ν := d.entries.map Prod.snd

def find (k : κ) : List (κ × ν) → Option ν
  | [] => none
  | (k', v) :: rest => if k' = k then some v else find k rest

def get? (d : Dict κ ν) (k : κ) : Option ν := find k d.entries

/-- The entries with `k` bound to `v`, in place when `k` is there and at the end otherwise. -/
def assign (k : κ) (v : ν) : List (κ × ν) → List (κ × ν)
  | [] => [(k, v)]
  | (k', v') :: rest => if k' = k then (k, v) :: rest else (k', v') :: assign k v rest

variable {k x : κ} {v : ν} {xs : List (κ × ν)}

theorem mem_keys_assign :
    x ∈ (assign k v xs).map Prod.fst ↔ x = k ∨ x ∈ xs.map Prod.fst := by
  induction xs with
  | nil => simp [assign]
  | cons e rest ih =>
    rw [assign]
    split
    · rename_i heq
      simp [heq]
    · simp only [map_cons, mem_cons, ih]
      tauto

theorem nodup_assign (h : (xs.map Prod.fst).Nodup) :
    ((assign k v xs).map Prod.fst).Nodup := by
  induction xs with
  | nil => simp [assign]
  | cons e rest ih =>
    simp only [map_cons, nodup_cons] at h
    rw [assign]
    split
    · rename_i heq
      simpa [← heq] using h
    · rename_i hne
      simp only [map_cons, nodup_cons, mem_keys_assign, not_or]
      exact ⟨⟨hne, h.1⟩, ih h.2⟩

def set (d : Dict κ ν) (k : κ) (v : ν) : Dict κ ν := ⟨assign k v d.entries, nodup_assign d.nodup⟩

def pop (d : Dict κ ν) (k : κ) : Dict κ ν where
  entries := d.entries.filter fun e => e.1 ≠ k
  nodup := d.nodup.sublist (List.filter_sublist.map Prod.fst)

def contains (d : Dict κ ν) (k : κ) : Bool := (d.get? k).isSome

/-- The entries whose key and value satisfy `p`, in order. -/
def filter (d : Dict κ ν) (p : κ → ν → Bool) : Dict κ ν where
  entries := d.entries.filter fun e => p e.1 e.2
  nodup := d.nodup.sublist (List.filter_sublist.map Prod.fst)

@[simp] theorem get?_empty (k : κ) : (empty : Dict κ ν).get? k = none := rfl

theorem find_assign (k x : κ) (v : ν) (xs : List (κ × ν)) :
    find x (assign k v xs) = if x = k then some v else find x xs := by
  induction xs with
  | nil => simp [assign, find, eq_comm]
  | cons e rest ih =>
    rw [assign]
    by_cases hk : e.1 = k
    · simp only [hk, if_true, find]
      by_cases hx : x = k
      · simp [hx]
      · simp [hx, Ne.symm hx]
    · simp only [hk, if_false, find, ih]
      by_cases hx : x = k
      · subst hx
        simp [hk]
      · simp [hx]

theorem get?_set (d : Dict κ ν) (k x : κ) (v : ν) :
    (d.set k v).get? x = if x = k then some v else d.get? x := find_assign k x v d.entries

@[simp] theorem get?_set_self (d : Dict κ ν) (k : κ) (v : ν) : (d.set k v).get? k = some v := by
  simp [get?_set]

theorem get?_set_ne (d : Dict κ ν) (v : ν) (h : x ≠ k) : (d.set k v).get? x = d.get? x := by
  simp [get?_set, h]

theorem assign_assign (k : κ) (v w : ν) (xs : List (κ × ν)) :
    assign k w (assign k v xs) = assign k w xs := by
  induction xs with
  | nil => simp [assign]
  | cons e rest ih =>
    obtain ⟨k', v'⟩ := e
    by_cases h : k' = k
    · simp [assign, h]
    · simp [assign, h, ih]

@[simp] theorem set_set (d : Dict κ ν) (k : κ) (v w : ν) : (d.set k v).set k w = d.set k w := by
  simp [set, assign_assign]

theorem find_filter_key (q : κ → Bool) (x : κ) (xs : List (κ × ν)) :
    find x (xs.filter fun e => q e.1) = if q x then find x xs else none := by
  induction xs with
  | nil => simp [find]
  | cons e rest ih =>
    by_cases hq : q e.1 = true
    · rw [filter_cons_of_pos (by exact hq), find, find, ih]
      by_cases hx : e.1 = x
      · subst hx
        simp [hq]
      · simp [hx]
    · rw [filter_cons_of_neg (by exact hq), find, ih]
      by_cases hx : e.1 = x
      · subst hx
        simp [hq]
      · simp [hx]

theorem get?_pop (d : Dict κ ν) (k x : κ) :
    (d.pop k).get? x = if x = k then none else d.get? x := by
  have h := find_filter_key (fun k' => decide (k' ≠ k)) x d.entries
  simp only [decide_eq_true_eq, ne_eq, ite_not] at h
  exact h

@[simp] theorem get?_pop_self (d : Dict κ ν) (k : κ) : (d.pop k).get? k = none := by
  simp [get?_pop]

theorem get?_pop_ne (d : Dict κ ν) (h : x ≠ k) : (d.pop k).get? x = d.get? x := by
  simp [get?_pop, h]

theorem find_eq_some_iff (h : (xs.map Prod.fst).Nodup) :
    find k xs = some v ↔ (k, v) ∈ xs := by
  induction xs with
  | nil => simp [find]
  | cons e rest ih =>
    obtain ⟨k', v'⟩ := e
    simp only [map_cons, nodup_cons] at h
    rw [find]
    split
    · rename_i heq
      subst heq
      have hnot : (k', v) ∉ rest := fun hmem => h.1 (mem_map_of_mem (f := Prod.fst) hmem)
      simp [hnot, eq_comm]
    · rename_i hne
      simp [ih h.2, Ne.symm hne]

variable {d : Dict κ ν}

theorem get?_eq_some_iff : d.get? k = some v ↔ (k, v) ∈ d.entries :=
  find_eq_some_iff d.nodup

theorem get?_eq_none_iff : d.get? k = none ↔ k ∉ d.keys := by
  constructor
  · intro h hmem
    obtain ⟨e, he, rfl⟩ := List.mem_map.mp hmem
    have hsome : d.get? e.1 = some e.2 := get?_eq_some_iff.mpr he
    simp [h] at hsome
  · intro h
    cases hget : d.get? k with
    | none => rfl
    | some v => exact absurd (mem_map_of_mem (f := Prod.fst) (get?_eq_some_iff.mp hget)) h

theorem mem_values_of_get? (h : d.get? k = some v) : v ∈ d.values :=
  mem_map_of_mem (f := Prod.snd) (get?_eq_some_iff.mp h)

theorem mem_filter {p : κ → ν → Bool} :
    (d.filter p).get? k = some v ↔ d.get? k = some v ∧ p k v = true := by
  simp [get?_eq_some_iff, filter]

theorem get?_filter (d : Dict κ ν) (p : κ → ν → Bool) (k : κ) :
    (d.filter p).get? k = (d.get? k).filter (p k) := by
  ext v
  rw [mem_filter, Option.filter_eq_some_iff]

/-! ### Updating an entry -/

/-- The dictionary with `f` applied to the value at `k`, if there is one. -/
def update (d : Dict κ ν) (k : κ) (f : ν → ν) : Dict κ ν :=
  match d.get? k with
  | some v => d.set k (f v)
  | none => d

theorem get?_update (d : Dict κ ν) (k x : κ) (f : ν → ν) :
    (d.update k f).get? x = if x = k then (d.get? x).map f else d.get? x := by
  rw [update]
  by_cases hx : x = k
  · subst hx
    cases hget : d.get? x with
    | none => simp [hget]
    | some v => simp
  · rw [if_neg hx]
    cases d.get? k with
    | none => rfl
    | some v => exact get?_set_ne d _ hx

@[simp] theorem isSome_get?_update (d : Dict κ ν) (k x : κ) (f : ν → ν) :
    ((d.update k f).get? x).isSome = (d.get? x).isSome := by
  rw [get?_update]
  split
  · rw [Option.isSome_map]
  · rfl

theorem get?_update_eq_some {f : ν → ν} :
    (d.update k f).get? x = some v ↔ ∃ w, d.get? x = some w ∧ v = if x = k then f w else w := by
  rw [get?_update]
  cases d.get? x with
  | none => simp
  | some w =>
    by_cases hx : x = k
    · simp [hx, eq_comm]
    · simp [hx, eq_comm]

theorem map_assign {β : Type} {g : κ × ν → β} {w : ν} (h : find k xs = some w) (hg : g (k, v) = g (k, w))
    : (assign k v xs).map g = xs.map g := by
  induction xs with
  | nil => cases h
  | cons e rest ih =>
    obtain ⟨k', v'⟩ := e
    by_cases hk : k' = k
    · subst hk
      obtain rfl : v' = w := by simpa [find] using h
      simp [assign, hg]
    · rw [find, if_neg hk] at h
      rw [assign, if_neg hk, map_cons, map_cons, ih h]

theorem map_entries_update {β : Type} {f : ν → ν} {g : κ × ν → β} (hg : ∀ v, g (k, f v) = g (k, v))
    : (d.update k f).entries.map g = d.entries.map g := by
  rw [update]
  cases h : d.get? k with
  | none => rfl
  | some v => exact map_assign h (hg v)

/-! ### Changing every entry -/

/-- The dictionary with `f` applied to every key and its value. -/
def map (d : Dict κ ν) (f : κ → ν → ν) : Dict κ ν where
  entries := d.entries.map fun e => (e.1, f e.1 e.2)
  nodup := by
    have hkeys : (d.entries.map fun e => (e.1, f e.1 e.2)).map Prod.fst = d.entries.map Prod.fst := by
      rw [List.map_map]
      rfl
    rw [hkeys]
    exact d.nodup

theorem get?_map (d : Dict κ ν) (f : κ → ν → ν) (k : κ) : (d.map f).get? k = (d.get? k).map (f k) := by
  show find k (d.entries.map fun e => (e.1, f e.1 e.2)) = (find k d.entries).map (f k)
  induction d.entries with
  | nil => rfl
  | cons e rest ih =>
    rw [map_cons, find, find, ih]
    by_cases hk : e.1 = k
    · subst hk
      simp
    · rw [if_neg hk, if_neg hk]

/-! ### Counting entries -/

/-- How many entries satisfy `p`. -/
def count (d : Dict κ ν) (p : κ → ν → Bool) : Nat := (d.entries.filter fun e => p e.1 e.2).length

theorem assign_of_absent (h : find k xs = none) :
    assign k v xs = xs ++ [(k, v)] := by
  induction xs with
  | nil => rfl
  | cons e rest ih =>
    rw [find] at h
    split at h
    · simp at h
    · rename_i hne
      rw [assign, if_neg hne, ih h, cons_append]

theorem count_set_of_absent (v : ν) (p : κ → ν → Bool) (h : d.get? k = none)
    : (d.set k v).count p = d.count p + if p k v then 1 else 0 := by
  simp only [count, set, assign_of_absent h, filter_append, length_append]
  rw [filter_cons]
  cases p k v <;> rfl

theorem count_pop_add (hnodup : (xs.map Prod.fst).Nodup) (p : κ → ν → Bool) (h : find k xs = some v) :
    ((xs.filter fun e => e.1 ≠ k).filter fun e => p e.1 e.2).length + (if p k v then 1 else 0)
      = (xs.filter fun e => p e.1 e.2).length := by
  induction xs with
  | nil => simp [find] at h
  | cons e rest ih =>
    obtain ⟨k', v'⟩ := e
    simp only [map_cons, nodup_cons] at hnodup
    rw [find] at h
    split at h
    · rename_i heq
      subst heq
      obtain rfl := Option.some.inj h
      have hrest : (rest.filter fun e => e.1 ≠ k') = rest := by
        apply List.filter_eq_self.mpr
        intro e he
        have hne : e.1 ≠ k' := fun heq => hnodup.1 (heq ▸ mem_map_of_mem (f := Prod.fst) he)
        simpa using hne
      rw [filter_cons_of_neg (by simp), hrest, filter_cons]
      cases p k' v' <;> simp
    · rename_i hne
      rw [filter_cons_of_pos (by simpa using hne), filter_cons, filter_cons]
      have := ih hnodup.2 h
      cases p k' v' <;> simp only [Bool.false_eq_true, if_false, if_true, length_cons] <;> omega

theorem count_pop (p : κ → ν → Bool) (h : d.get? k = some v) :
    (d.pop k).count p + (if p k v then 1 else 0) = d.count p := count_pop_add d.nodup p h

theorem count_congr {p q : κ → ν → Bool} (h : ∀ k v, d.get? k = some v → p k v = q k v)
    : d.count p = d.count q := by
  unfold count
  congr 1
  exact filter_congr fun e he => h e.1 e.2 (get?_eq_some_iff.mpr he)

theorem count_lt {p q : κ → ν → Bool} (himp : ∀ k v, p k v = true → q k v = true) (h : d.get? k = some v)
    (hq : q k v = true) (hp : p k v = false) : d.count p < d.count q := by
  have hmem : (k, v) ∈ d.entries.filter fun e => q e.1 e.2 :=
    List.mem_filter.mpr ⟨get?_eq_some_iff.mp h, hq⟩
  have hsub : (d.entries.filter fun e => p e.1 e.2) =
      (d.entries.filter fun e => q e.1 e.2).filter fun e => p e.1 e.2 := by
    rw [filter_filter]
    refine filter_congr fun e _ => ?_
    cases hpe : p e.1 e.2 with
    | false => rfl
    | true => simp [himp e.1 e.2 hpe]
  rw [count, count, hsub]
  refine Nat.lt_of_le_of_ne (length_filter_le _ _) fun heq => ?_
  have hall := List.length_filter_eq_length_iff.mp heq (k, v) hmem
  simp [hp] at hall

theorem count_eq_zero {p : κ → ν → Bool} :
    d.count p = 0 ↔ ∀ k v, d.get? k = some v → p k v = false := by
  simp [count, get?_eq_some_iff]

end Dict

end Lib
