import Mathlib.Data.List.Basic

/-!
# Objects named by their place

Where objects are never removed, the list of all those ever made names each by its place: one more is
appended, one is updated in place, and every other place still holds what it held.
-/

namespace Lib

open List

variable {α β : Type}

variable {xs : List α}

theorem getElem?_append_singleton {x y : α} {i : Nat} :
    (xs ++ [x])[i]? = some y ↔ xs[i]? = some y ∨ i = xs.length ∧ x = y := by
  rcases Nat.lt_trichotomy i xs.length with hlt | rfl | hgt
  · simp [getElem?_append_left hlt, Nat.ne_of_lt hlt]
  · simp
  · have hnone : xs[i]? = none := getElem?_eq_none (Nat.le_of_lt hgt)
    have hall : (xs ++ [x])[i]? = none := getElem?_eq_none (by simp; omega)
    simp [hnone, hall, Nat.ne_of_gt hgt]

theorem getElem?_append_eq_some {xs ys : List α} {z : α} {i : Nat} :
    (xs ++ ys)[i]? = some z ↔
      xs[i]? = some z ∨ xs.length ≤ i ∧ ys[i - xs.length]? = some z := by
  rcases Nat.lt_or_ge i xs.length with hlt | hge
  · simp [getElem?_append_left hlt, Nat.not_le.mpr hlt]
  · simp [getElem?_append_right hge, hge]

theorem getElem?_modify_eq_some {f : α → α} {i j : Nat} {y : α} :
    (xs.modify i f)[j]? = some y ↔ ∃ x, xs[j]? = some x ∧ y = if i = j then f x else x := by
  rw [getElem?_modify]
  cases xs[j]? with
  | none => simp
  | some x => simp [eq_comm]

theorem getElem?_set_eq_some {x y z : α} {i j : Nat} (hx : xs[i]? = some x) :
    (xs.set i y)[j]? = some z ↔ i = j ∧ y = z ∨ i ≠ j ∧ xs[j]? = some z := by
  obtain ⟨hlt, -⟩ := List.getElem?_eq_some_iff.mp hx
  rw [getElem?_set]
  by_cases h : i = j
  · subst h
    simp [hlt]
  · simp [h]

theorem map_getElem?_set {x y : α} {i : Nat} {f : α → β} (hx : xs[i]? = some x)
    (hf : f y = f x) (j : Nat) : (xs.set i y)[j]?.map f = xs[j]?.map f := by
  obtain ⟨hlt, -⟩ := List.getElem?_eq_some_iff.mp hx
  rw [getElem?_set]
  by_cases h : i = j
  · subst h
    rw [if_pos rfl, if_pos hlt, hx, Option.map_some, Option.map_some, hf]
  · rw [if_neg h]

theorem map_getElem?_modify {i : Nat} {f : α → β} {g : α → α}
    (hf : ∀ x, f (g x) = f x) (j : Nat) : (xs.modify i g)[j]?.map f = xs[j]?.map f := by
  rw [getElem?_modify]
  cases xs[j]? with
  | none => rfl
  | some x =>
    by_cases h : i = j
    · simp [h, hf]
    · simp [h]

end Lib
