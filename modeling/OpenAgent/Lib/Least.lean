import Mathlib.Logic.Basic

/-!
# The least element of a list

`min(l, key=key)`: of the elements whose key is least, the first.
-/

namespace Lib

open List

variable {α : Type}

def leastBy (key : α → Int) : List α → Option α
  | [] => none
  | a :: rest =>
    match leastBy key rest with
    | none => some a
    | some b => if key b < key a then some b else some a

theorem leastBy_eq_none {key : α → Int} {l : List α} : leastBy key l = none ↔ l = [] := by
  cases l with
  | nil => exact iff_of_true rfl rfl
  | cons a rest =>
    apply iff_of_false _ (cons_ne_nil a rest)
    rw [leastBy]
    split
    · exact nofun
    · split <;> exact nofun

theorem leastBy_mem {key : α → Int} {l : List α} {a : α} (h : leastBy key l = some a) : a ∈ l := by
  induction l generalizing a with
  | nil => cases h
  | cons b rest ih =>
    rw [leastBy] at h
    split at h
    · cases h
      exact mem_cons_self
    · rename_i c hc
      split at h
      · cases h
        exact mem_cons_of_mem b (ih hc)
      · cases h
        exact mem_cons_self

theorem leastBy_le {key : α → Int} {l : List α} {a b : α} (h : leastBy key l = some a) (hb : b ∈ l) :
    key a ≤ key b := by
  induction l generalizing a with
  | nil => exact absurd hb not_mem_nil
  | cons c rest ih =>
    rw [leastBy] at h
    split at h
    · rename_i hnone
      cases h
      rw [leastBy_eq_none.mp hnone, mem_singleton] at hb
      exact Int.le_of_eq (congrArg key hb.symm)
    · rename_i d hd
      split at h
      · rename_i hless
        cases h
        rcases List.mem_cons.mp hb with rfl | hb
        · exact Int.le_of_lt hless
        · exact ih hd hb
      · rename_i hless
        cases h
        rcases List.mem_cons.mp hb with rfl | hb
        · exact Int.le_refl _
        · have hle := ih hd hb
          omega

end Lib
