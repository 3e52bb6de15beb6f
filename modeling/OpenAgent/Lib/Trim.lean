import Mathlib.Data.List.DropRight
import Mathlib.Data.List.Forall2
import Mathlib.Data.List.Infix

/-!
# Trimmed texts and their joins

A text is tight when nothing at its ends would be trimmed. Trimming gives a tight part of the text, leaves a
tight text alone, and a join of tight texts is tight; so a join of joins is the join of all the texts.
-/

namespace Lib

open List

variable {α : Type} {drop : α → Bool}

/-- A list without what `drop` holds of at its two ends. -/
def trim (drop : α → Bool) (xs : List α) : List α := (xs.dropWhile drop).rdropWhile drop

/-- Neither end is one that `drop` holds of. -/
def Tight (drop : α → Bool) (xs : List α) : Prop :=
  (∀ c, xs.head? = some c → drop c = false) ∧ ∀ c, xs.getLast? = some c → drop c = false

theorem tight_nil : Tight drop ([] : List α) := ⟨by simp, by simp⟩

theorem isInfix_trim (xs : List α) : trim drop xs <:+: xs :=
  (List.rdropWhile_prefix drop _).isInfix.trans (dropWhile_suffix drop).isInfix

variable {xs ys : List α}

theorem trim_of_tight (h : Tight drop xs) : trim drop xs = xs := by
  have hfront : xs.dropWhile drop = xs := by
    cases xs with
    | nil => rfl
    | cons c rest => rw [dropWhile_cons_of_neg (by simp [h.1 c rfl])]
  rw [trim, hfront, rdropWhile_eq_self_iff]
  intro hne
  rw [h.2 _ (getLast?_eq_some_getLast hne)]
  exact Bool.false_ne_true

theorem tight_trim (xs : List α) : Tight drop (trim drop xs) := by
  constructor
  · intro c hc
    have hbegin : trim drop xs <+: xs.dropWhile drop := rdropWhile_prefix drop _
    obtain ⟨back, hback⟩ := hbegin
    have hhead : (xs.dropWhile drop).head? = some c := by
      rw [← hback, head?_append, hc]
      rfl
    have hnot := head?_dropWhile_not drop xs
    rw [hhead] at hnot
    simpa using hnot
  · intro c hc
    have hne : trim drop xs ≠ [] := by
      intro hnil
      simp [hnil] at hc
    rw [getLast?_eq_some_getLast hne, Option.some.injEq] at hc
    have hnot := rdropWhile_last_not drop (xs.dropWhile drop) hne
    rw [← hc, ← Bool.not_eq_true]
    exact hnot

theorem trim_trim (xs : List α) : trim drop (trim drop xs) = trim drop xs :=
  trim_of_tight (tight_trim xs)

theorem length_trim_le (xs : List α) : (trim drop xs).length ≤ xs.length :=
  (isInfix_trim xs).length_le

/-- What is trimmed off a list are two lists of which `drop` holds throughout. -/
theorem trim_split (xs : List α) : ∃ front back, xs = front ++ (trim drop xs ++ back) ∧
    (∀ c ∈ front, drop c = true) ∧ ∀ c ∈ back, drop c = true := by
  refine ⟨xs.takeWhile drop, (xs.dropWhile drop).rtakeWhile drop, ?_, ?_, ?_⟩
  · rw [trim, rdropWhile_append_rtakeWhile, takeWhile_append_dropWhile]
  · intro c hc
    exact mem_takeWhile_imp hc
  · intro c hc
    exact mem_rtakeWhile_imp hc

theorem dropWhile_append_of_head {c : α} (hhead : ys.head? = some c) (hc : drop c = false) (front : List α)
    : (front ++ ys).dropWhile drop = front.dropWhile drop ++ ys := by
  cases ys with
  | nil => cases hhead
  | cons d ds =>
    cases hhead
    rw [dropWhile_append, dropWhile_cons_of_neg (by simp [hc])]
    split
    · rename_i hempty
      rw [List.isEmpty_iff.mp hempty, nil_append]
    · rfl

theorem rdropWhile_append_of_last {c : α} (hlast : ys.getLast? = some c) (hc : drop c = false)
    (back : List α) : (ys ++ back).rdropWhile drop = ys ++ back.rdropWhile drop := by
  have hhead : ys.reverse.head? = some c := by rw [head?_reverse, hlast]
  rw [List.rdropWhile, reverse_append, dropWhile_append_of_head hhead hc, reverse_append,
    reverse_reverse]
  rfl

theorem trim_around (h : Tight drop ys) (hne : ys ≠ []) (front back : List α) :
    trim drop (front ++ (ys ++ back)) = front.dropWhile drop ++ (ys ++ back.rdropWhile drop) := by
  have hhead := head?_eq_some_head hne
  have hlast := getLast?_eq_some_getLast hne
  have hheads : (ys ++ back).head? = some (ys.head hne) := by
    rw [head?_append, hhead]
    rfl
  have hlasts : (front.dropWhile drop ++ ys).getLast? = some (ys.getLast hne) := by
    rw [getLast?_append, hlast]
    rfl
  rw [trim, dropWhile_append_of_head hheads (h.1 _ hhead), ← append_assoc,
    rdropWhile_append_of_last hlasts (h.2 _ hlast), append_assoc]

theorem infix_trim (h : Tight drop ys) (hbetween : ys <:+: xs) : ys <:+: trim drop xs := by
  by_cases hne : ys = []
  · rw [hne]
    exact nil_infix
  · obtain ⟨front, back, rfl⟩ := hbetween
    rw [append_assoc, trim_around h hne]
    exact ⟨_, _, by rw [append_assoc]⟩

/-- Trimming takes away all of what `drop` holds of around a list. -/
theorem trim_append {front back : List α} (hfront : ∀ c ∈ front, drop c = true)
    (hback : ∀ c ∈ back, drop c = true) (xs : List α) :
    trim drop (front ++ (xs ++ back)) = trim drop xs := by
  have hnone : front.dropWhile drop = [] := List.dropWhile_eq_nil_iff.mpr hfront
  have hdrop : ∀ ys : List α, (front ++ ys).dropWhile drop = ys.dropWhile drop := by
    intro ys
    rw [dropWhile_append, hnone]
    rfl
  have hnone' : back.reverse.dropWhile drop = [] :=
    List.dropWhile_eq_nil_iff.mpr fun c hc => hback c (List.mem_reverse.mp hc)
  rw [trim, hdrop, trim, dropWhile_append]
  split
  · rename_i hempty
    rw [List.isEmpty_iff.mp hempty, List.dropWhile_eq_nil_iff.mpr hback]
  · rw [List.rdropWhile, reverse_append, dropWhile_append, hnone']
    rfl

theorem map_trim {β : Type} (f : β → α) (xs : List β) :
    (trim (drop ∘ f) xs).map f = trim drop (xs.map f) := by
  rw [trim, trim, dropWhile_map, List.rdropWhile, List.rdropWhile, ← map_reverse,
    dropWhile_map, map_reverse]

theorem forall₂_dropWhile {β : Type} {R : α → β → Prop} {drop' : β → Bool}
    (hdrop : ∀ a b, R a b → drop a = drop' b) {ys : List β} (h : List.Forall₂ R xs ys) :
    List.Forall₂ R (xs.dropWhile drop) (ys.dropWhile drop') := by
  induction h with
  | nil => exact .nil
  | cons hhead htail ih =>
    rename_i a b as bs
    rw [dropWhile_cons, dropWhile_cons, hdrop a b hhead]
    split
    · exact ih
    · exact .cons hhead htail

theorem forall₂_trim {β : Type} {R : α → β → Prop} {drop' : β → Bool}
    (hdrop : ∀ a b, R a b → drop a = drop' b) {ys : List β} (h : List.Forall₂ R xs ys) :
    List.Forall₂ R (trim drop xs) (trim drop' ys) := by
  rw [trim, trim, List.rdropWhile, List.rdropWhile, List.forall₂_reverse_iff]
  apply forall₂_dropWhile hdrop
  rw [List.forall₂_reverse_iff]
  exact forall₂_dropWhile hdrop h

theorem intercalate_append (sep : List α) {xs ys : List (List α)} (hxs : xs ≠ []) (hys : ys ≠ []) :
    sep.intercalate (xs ++ ys) = sep.intercalate xs ++ sep ++ sep.intercalate ys := by
  induction xs with
  | nil => exact absurd rfl hxs
  | cons x rest ih =>
    by_cases hrest : rest = []
    · subst hrest
      rw [singleton_append, intercalate_cons_of_ne_nil hys, intercalate_singleton]
    · rw [cons_append, intercalate_cons_of_ne_nil (by simp [hrest]), ih hrest,
        intercalate_cons_of_ne_nil hrest]
      simp only [append_assoc]

theorem intercalate_eq_nil {sep : List α} {xs : List (List α)} (h : ∀ x ∈ xs, x ≠ []) :
    sep.intercalate xs = [] ↔ xs = [] := by
  cases xs with
  | nil => simp
  | cons x rest =>
    have hx : x ≠ [] := h x mem_cons_self
    cases rest with
    | nil => simp [hx]
    | cons y rest => simp [hx]

theorem tight_intercalate {sep : List α} {xs : List (List α)} (hne : ∀ x ∈ xs, x ≠ [])
    (h : ∀ x ∈ xs, Tight drop x) : Tight drop (sep.intercalate xs) := by
  induction xs with
  | nil => exact tight_nil
  | cons x rest ih =>
    have hx := h x mem_cons_self
    have hrest := ih (fun y hy => hne y (.tail x hy)) fun y hy => h y (.tail x hy)
    by_cases hempty : rest = []
    · subst hempty
      rwa [intercalate_singleton]
    · have hsome : sep.intercalate rest ≠ [] := by
        rw [ne_eq, intercalate_eq_nil fun y hy => hne y (.tail x hy)]
        exact hempty
      rw [intercalate_cons_of_ne_nil hempty, append_assoc]
      constructor
      · intro c hc
        rw [head?_append_of_ne_nil _ (hne x mem_cons_self)] at hc
        exact hx.1 c hc
      · intro c hc
        rw [getLast?_append_of_ne_nil _ (by simp [hsome]),
          getLast?_append_of_ne_nil _ hsome] at hc
        exact hrest.2 c hc

theorem intercalate_flatten [DecidableEq α] (sep : List α) {yss : List (List (List α))}
    (h : ∀ ys ∈ yss, ∀ y ∈ ys, y ≠ []) :
    sep.intercalate ((yss.map sep.intercalate).filter (· ≠ [])) = sep.intercalate yss.flatten := by
  induction yss with
  | nil => rfl
  | cons ys rest ih =>
    have hys := h ys mem_cons_self
    have hrest := ih fun zs hzs => h zs (.tail ys hzs)
    have hflat : ∀ y ∈ rest.flatten, y ≠ [] := by
      intro y hy
      obtain ⟨zs, hzs, hmem⟩ := List.mem_flatten.mp hy
      exact h zs (.tail ys hzs) y hmem
    rw [map_cons, flatten_cons]
    by_cases hnil : ys = []
    · subst hnil
      rw [filter_cons_of_neg (by simp), hrest, nil_append]
    · have hjoined : sep.intercalate ys ≠ [] := by rwa [ne_eq, intercalate_eq_nil hys]
      rw [filter_cons_of_pos (by simpa using hjoined)]
      by_cases hempty : rest.flatten = []
      · rw [hempty, intercalate_nil, intercalate_eq_nil] at hrest
        · rw [hrest, hempty, intercalate_singleton, append_nil]
        · intro x hx
          simpa using (List.mem_filter.mp hx).2
      · have hkept : (rest.map sep.intercalate).filter (· ≠ []) ≠ [] := by
          intro hnone
          rw [hnone, intercalate_nil, eq_comm, intercalate_eq_nil hflat] at hrest
          exact hempty hrest
        rw [intercalate_cons_of_ne_nil hkept, hrest, intercalate_append sep hnil hempty]

end Lib
