import Mathlib.Data.List.Sort
import Mathlib.Order.WithBot

/-!
# Reading page by page

A reader asks for one page after the other, each time for what comes after the last key it has seen, while the rows
change between its requests. Its pages are intervals of the keys, one after the other.
-/

namespace Lib

open List

variable {α κ ρ ε : Type} [LinearOrder κ] {key : α → κ} {rows : List α} {after : Option κ}

/-- `WHERE key > after ORDER BY key` -/
def following (key : α → κ) (rows : List α) (after : Option κ) : List α :=
  (rows.filter fun x => after.all (· < key x)).insertionSort fun x y => key x ≤ key y

/-- One row more than the page tells whether there is a next one. -/
def pageOf (key : α → κ) (limit : Nat) (fetched : List α) : List α × Option κ :=
  let page := fetched.take limit
  (page, if limit < fetched.length then page.getLast?.map key else none)

abbrev at' (k : κ) : WithTop (WithBot κ) := ↑(k : WithBot κ)

def beginsAt (after : Option κ) : WithTop (WithBot κ) := after.elim ↑(⊥ : WithBot κ) at'

def endsAt (next : Option κ) : WithTop (WithBot κ) := next.elim ⊤ at'

/-- What a reader gets, and how far it comes. A refused request leaves it where it is. -/
def readOn (ask : ρ → Option κ → Except ε (List α × Option κ)) : Option κ → List ρ → List α × WithTop (WithBot κ)
  | after, [] => ([], beginsAt after)
  | after, q :: qs =>
    match ask q after with
    | .error _ => readOn ask after qs
    | .ok (got, none) => (got, ⊤)
    | .ok (got, some k) => (got ++ (readOn ask (some k) qs).1, (readOn ask (some k) qs).2)

/-- The rows between two keys in their order, all those that are `always` there, and none that is not there `ever`. -/
structure Between (key : α → κ) (ever always : α → Prop) (p p' : WithTop (WithBot κ)) (got : List α) : Prop where
  le : p ≤ p'
  sorted : got.Pairwise (key · < key ·)
  mem : ∀ x ∈ got, ever x ∧ p < at' (key x) ∧ at' (key x) ≤ p'
  rest : ∀ x, always x → p < at' (key x) → at' (key x) ≤ p' → x ∈ got

variable {ever always ever' always' : α → Prop} {p p' p'' : WithTop (WithBot κ)} {got got' : List α}

theorem between_nil : Between key ever always p p [] :=
  ⟨le_rfl, .nil, nofun, fun _ _ hlt hle => absurd hle (not_le_of_gt hlt)⟩

theorem Between.imp (h : Between key ever always p p' got) (hever : ∀ x, ever x → ever' x)
    (halways : ∀ x, always' x → always x) : Between key ever' always' p p' got :=
  ⟨h.le, h.sorted, fun x hx => ⟨hever x (h.mem x hx).1, (h.mem x hx).2⟩, fun x hx => h.rest x (halways x hx)⟩

theorem Between.append (h : Between key ever always p p' got) (h' : Between key ever' always' p' p'' got') :
    Between key (fun x => ever x ∨ ever' x) (fun x => always x ∧ always' x) p p'' (got ++ got') where
  le := h.le.trans h'.le
  sorted := by
    refine pairwise_append.mpr ⟨h.sorted, h'.sorted, fun x hx y hy => ?_⟩
    exact_mod_cast lt_of_le_of_lt (h.mem x hx).2.2 (h'.mem y hy).2.1
  mem x hx := by
    rcases mem_append.mp hx with hx | hx
    · exact ⟨.inl (h.mem x hx).1, (h.mem x hx).2.1, (h.mem x hx).2.2.trans h'.le⟩
    · exact ⟨.inr (h'.mem x hx).1, lt_of_le_of_lt h.le (h'.mem x hx).2.1, (h'.mem x hx).2.2⟩
  rest x hx hlt hle := by
    rw [mem_append]
    rcases le_or_gt (at' (key x)) p' with hfirst | hlater
    · exact .inl (h.rest x hx.1 hlt hfirst)
    · exact .inr (h'.rest x hx.2 hlater hle)

theorem sorted_following (hkeys : (rows.map key).Nodup) : (following key rows after).Pairwise (key · < key ·) := by
  have htotal : Std.Total fun x y : α => key x ≤ key y := ⟨fun x y => le_total (key x) (key y)⟩
  have htrans : IsTrans α fun x y : α => key x ≤ key y := ⟨fun _ _ _ => le_trans⟩
  have hnodup : ((following key rows after).map key).Nodup :=
    ((perm_insertionSort _ _).map key).nodup_iff.mpr (hkeys.sublist (filter_sublist.map key))
  exact ((pairwise_insertionSort _ _).and (pairwise_map.mp hnodup)).imp fun h => lt_of_le_of_ne h.1 h.2

theorem between_pageOf {limit : Nat} (hlimit : 0 < limit) (hkeys : (rows.map key).Nodup) {next : Option κ}
    (hpage : pageOf key limit ((following key rows after).take (limit + 1)) = (got, next)) :
    Between key (· ∈ rows) (· ∈ rows) (beginsAt after) (endsAt next) got := by
  have hsorted : (following key rows after).Pairwise (key · < key ·) := sorted_following hkeys
  have hmem : ∀ x, x ∈ following key rows after ↔ x ∈ rows ∧ beginsAt after < at' (key x) := by
    intro x
    rw [following, mem_insertionSort, mem_filter]
    cases after with
    | none => exact and_congr_right fun _ => iff_of_true rfl (WithTop.coe_lt_coe.mpr (WithBot.bot_lt_coe _))
    | some k => simp [beginsAt]
  generalize following key rows after = all at hsorted hmem hpage
  rw [pageOf, take_take, Nat.min_eq_left (Nat.le_succ limit), length_take, Prod.mk.injEq] at hpage
  obtain ⟨rfl, rfl⟩ := hpage
  by_cases hlong : limit < all.length
  · have hne : all.take limit ≠ [] := ne_nil_of_length_pos (by rw [length_take]; omega)
    obtain ⟨front, last, hfront⟩ := (eq_nil_or_concat' _).resolve_left hne
    have hall : all = front ++ last :: all.drop limit := by simpa [hfront] using (take_append_drop limit all).symm
    rw [if_pos (by omega), hfront, getLast?_concat]
    generalize all.drop limit = later at hall
    subst hall
    obtain ⟨-, hcons, hcross⟩ := pairwise_append.mp hsorted
    have hlater := (pairwise_cons.mp hcons).1
    refine ⟨((hmem last).mp (by simp)).2.le, hsorted.sublist (by simp), fun x hx => ?_, fun x hx hlt hle => ?_⟩
    · have hx' := (hmem x).mp (by grind)
      have hle : key x ≤ key last := by grind
      exact ⟨hx'.1, hx'.2, by simpa [endsAt] using hle⟩
    · have hx' := (hmem x).mpr ⟨hx, hlt⟩
      have hout : x ∉ later := fun hx => absurd (hlater x hx) (not_lt_of_ge (by simpa [endsAt] using hle))
      simp_all
  · rw [if_neg (by omega), take_of_length_le (by omega)]
    exact ⟨le_top, hsorted, fun x hx => ⟨((hmem x).mp hx).1, ((hmem x).mp hx).2, le_top⟩,
      fun x hx hlt _ => (hmem x).mpr ⟨hx, hlt⟩⟩

theorem between_readOn {ask : ρ → Option κ → Except ε (List α × Option κ)} {table : ρ → List α} {qs : List ρ}
    (hask : ∀ q ∈ qs, ∀ after got next, ask q after = .ok (got, next) →
      Between key (· ∈ table q) (· ∈ table q) (beginsAt after) (endsAt next) got) :
    Between key (fun x => ∃ q ∈ qs, x ∈ table q) (fun x => ∀ q ∈ qs, x ∈ table q) (beginsAt after)
      (readOn ask after qs).2 (readOn ask after qs).1 := by
  induction qs generalizing after with
  | nil => exact between_nil
  | cons q qs ih =>
    have ih := fun {after} => @ih after fun q hq => hask q (mem_cons_of_mem _ hq)
    rw [readOn]
    split
    · exact ih.imp (by grind) (by grind)
    · rename_i hok
      exact (hask q mem_cons_self _ _ _ hok).imp (by grind) (by grind)
    · rename_i hok
      exact ((hask q mem_cons_self _ _ _ hok).append (@ih (some _))).imp (by grind) (by grind)

end Lib
