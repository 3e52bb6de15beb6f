import OpenAgent.Projection.Load

/-!
# Restoring the lists of a run

A list that was taken apart comes back whole when every piece names the place it was taken from and no
place is missing. The pieces of a message list carry their places, those of a tool list only their
order, since all that did not become a row was kept by its place.
-/

namespace OpenAgent.Projection

open List

variable {xs : List Json} {slots : List (Option Json)} {values : List (Nat × Json)}

def Fits (xs : List Json) (values : List (Nat × Json)) : Prop := ∀ e ∈ values, xs[e.1]? = some e.2

@[simp] theorem length_place (slots : List (Option Json)) (values : List (Nat × Json)) :
    (place slots values).length = slots.length := by
  induction values generalizing slots with
  | nil => rfl
  | cons e rest ih =>
    show (place (slots.set e.1 (some e.2)) rest).length = slots.length
    rw [ih, length_set]

theorem getElem?_place_of_not_mem {i : Nat} (h : ∀ e ∈ values, e.1 ≠ i) :
    (place slots values)[i]? = slots[i]? := by
  induction values generalizing slots with
  | nil => rfl
  | cons e rest ih =>
    show (place (slots.set e.1 (some e.2)) rest)[i]? = slots[i]?
    rw [ih fun e' he' => h e' (mem_cons_of_mem _ he')]
    exact getElem?_set_ne (h e mem_cons_self)

theorem getElem?_place {i : Nat} {x : Json} (hfits : Fits xs values) (hlt : i < slots.length)
    (hx : xs[i]? = some x) (h : slots[i]? = some (some x) ∨ (i, x) ∈ values) :
    (place slots values)[i]? = some (some x) := by
  induction values generalizing slots with
  | nil =>
    rcases h with hfilled | hmem
    · exact hfilled
    · cases hmem
  | cons e rest ih =>
    have hrest : Fits xs rest := fun e' he' => hfits e' (mem_cons_of_mem _ he')
    show (place (slots.set e.1 (some e.2)) rest)[i]? = some (some x)
    apply ih hrest (by rwa [length_set])
    by_cases hi : e.1 = i
    · subst hi
      have hvalue : e.2 = x := Option.some.inj ((hfits e mem_cons_self).symm.trans hx)
      rw [hvalue]
      exact .inl (getElem?_set_self hlt)
    · rw [getElem?_set_ne hi]
      refine h.imp id fun hmem => ?_
      rcases List.mem_cons.mp hmem with rfl | hmem
      · exact absurd rfl hi
      · exact hmem

theorem mapM_id_map_some (xs : List Json) : (xs.map some).mapM id = some xs := by
  induction xs with
  | nil => rfl
  | cons x rest ih =>
    rw [map_cons, mapM_cons, ih]
    rfl

/-! ### What a layout kept -/

def Labelled (xs : List Json) (fields : List (String × Json)) : Prop :=
  ∀ e ∈ fields, ∃ i : Nat, e.1 = toString i ∧ xs[i]? = some e.2

variable {fields : List (String × Json)}

theorem mapM_parseInt (h : Labelled xs fields) :
    ∃ kept, fields.mapM (fun e => (parseInt e.1).map fun n => (n, e.2)) = some kept ∧ Fits xs kept ∧
      ∀ i x, (toString i, x) ∈ fields → (i, x) ∈ kept := by
  induction fields with
  | nil => exact ⟨[], rfl, fun e he => absurd he not_mem_nil, fun i x hx => absurd hx not_mem_nil⟩
  | cons e rest ih =>
    obtain ⟨i, hlabel, hplace⟩ := h e mem_cons_self
    obtain ⟨kept, hmap, hfits, hcovers⟩ := ih fun e' he' => h e' (mem_cons_of_mem _ he')
    refine ⟨(i, e.2) :: kept, ?_, ?_, ?_⟩
    · rw [mapM_cons, hlabel, parseInt_toString, hmap]
      rfl
    · intro e' he'
      rcases List.mem_cons.mp he' with rfl | hmem
      · exact hplace
      · exact hfits e' hmem
    · intro j x hx
      rcases List.mem_cons.mp hx with heq | hmem
      · have hj : toString j = toString i := by
          rw [← hlabel, ← heq]
        have hji : j = i := by
          have hparse := parseInt_toString j
          rw [hj, parseInt_toString] at hparse
          exact (Option.some.inj hparse).symm
        subst hji
        have hx' : x = e.2 := by
          rw [← heq]
        rw [hx']
        exact mem_cons_self
      · exact mem_cons_of_mem _ (hcovers j x hmem)

theorem passthroughOf_eq {spec : Json}
    (h : spec.field "passthrough" = some (.obj fields)) :
    passthroughOf spec = fields.mapM fun e => (parseInt e.1).map fun n => (n, e.2) := by
  have hdict : spec.isDict = true := by
    cases spec with
    | obj _ => rfl
    | _ => cases h
  rw [passthroughOf, if_pos hdict, Json.get_of_field h]
  cases fields with
  | nil => rfl
  | cons e rest => rfl

theorem count_of_covered (hfits : Fits xs values) (hcovers : ∀ i x, xs[i]? = some x → (i, x) ∈ values) :
    values.foldr (fun e n => max (e.1 + 1) n) 0 = xs.length := by
  have hle : ∀ values : List (Nat × Json), Fits xs values →
      values.foldr (fun e n => max (e.1 + 1) n) 0 ≤ xs.length := by
    intro values hfits
    induction values with
    | nil => exact Nat.zero_le _
    | cons e rest ih =>
      obtain ⟨hlt, -⟩ := List.getElem?_eq_some_iff.mp (hfits e mem_cons_self)
      have hrest := ih fun e' he' => hfits e' (mem_cons_of_mem _ he')
      rw [foldr_cons]
      omega
  have hge : ∀ (values : List (Nat × Json)) (e : Nat × Json), e ∈ values →
      e.1 + 1 ≤ values.foldr (fun e n => max (e.1 + 1) n) 0 := by
    intro values e he
    induction values with
    | nil => cases he
    | cons e' rest ih =>
      rw [foldr_cons]
      rcases List.mem_cons.mp he with rfl | hmem
      · omega
      · have hrest := ih hmem
        omega
  apply Nat.le_antisymm (hle values hfits)
  cases hlen : xs.length with
  | zero => exact Nat.zero_le _
  | succ n =>
    have hlast : xs[n]? = some xs[n] := getElem?_eq_getElem (by omega)
    exact hge values _ (hcovers n _ hlast)

theorem restorePositioned_eq {spec : Json} {normalized : List (Nat × Json)}
    (hspec : spec.field "passthrough" = some (.obj fields)) (hlabelled : Labelled xs fields)
    (hfits : Fits xs normalized)
    (hcovers : ∀ i x, xs[i]? = some x → (toString i, x) ∈ fields ∨ (i, x) ∈ normalized) :
    restorePositioned spec normalized = some xs := by
  obtain ⟨kept, hmap, hkept, hkeptCovers⟩ := mapM_parseInt hlabelled
  have hall : Fits xs (kept ++ normalized) := by
    intro e he
    rcases List.mem_append.mp he with hmem | hmem
    · exact hkept e hmem
    · exact hfits e hmem
  have hcovered : ∀ i x, xs[i]? = some x → (i, x) ∈ kept ++ normalized := by
    intro i x hx
    rw [mem_append]
    exact (hcovers i x hx).imp (hkeptCovers i x) id
  have hcount := count_of_covered hall hcovered
  rw [restorePositioned, passthroughOf_eq hspec, hmap]
  simp only [Option.bind_eq_bind, Option.bind_some, hcount]
  have hwhole : place (place (List.replicate xs.length none) kept) normalized = xs.map some := by
    apply ext_getElem?
    intro i
    cases hx : xs[i]? with
    | none =>
      have hlen := List.getElem?_eq_none_iff.mp hx
      rw [getElem?_eq_none (by simpa using hlen), getElem?_map, hx]
      rfl
    | some x =>
      obtain ⟨hlt, -⟩ := List.getElem?_eq_some_iff.mp hx
      rw [getElem?_map, hx, Option.map_some]
      apply getElem?_place hfits (by simpa using hlt) hx
      rcases List.mem_append.mp (hcovered i x hx) with hmem | hmem
      · exact .inl (getElem?_place hkept (by simpa using hlt) hx (.inr hmem))
      · exact .inr hmem
  rw [hwhole]
  exact mapM_id_map_some xs

/-! ### Lists whose rows carry no place -/

/-- The entries of a list that satisfy `p`, with their places counted from `n`. -/
def keptFrom (p : Json → Bool) (xs : List Json) (n : Nat) : List (Nat × Json) :=
  (xs.zipIdx n).filterMap fun e => if p e.1 then some (e.2, e.1) else none

theorem passthrough_fields (p : Json → Bool) (xs : List Json) :
    ∃ fields, passthrough p xs = .obj fields ∧
      fields.mapM (fun e => (parseInt e.1).map fun n => (n, e.2)) = some (keptFrom p xs 0) := by
  refine ⟨_, rfl, ?_⟩
  show List.mapM _ ((xs.zipIdx 0).filterMap _) = some (keptFrom p xs 0)
  rw [keptFrom]
  generalize 0 = n
  induction xs generalizing n with
  | nil => rfl
  | cons x rest ih =>
    rw [zipIdx_cons, filterMap_cons, filterMap_cons]
    cases p x with
    | false => exact ih (n + 1)
    | true =>
      simp only [if_true]
      rw [mapM_cons, parseInt_toString, ih (n + 1)]
      rfl

theorem mem_keptFrom {p : Json → Bool} {n : Nat} {e : Nat × Json} :
    e ∈ keptFrom p xs n ↔ n ≤ e.1 ∧ xs[e.1 - n]? = some e.2 ∧ p e.2 = true := by
  rw [keptFrom, mem_filterMap]
  constructor
  · rintro ⟨⟨x, i⟩, hmem, hsome⟩
    obtain ⟨hle, hget⟩ := mk_mem_zipIdx_iff_le_and_getElem?_sub.mp hmem
    cases hp : p x with
    | false => simp [hp] at hsome
    | true =>
      simp only [hp, if_true, Option.some.injEq] at hsome
      subst hsome
      exact ⟨hle, hget, hp⟩
  · rintro ⟨hle, hget, hp⟩
    refine ⟨(e.2, e.1), mk_mem_zipIdx_iff_le_and_getElem?_sub.mpr ⟨hle, hget⟩, ?_⟩
    simp [hp]

theorem length_keptFrom (p : Json → Bool) (xs : List Json) (n : Nat) :
    (keptFrom p xs n).length = (xs.filter p).length := by
  induction xs generalizing n with
  | nil => rfl
  | cons x rest ih =>
    have hrest := ih (n + 1)
    rw [keptFrom] at hrest
    rw [keptFrom, zipIdx_cons, filterMap_cons, filter_cons]
    cases p x with
    | false => exact hrest
    | true =>
      simp only [if_true, length_cons]
      omega

theorem fill_map (p : Json → Bool) (xs : List Json) :
    fill (xs.map fun x => if p x then some x else none) (xs.filter fun x => !p x) = xs.map some := by
  induction xs with
  | nil => rfl
  | cons x rest ih =>
    rw [map_cons, filter_cons]
    cases hp : p x with
    | false => simpa [fill] using ih
    | true =>
      simp only [Bool.not_true, Bool.false_eq_true, if_false, if_true]
      cases hrest : rest.filter fun x => !p x with
      | nil =>
        rw [hrest] at ih
        cases hmap : rest.map fun x => if p x then some x else none with
        | nil =>
          rw [map_eq_nil_iff] at hmap
          rw [hmap]
          rfl
        | cons y ys =>
          rw [hmap] at ih
          rw [map_cons, ← ih]
          rfl
      | cons y ys =>
        rw [hrest] at ih
        rw [map_cons, ← ih]
        rfl

theorem restorePacked_eq {spec : Json} {p : Json → Bool}
    (hspec : spec.field "passthrough" = some (passthrough p xs)) :
    restorePacked spec (xs.filter fun x => !p x) = some xs := by
  obtain ⟨fields, hfields, hmap⟩ := passthrough_fields p xs
  rw [hfields] at hspec
  have hcount : (keptFrom p xs 0).length + (xs.filter fun x => !p x).length = xs.length := by
    rw [length_keptFrom]
    have hsplit := length_eq_length_filter_add p (l := xs)
    omega
  have hfits : Fits xs (keptFrom p xs 0) := by
    intro e he
    obtain ⟨-, hget, -⟩ := mem_keptFrom.mp he
    simpa using hget
  have hbounded : ((keptFrom p xs 0).all fun e => decide (e.1 < xs.length)) = true := by
    rw [all_eq_true]
    intro e he
    obtain ⟨hlt, -⟩ := List.getElem?_eq_some_iff.mp (hfits e he)
    exact decide_eq_true hlt
  have hplaced : place (List.replicate xs.length none) (keptFrom p xs 0)
      = xs.map fun x => if p x then some x else none := by
    apply ext_getElem?
    intro i
    rw [getElem?_map]
    cases hx : xs[i]? with
    | none =>
      have hlen := List.getElem?_eq_none_iff.mp hx
      rw [getElem?_eq_none (by simpa using hlen)]
      rfl
    | some x =>
      obtain ⟨hlt, -⟩ := List.getElem?_eq_some_iff.mp hx
      cases hp : p x with
      | true =>
        rw [getElem?_place hfits (by simpa using hlt) hx (.inr (mem_keptFrom.mpr ⟨by omega, by simpa using hx, hp⟩))]
        simp [hp]
      | false =>
        have hfree : ∀ e ∈ keptFrom p xs 0, e.1 ≠ i := by
          intro e he hei
          obtain ⟨-, hget, hkept⟩ := mem_keptFrom.mp he
          rw [Nat.sub_zero, hei, hx, Option.some.injEq] at hget
          simp [← hget, hp] at hkept
        rw [getElem?_place_of_not_mem hfree, getElem?_replicate, if_pos hlt]
        simp [hp]
  rw [restorePacked, passthroughOf_eq hspec, hmap]
  simp only [Option.bind_eq_bind, Option.bind_some, hcount, hbounded, if_true, hplaced, fill_map]
  exact mapM_id_map_some xs

end OpenAgent.Projection
