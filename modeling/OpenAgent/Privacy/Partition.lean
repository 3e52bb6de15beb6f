import Mathlib.Data.List.Dedup
import Mathlib.Data.List.Pairwise
import OpenAgent.Privacy.Fragments

/-!
# Exact partitions of a result

What a valid classification of a tool result is, in terms of the result alone: its leaves are its
scalars and its empty containers, a string being opened only where a declared path goes on behind it,
and the declared paths partition them. The walk finds out whether every leaf is covered, and the
selectors whether every path leads somewhere. They are one thing apart: a selector may step into a
string with an index, and then it has selected a character, which is no part of the result.
-/

namespace OpenAgent.Privacy

open List

variable {loads : String → Option Json}

/-! ### Reading along a path -/

/-- `w` is what a path leads to from `v`; with `chars`, an index into a string leads to a character. -/
inductive Reads (loads : String → Option Json) (chars : Bool) : Json → List PathComponent → Json → Prop
  | here (v : Json) : Reads loads chars v [] v
  | key {fields : List (String × Json)} {name : String} {child w : Json} {rest : List PathComponent}
      (hchild : (Json.obj fields).field name = some child) (hrest : Reads loads chars child rest w) :
      Reads loads chars (.obj fields) (.key name :: rest) w
  | index {items : List Json} {i : Nat} {child w : Json} {rest : List PathComponent}
      (hchild : items[i]? = some child) (hrest : Reads loads chars child rest w) :
      Reads loads chars (.arr items) (.index i :: rest) w
  | decoded {text : String} {inner w : Json} {rest : List PathComponent}
      (hinner : decodeFragmentJson loads (.str text) = .ok inner) (hrest : Reads loads chars inner rest w) :
      Reads loads chars (.str text) (.decodeJson :: rest) w
  | character {text : String} {i : Nat} {c : Char} {w : Json} {rest : List PathComponent}
      (hchars : chars = true) (hc : text.toList[i]? = some c)
      (hrest : Reads loads chars (.str (String.ofList [c])) rest w) :
      Reads loads chars (.str text) (.index i :: rest) w

def IndexesString (loads : String → Option Json) (v : Json) (path : List PathComponent) : Prop :=
  ∃ front i back text, path = front ++ .index i :: back ∧ Reads loads false v front (.str text)

theorem select_ok {v w : Json} {path : List PathComponent} :
    select loads v path = .ok w ↔ Reads loads true v path w := by
  constructor
  · induction path generalizing v with
    | nil =>
      intro h
      obtain rfl := Except.ok.inj h
      exact .here v
    | cons component rest ih =>
      intro h
      rw [select] at h
      split at h
      · cases h
      rename_i child hchild
      cases component with
      | decodeJson =>
        cases v with
        | str text => exact .decoded hchild (ih h)
        | _ => cases hchild
      | key name =>
        cases v with
        | obj fields =>
          simp only [selectComponent, subscript] at hchild
          split at hchild
          · rename_i child' hfield
            cases hchild
            exact .key hfield (ih h)
          · cases hchild
        | _ => cases hchild
      | index i =>
        cases v with
        | arr items =>
          simp only [selectComponent, subscript] at hchild
          split at hchild
          · rename_i child' hitem
            cases hchild
            exact .index hitem (ih h)
          · cases hchild
        | str text =>
          simp only [selectComponent, subscript] at hchild
          split at hchild
          · rename_i child' hsome
            cases hchild
            obtain ⟨c, hc, rfl⟩ := Option.map_eq_some_iff.mp hsome
            exact .character rfl hc (ih h)
          · cases hchild
        | _ => cases hchild
  · intro h
    induction h with
    | here v => rfl
    | key hchild hrest ih => simp [select, selectComponent, subscript, hchild, ih]
    | index hchild hrest ih => simp [select, selectComponent, subscript, hchild, ih]
    | decoded hinner hrest ih => simp [select, selectComponent, hinner, ih]
    | character hchars hc hrest ih =>
      simp only [select, selectComponent, subscript, hc, Option.map_some]
      exact ih

namespace Reads

variable {chars : Bool}

variable {path : List PathComponent}

theorem lax {v w : Json} (h : Reads loads false v path w) :
    Reads loads true v path w := by
  induction h with
  | here v => exact .here v
  | key hchild hrest ih => exact .key hchild ih
  | index hchild hrest ih => exact .index hchild ih
  | decoded hinner hrest ih => exact .decoded hinner ih
  | character hchars hc hrest ih => exact absurd hchars Bool.false_ne_true

theorem front {v w : Json} {front back : List PathComponent}
    (h : Reads loads chars v (front ++ back) w) :
    ∃ u, Reads loads chars v front u ∧ Reads loads chars u back w := by
  induction front generalizing v with
  | nil => exact ⟨v, .here v, h⟩
  | cons component front ih =>
    cases h with
    | key hchild hrest =>
      obtain ⟨u, hu, hback⟩ := ih hrest
      exact ⟨u, .key hchild hu, hback⟩
    | index hchild hrest =>
      obtain ⟨u, hu, hback⟩ := ih hrest
      exact ⟨u, .index hchild hu, hback⟩
    | decoded hinner hrest =>
      obtain ⟨u, hu, hback⟩ := ih hrest
      exact ⟨u, .decoded hinner hu, hback⟩
    | character hchars hc hrest =>
      obtain ⟨u, hu, hback⟩ := ih hrest
      exact ⟨u, .character hchars hc hu, hback⟩

theorem unique {v w w' : Json} (h : Reads loads chars v path w)
    (h' : Reads loads chars v path w') : w = w' := by
  induction h with
  | here v =>
    cases h' with
    | here => rfl
  | key hchild hrest ih =>
    cases h' with
    | key hchild' hrest' =>
      cases hchild.symm.trans hchild'
      exact ih hrest'
  | index hchild hrest ih =>
    cases h' with
    | index hchild' hrest' =>
      cases hchild.symm.trans hchild'
      exact ih hrest'
  | decoded hinner hrest ih =>
    cases h' with
    | decoded hinner' hrest' =>
      cases hinner.symm.trans hinner'
      exact ih hrest'
  | character hchars hc hrest ih =>
    cases h' with
    | character hchars' hc' hrest' =>
      cases hc.symm.trans hc'
      exact ih hrest'

theorem strict_or_indexes {v w : Json} (h : Reads loads true v path w) :
    Reads loads false v path w ∨ IndexesString loads v path := by
  induction h with
  | here v => exact .inl (.here v)
  | key hchild hrest ih =>
    rcases ih with hstrict | ⟨front, i, back, text, rfl, hfront⟩
    · exact .inl (.key hchild hstrict)
    · exact .inr ⟨_ :: front, i, back, text, rfl, .key hchild hfront⟩
  | index hchild hrest ih =>
    rcases ih with hstrict | ⟨front, i, back, text, rfl, hfront⟩
    · exact .inl (.index hchild hstrict)
    · exact .inr ⟨_ :: front, i, back, text, rfl, .index hchild hfront⟩
  | decoded hinner hrest ih =>
    rcases ih with hstrict | ⟨front, i, back, text, rfl, hfront⟩
    · exact .inl (.decoded hinner hstrict)
    · exact .inr ⟨_ :: front, i, back, text, rfl, .decoded hinner hfront⟩
  | @character text i c w rest hchars hc hrest ih => exact .inr ⟨[], i, rest, text, rfl, .here _⟩

end Reads

theorem IndexesString.not_reads {v w : Json} {path : List PathComponent}
    (h : IndexesString loads v path) : ¬ Reads loads false v path w := by
  intro hreads
  obtain ⟨front, i, back, text, rfl, hfront⟩ := h
  obtain ⟨u, hu, hback⟩ := hreads.front
  obtain rfl := hfront.unique hu
  cases hback with
  | character hchars => exact absurd hchars Bool.false_ne_true

/-! ### Leaves -/

/-- A leaf of the value at the place `base`, by its path from there. -/
inductive Leaf (loads : String → Option Json) (paths : List (List PathComponent)) :
    (base : List PathComponent) → Json → List PathComponent → Prop
  | null {base : List PathComponent} : Leaf loads paths base .null []
  | bool {base : List PathComponent} {b : Bool} : Leaf loads paths base (.bool b) []
  | num {base : List PathComponent} {n : ℚ} : Leaf loads paths base (.num n) []
  | text {base : List PathComponent} {text : String}
      (hclosed : ¬ ∃ candidate ∈ paths, base ++ [.decodeJson] <+: candidate) :
      Leaf loads paths base (.str text) []
  | emptyObject {base : List PathComponent} : Leaf loads paths base (.obj []) []
  | emptyArray {base : List PathComponent} : Leaf loads paths base (.arr []) []
  | decoded {base rest : List PathComponent} {text : String} {inner : Json}
      (hopen : ∃ candidate ∈ paths, base ++ [.decodeJson] <+: candidate)
      (hinner : decodeFragmentJson loads (.str text) = .ok inner)
      (hrest : Leaf loads paths (base ++ [.decodeJson]) inner rest) :
      Leaf loads paths base (.str text) (.decodeJson :: rest)
  | member {base rest : List PathComponent} {fields : List (String × Json)} {name : String} {child : Json}
      (hchild : (Json.obj fields).field name = some child)
      (hrest : Leaf loads paths (base ++ [.key name]) child rest) :
      Leaf loads paths base (.obj fields) (.key name :: rest)
  | item {base rest : List PathComponent} {items : List Json} {i : Nat} {child : Json}
      (hchild : items[i]? = some child) (hrest : Leaf loads paths (base ++ [.index i]) child rest) :
      Leaf loads paths base (.arr items) (.index i :: rest)

/-- The paths are an exact partition of the leaves of the value: each leaf lies in exactly one part,
and no part is empty. -/
structure Partitions (loads : String → Option Json) (fragments : List ContentFragment) (v : Json) : Prop where
  exact : ∀ leaf, Leaf loads (fragments.map ContentFragment.path) [] v leaf →
    ∃! f, f ∈ fragments ∧ f.path <+: leaf
  inhabited : ∀ f ∈ fragments, ∃ leaf,
    Leaf loads (fragments.map ContentFragment.path) [] v leaf ∧ f.path <+: leaf

section

variable {paths : List (List PathComponent)}

theorem Leaf.reads {base leaf : List PathComponent} {v : Json} (h : Leaf loads paths base v leaf) :
    ∃ w, Reads loads false v leaf w := by
  induction h with
  | null | bool | num | text | emptyObject | emptyArray => exact ⟨_, .here _⟩
  | decoded hopen hinner hrest ih =>
    obtain ⟨w, hw⟩ := ih
    exact ⟨w, .decoded hinner hw⟩
  | member hchild hrest ih =>
    obtain ⟨w, hw⟩ := ih
    exact ⟨w, .key hchild hw⟩
  | item hchild hrest ih =>
    obtain ⟨w, hw⟩ := ih
    exact ⟨w, .index hchild hw⟩

theorem exists_leaf (base : List PathComponent) (v : Json)
    (hclosed : ∀ candidate ∈ paths, base <+: candidate → candidate = base) :
    ∃ leaf, Leaf loads paths base v leaf := by
  have hdeeper : ∀ component, ∀ candidate ∈ paths, ¬ base ++ [component] <+: candidate := by
    intro component candidate hmem hbegin
    obtain rfl := hclosed candidate hmem ((prefix_append _ _).trans hbegin)
    have hlength := hbegin.length_le
    rw [length_append, length_singleton] at hlength
    omega
  match v with
  | .null => exact ⟨[], .null⟩
  | .bool b => exact ⟨[], .bool⟩
  | .num n => exact ⟨[], .num⟩
  | .str text =>
    refine ⟨[], .text ?_⟩
    rintro ⟨candidate, hmem, hbegin⟩
    exact hdeeper _ candidate hmem hbegin
  | .obj [] => exact ⟨[], .emptyObject⟩
  | .arr [] => exact ⟨[], .emptyArray⟩
  | .obj ((name, child) :: fields) =>
    have hchild : (Json.obj ((name, child) :: fields)).field name = some child := by
      simp [Json.field]
    obtain ⟨leaf, hleaf⟩ := exists_leaf (base ++ [.key name]) child fun candidate hmem hbegin =>
      absurd hbegin (hdeeper _ candidate hmem)
    exact ⟨.key name :: leaf, .member hchild hleaf⟩
  | .arr (child :: items) =>
    obtain ⟨leaf, hleaf⟩ := exists_leaf (base ++ [.index 0]) child fun candidate hmem hbegin =>
      absurd hbegin (hdeeper _ candidate hmem)
    exact ⟨.index 0 :: leaf, .item rfl hleaf⟩
termination_by sizeOf v

theorem Reads.exists_leaf {v w : Json} {front base : List PathComponent}
    (h : Reads loads false v front w) (hmem : base ++ front ∈ paths)
    (hclosed : ∀ candidate ∈ paths, base ++ front <+: candidate → candidate = base ++ front) :
    ∃ leaf, Leaf loads paths base v leaf ∧ front <+: leaf := by
  induction front generalizing base v with
  | nil =>
    rw [append_nil] at hclosed
    obtain ⟨leaf, hleaf⟩ := @Privacy.exists_leaf loads paths base v hclosed
    exact ⟨leaf, hleaf, nil_prefix⟩
  | cons component front ih =>
    have happend : base ++ component :: front = (base ++ [component]) ++ front := by simp
    rw [happend] at hmem hclosed
    cases h with
    | key hchild hrest =>
      obtain ⟨leaf, hleaf, hbegin⟩ := ih hrest hmem hclosed
      exact ⟨_ :: leaf, .member hchild hleaf, List.cons_prefix_cons.mpr ⟨rfl, hbegin⟩⟩
    | index hchild hrest =>
      obtain ⟨leaf, hleaf, hbegin⟩ := ih hrest hmem hclosed
      exact ⟨_ :: leaf, .item hchild hleaf, List.cons_prefix_cons.mpr ⟨rfl, hbegin⟩⟩
    | decoded hinner hrest =>
      obtain ⟨leaf, hleaf, hbegin⟩ := ih hrest hmem hclosed
      have hopen : ∃ candidate ∈ paths, base ++ [.decodeJson] <+: candidate :=
        ⟨_, hmem, prefix_append _ _⟩
      exact ⟨_ :: leaf, .decoded hopen hinner hleaf, List.cons_prefix_cons.mpr ⟨rfl, hbegin⟩⟩
    | character hchars => exact absurd hchars Bool.false_ne_true

/-! ### The walk -/

theorem walkAll_ok {α : Type} {check : α → Except StoreError Unit} {items : List α} :
    walkAll check items = .ok () ↔ ∀ item ∈ items, check item = .ok () := by
  induction items with
  | nil => simp [walkAll]
  | cons item rest ih =>
    rw [walkAll, forall_mem_cons, ← ih]
    cases check item with
    | error e => simp
    | ok u => simp

theorem mem_dictionaryItems {fields : List (String × Json)} {name : String} {child : Json} :
    (name, child) ∈ dictionaryItems fields ↔ (Json.obj fields).field name = some child := by
  simp only [dictionaryItems, mem_filterMap, mem_dedup, mem_map, Option.map_eq_some_iff]
  constructor
  · rintro ⟨_, -, value, hvalue, hpair⟩
    cases hpair
    exact hvalue
  · intro hfield
    obtain ⟨f, hf, rfl⟩ := Option.map_eq_some_iff.mp hfield
    have hname : f.1 = name := by simpa using find?_some hf
    exact ⟨name, ⟨f, mem_of_find?_eq_some hf, hname⟩, f.2, hfield, rfl⟩

/-- Every leaf from `base` on is covered by a path. -/
def Covered (loads : String → Option Json) (paths : List (List PathComponent))
    (base : List PathComponent) (v : Json) : Prop :=
  ∀ leaf, Leaf loads paths base v leaf → ∃ candidate ∈ paths, candidate <+: base ++ leaf

/-- What the walk relies on at the place `base`: no path has ended before it, and those that go on
lead somewhere. -/
structure Arrived (loads : String → Option Json) (paths : List (List PathComponent))
    (base : List PathComponent) (v : Json) : Prop where
  first : ∀ candidate ∈ paths, candidate <+: base → candidate = base
  selects : ∀ rest, base ++ rest ∈ paths → ∃ w, Reads loads true v rest w

variable {base : List PathComponent}

theorem Arrived.not_covered {v : Json} (h : Arrived loads paths base v)
    (hbase : base ∉ paths) (hleaf : Leaf loads paths base v []) : ¬ Covered loads paths base v := by
  intro hcovered
  obtain ⟨candidate, hmem, hbegin⟩ := hcovered [] hleaf
  rw [append_nil] at hbegin
  rw [h.first candidate hmem hbegin] at hmem
  exact hbase hmem

theorem Arrived.child {v child : Json} {component : PathComponent}
    (h : Arrived loads paths base v) (hbase : base ∉ paths)
    (hchild : ∀ rest w, Reads loads true v (component :: rest) w → Reads loads true child rest w) :
    Arrived loads paths (base ++ [component]) child where
  first candidate hmem hbegin := by
    rcases List.prefix_concat_iff.mp hbegin with heq | hshort
    · exact heq
    · rw [h.first candidate hmem hshort] at hmem
      exact absurd hmem hbase
  selects rest hmem := by
    rw [append_assoc, singleton_append] at hmem
    obtain ⟨w, hw⟩ := h.selects _ hmem
    exact ⟨w, hchild rest w hw⟩

theorem walk_ok {depth : Nat} {v : Json}
    (hbounded : ∀ candidate ∈ paths, candidate.length ≤ 64) (hdepth : 65 ≤ depth + base.length)
    (h : Arrived loads paths base v) :
    walk loads paths depth v base = .ok () ↔ Covered loads paths base v := by
  induction depth generalizing v base with
  | zero =>
    rw [walk]
    refine iff_of_false (by simp) ?_
    intro hcovered
    have hclosed : ∀ candidate ∈ paths, base <+: candidate → candidate = base := by
      intro candidate hmem hbegin
      have hlength := hbegin.length_le
      have hshort := hbounded candidate hmem
      omega
    obtain ⟨leaf, hleaf⟩ := @exists_leaf loads paths base v hclosed
    obtain ⟨candidate, hmem, hbegin⟩ := hcovered leaf hleaf
    have hshort := hbounded candidate hmem
    have hbefore : candidate <+: base :=
      prefix_of_prefix_length_le hbegin (prefix_append _ _) (by omega)
    rw [h.first candidate hmem hbefore] at hshort
    omega
  | succ depth ih =>
    have hdeeper : ∀ component, 65 ≤ depth + (base ++ [component]).length := by
      intro component
      rw [length_append, length_singleton]
      omega
    rw [walk.eq_def]
    dsimp only
    by_cases hbase : base ∈ paths
    · rw [if_pos hbase]
      exact iff_of_true rfl fun leaf _ => ⟨base, hbase, prefix_append _ _⟩
    rw [if_neg hbase]
    cases v with
    | null => exact iff_of_false (by simp) (h.not_covered hbase .null)
    | bool b => exact iff_of_false (by simp) (h.not_covered hbase .bool)
    | num n => exact iff_of_false (by simp) (h.not_covered hbase .num)
    | str text =>
      by_cases hopen : ∃ candidate ∈ paths, base ++ [.decodeJson] <+: candidate
      · simp only [hopen, if_true]
        obtain ⟨candidate, hmem, rest, rfl⟩ := hopen
        have hgoes : base ++ .decodeJson :: rest ∈ paths := by simpa using hmem
        obtain ⟨w, hw⟩ := h.selects _ hgoes
        cases hw with
        | @decoded _ inner _ _ hinner hrest =>
          rw [hinner]
          refine (ih (hdeeper _) (h.child hbase ?_)).trans ?_
          · intro rest w hreads
            cases hreads with
            | decoded hinner' hrest' =>
              cases hinner.symm.trans hinner'
              exact hrest'
          · constructor
            · intro hcovered leaf hleaf
              cases hleaf with
              | text hclosed => exact absurd ⟨_, hmem, prefix_append _ _⟩ hclosed
              | @decoded _ leaf _ inner' _ hinner' hrest' =>
                cases hinner.symm.trans hinner'
                obtain ⟨candidate, hcandidate, hbegin⟩ := hcovered leaf hrest'
                exact ⟨candidate, hcandidate, by simpa using hbegin⟩
            · intro hcovered leaf hleaf
              obtain ⟨candidate, hcandidate, hbegin⟩ := hcovered _
                (.decoded ⟨_, hmem, prefix_append _ _⟩ hinner hleaf)
              exact ⟨candidate, hcandidate, by simpa using hbegin⟩
      · simp only [hopen, if_false]
        exact iff_of_false (by simp) (h.not_covered hbase (.text hopen))
    | obj fields =>
      cases fields with
      | nil => exact iff_of_false (by simp) (h.not_covered hbase .emptyObject)
      | cons first others =>
        simp only [walkAll_ok, Prod.forall, mem_dictionaryItems]
        have hmember : ∀ name child, (Json.obj (first :: others)).field name = some child →
            (walk loads paths depth child (base ++ [.key name]) = .ok () ↔
              Covered loads paths (base ++ [.key name]) child) := by
          intro name child hchild
          refine ih (hdeeper _) (h.child hbase ?_)
          intro rest w hreads
          cases hreads with
          | key hchild' hrest =>
            cases hchild.symm.trans hchild'
            exact hrest
        constructor
        · intro hall leaf hleaf
          cases hleaf with
          | @member _ leaf _ name child hchild hrest =>
            obtain ⟨candidate, hmem, hbegin⟩ :=
              (hmember name child hchild).mp (hall name child hchild) leaf hrest
            exact ⟨candidate, hmem, by simpa using hbegin⟩
        · intro hcovered name child hchild
          refine (hmember name child hchild).mpr ?_
          intro leaf hleaf
          obtain ⟨candidate, hmem, hbegin⟩ := hcovered _ (.member hchild hleaf)
          exact ⟨candidate, hmem, by simpa using hbegin⟩
    | arr items =>
      cases items with
      | nil => exact iff_of_false (by simp) (h.not_covered hbase .emptyArray)
      | cons first others =>
        simp only [walkAll_ok, Prod.forall, mem_zipIdx_iff_getElem?]
        have hitem : ∀ child i, (first :: others)[i]? = some child →
            (walk loads paths depth child (base ++ [.index i]) = .ok () ↔
              Covered loads paths (base ++ [.index i]) child) := by
          intro child i hchild
          refine ih (hdeeper _) (h.child hbase ?_)
          intro rest w hreads
          cases hreads with
          | index hchild' hrest =>
            cases hchild.symm.trans hchild'
            exact hrest
        constructor
        · intro hall leaf hleaf
          cases hleaf with
          | @item _ leaf _ i child hchild hrest =>
            obtain ⟨candidate, hmem, hbegin⟩ :=
              (hitem child i hchild).mp (hall child i hchild) leaf hrest
            exact ⟨candidate, hmem, by simpa using hbegin⟩
        · intro hcovered child i hchild
          refine (hitem child i hchild).mpr ?_
          intro leaf hleaf
          obtain ⟨candidate, hmem, hbegin⟩ := hcovered _ (.item hchild hleaf)
          exact ⟨candidate, hmem, by simpa using hbegin⟩

end

/-! ### Acceptance -/

theorem checkFragments_ok {result : Json} {tenantId : String} {fragments : List ContentFragment} :
    checkFragments loads result tenantId fragments = .ok () ↔
      ∀ f ∈ fragments, (∃ w, Reads loads true result f.path w) ∧ ContentFragment.within f tenantId := by
  induction fragments with
  | nil => simp [checkFragments]
  | cons f rest ih =>
    rw [checkFragments, forall_mem_cons, ← ih]
    simp only [← select_ok]
    cases select loads result f.path with
    | error e => simp
    | ok w => by_cases hwithin : ContentFragment.within f tenantId <;> simp [hwithin]

theorem fragment_unique (provenance : ToolResultProvenance) {f g : ContentFragment}
    (hf : f ∈ provenance.fragments) (hg : g ∈ provenance.fragments)
    (h : f.path <+: g.path ∨ g.path <+: f.path) : f = g := by
  by_contra hne
  have hsymm : Std.Symm fun f g : ContentFragment => ¬ f.path <+: g.path ∧ ¬ g.path <+: f.path :=
    ⟨fun _ _ h => ⟨h.2, h.1⟩⟩
  obtain ⟨hfg, hgf⟩ := provenance.disjoint.forall hf hg hne
  rcases h with hbegin | hbegin
  · exact hfg hbegin
  · exact hgf hbegin

theorem validateResult_ok {provenance : ToolResultProvenance} {result : Json} {tenantId : String} :
    validateResult loads provenance result tenantId = .ok () ↔
      (∀ f ∈ provenance.fragments, ∃ w, Reads loads true result f.path w) ∧
      (∀ f ∈ provenance.fragments, ContentFragment.within f tenantId) ∧
      Covered loads (provenance.fragments.map ContentFragment.path) [] result := by
  have hbounded : ∀ candidate ∈ provenance.fragments.map ContentFragment.path, candidate.length ≤ 64 := by
    intro candidate hmem
    obtain ⟨f, -, rfl⟩ := List.mem_map.mp hmem
    exact f.bounded.1
  have hsplit : checkFragments loads result tenantId provenance.fragments = .ok () ↔
      ∀ f ∈ provenance.fragments, (∃ w, Reads loads true result f.path w) ∧
        ContentFragment.within f tenantId := checkFragments_ok
  rw [validateResult]
  cases hcheck : checkFragments loads result tenantId provenance.fragments with
  | error e =>
    refine iff_of_false (by simp) ?_
    rintro ⟨hselects, hwithin, -⟩
    have hok := hsplit.mpr fun f hf => ⟨hselects f hf, hwithin f hf⟩
    simp [hcheck] at hok
  | ok u =>
    have hall := hsplit.mp hcheck
    have harrived : Arrived loads (provenance.fragments.map ContentFragment.path) [] result := by
      refine ⟨fun candidate _ hbegin => List.prefix_nil.mp hbegin, ?_⟩
      intro rest hmem
      obtain ⟨f, hf, hpath⟩ := List.mem_map.mp hmem
      obtain ⟨w, hw⟩ := (hall f hf).1
      rw [hpath] at hw
      exact ⟨w, hw⟩
    refine (walk_ok hbounded (by simp) harrived).trans ?_
    constructor
    · exact fun hcovered => ⟨fun f hf => (hall f hf).1, fun f hf => (hall f hf).2, hcovered⟩
    · exact fun h => h.2.2

/-- A classification is an exact partition when its paths lead to parts of the value and cover its
leaves; that no two of them overlap is part of its type. -/
theorem partitions_iff {provenance : ToolResultProvenance} {v : Json} :
    Partitions loads provenance.fragments v ↔
      (∀ f ∈ provenance.fragments, ∃ w, Reads loads false v f.path w) ∧
      Covered loads (provenance.fragments.map ContentFragment.path) [] v := by
  constructor
  · intro h
    refine ⟨?_, ?_⟩
    · intro f hf
      obtain ⟨_, hleaf, back, rfl⟩ := h.inhabited f hf
      obtain ⟨w, hw⟩ := hleaf.reads
      obtain ⟨u, hu, -⟩ := hw.front
      exact ⟨u, hu⟩
    · intro leaf hleaf
      obtain ⟨f, ⟨hf, hbegin⟩, -⟩ := h.exact leaf hleaf
      exact ⟨f.path, mem_map_of_mem hf, hbegin⟩
  · rintro ⟨hreads, hcovered⟩
    refine ⟨?_, ?_⟩
    · intro leaf hleaf
      obtain ⟨candidate, hmem, hbegin⟩ := hcovered leaf hleaf
      obtain ⟨f, hf, rfl⟩ := List.mem_map.mp hmem
      refine ⟨f, ⟨hf, hbegin⟩, ?_⟩
      rintro g ⟨hg, hgprefix⟩
      exact fragment_unique provenance hg hf (List.prefix_or_prefix_of_prefix hgprefix hbegin)
    · intro f hf
      obtain ⟨w, hw⟩ := hreads f hf
      have hpath : [] ++ f.path ∈ provenance.fragments.map ContentFragment.path := mem_map_of_mem hf
      refine hw.exists_leaf hpath ?_
      intro candidate hmem hbegin
      obtain ⟨g, hg, rfl⟩ := List.mem_map.mp hmem
      rw [fragment_unique provenance hf hg (.inl hbegin), nil_append]

/-- A validation accepts exactly the exact partitions within the tenant, unless a path steps into a
string with an index while everything else is in order: each path selects something, every leaf is
covered and every origin is of the tenant. -/
theorem validation_is_exact_unless_a_string_is_indexed (loads : String → Option Json)
    (provenance : ToolResultProvenance) (result : Json) (tenantId : String) :
    (validateResult loads provenance result tenantId = .ok () ↔
      Partitions loads provenance.fragments result ∧
        ∀ f ∈ provenance.fragments, ∀ origin ∈ f.origins, origin.tenantId = tenantId) ↔
    ¬ ((∃ f ∈ provenance.fragments, IndexesString loads result f.path) ∧
      (∀ f ∈ provenance.fragments, ∃ w, Reads loads true result f.path w) ∧
      (∀ leaf, Leaf loads (provenance.fragments.map ContentFragment.path) [] result leaf →
        ∃ f ∈ provenance.fragments, f.path <+: leaf) ∧
      ∀ f ∈ provenance.fragments, ∀ origin ∈ f.origins, origin.tenantId = tenantId) := by
  have hcovered : Covered loads (provenance.fragments.map ContentFragment.path) [] result ↔
      ∀ leaf, Leaf loads (provenance.fragments.map ContentFragment.path) [] result leaf →
        ∃ f ∈ provenance.fragments, f.path <+: leaf := by
    simp [Covered]
  have hstrict : (∀ f ∈ provenance.fragments, ∃ w, Reads loads false result f.path w) ↔
      (∀ f ∈ provenance.fragments, ∃ w, Reads loads true result f.path w) ∧
        ¬ ∃ f ∈ provenance.fragments, IndexesString loads result f.path := by
    constructor
    · intro h
      refine ⟨fun f hf => ?_, ?_⟩
      · obtain ⟨w, hw⟩ := h f hf
        exact ⟨w, hw.lax⟩
      · rintro ⟨f, hf, hindexes⟩
        obtain ⟨w, hw⟩ := h f hf
        exact hindexes.not_reads hw
    · rintro ⟨h, hnone⟩ f hf
      obtain ⟨w, hw⟩ := h f hf
      rcases hw.strict_or_indexes with hreads | hindexes
      · exact ⟨w, hreads⟩
      · exact absurd ⟨f, hf, hindexes⟩ hnone
  rw [validateResult_ok, partitions_iff, hstrict, hcovered]
  simp only [ContentFragment.within]
  constructor
  · rintro h ⟨hindexes, hselects, hcovers, hwithin⟩
    exact (h.mp ⟨hselects, hwithin, hcovers⟩).1.1.2 hindexes
  · intro h
    constructor
    · rintro ⟨hselects, hwithin, hcovers⟩
      exact ⟨⟨⟨hselects, fun hindexes => h ⟨hindexes, hselects, hcovers, hwithin⟩⟩, hcovers⟩, hwithin⟩
    · rintro ⟨⟨⟨hselects, -⟩, hcovers⟩, hwithin⟩
      exact ⟨hselects, hwithin, hcovers⟩

namespace Sample

def loadsQuoted (text : String) : Option Json := if text = "\"x\"" then some (.str "x") else none

def overread : ToolResultProvenance where
  fragments := [⟨[.decodeJson], [], by simp⟩, ⟨[.index 0], [], by simp⟩]
  bounded := by decide
  disjoint := by decide

end Sample

theorem validation_accepts_a_character :
    ¬ ∀ (loads : String → Option Json) (provenance : ToolResultProvenance) (result : Json)
      (tenantId : String),
      validateResult loads provenance result tenantId = .ok () ↔
        Partitions loads provenance.fragments result ∧
          ∀ f ∈ provenance.fragments, ∀ origin ∈ f.origins, origin.tenantId = tenantId := by
  intro h
  have haccepted : validateResult Sample.loadsQuoted Sample.overread (.str "\"x\"") "tenant" = .ok () := rfl
  obtain ⟨hpartitions, -⟩ := (h _ _ _ _).mp haccepted
  obtain ⟨leaf, hleaf, hbegin⟩ := hpartitions.inhabited ⟨[.index 0], [], by simp⟩
    (List.mem_cons_of_mem _ List.mem_cons_self)
  obtain ⟨w, hw⟩ := hleaf.reads
  obtain ⟨back, rfl⟩ := hbegin
  cases hw with
  | character hchars => exact absurd hchars Bool.false_ne_true

end OpenAgent.Privacy
