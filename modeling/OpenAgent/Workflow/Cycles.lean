import Mathlib.Algebra.Order.BigOperators.Ring.Finset
import OpenAgent.Workflow.Graph

/-!
# Cycles

The search ends, since every round moves on from an edge, or leaves a node or finds one for the first time.
The nodes on its stack are a path of the graph, so that it raises only where the path goes back to itself.
-/

namespace OpenAgent.Workflow

open List Relation

/-- An edge that is not exempt leads from the one node to the other. -/
def Follows (g : Graph) (a b : String) : Prop :=
  ∃ e ∈ g.edges, g.exempt e = false ∧ e.source = a ∧ e.target = b

def Cyclic (g : Graph) : Prop := ∃ id, TransGen (Follows g) id id

structure WellFormed (checkConfig : Node → Bool) (g : Graph) : Prop where
  nodes : ∀ n ∈ g.nodes, n.id ≠ "" ∧ n.type ∈ blockCatalog ∧ checkConfig n = true
  nodup : g.ids.Nodup
  ends : ∀ e ∈ g.edges, e.source ∈ g.ids ∧ e.target ∈ g.ids

/-- The path that is reported follows the edges, and ends where it has been before. -/
def Closes (g : Graph) (path : List String) : Prop :=
  path.IsChain (Follows g) ∧ ∃ front id, path = front ++ [id] ∧ id ∈ front

variable {g : Graph} {color : String → Color} {stack : List (String × Nat)}

theorem Closes.cyclic {path : List String} (h : Closes g path) : Cyclic g := by
  obtain ⟨hchain, front, id, rfl, hid⟩ := h
  have hpairwise : (front ++ [id]).Pairwise (TransGen (Follows g)) :=
    isChain_iff_pairwise.mp (hchain.imp fun _ _ => .single)
  exact ⟨id, (pairwise_append.mp hpairwise).2.2 id hid id (mem_singleton_self id)⟩

/-! ### The rounds that are left -/

def unseen (g : Graph) (color : String → Color) : Nat :=
  ∑ id ∈ g.ids.toFinset with color id = .white, ((g.outgoing id).length + 1)

def work (g : Graph) (color : String → Color) (stack : List (String × Nat)) : Nat :=
  unseen g color + (stack.map fun entry => (g.outgoing entry.1).length - entry.2 + 1).sum

theorem unseen_le {color' : String → Color} (h : ∀ id, color' id = .white → color id = .white) :
    unseen g color' ≤ unseen g color := by
  apply Finset.sum_le_sum_of_subset
  intro id hid
  rw [Finset.mem_filter] at hid ⊢
  exact ⟨hid.1, h id hid.2⟩

theorem unseen_follow {id : String} (hid : id ∈ g.ids) (hwhite : color id = .white) :
    unseen g (Function.update color id .gray) + ((g.outgoing id).length + 1) = unseen g color := by
  have hmem : id ∈ g.ids.toFinset.filter fun other => color other = .white := by simp [hid, hwhite]
  have herase : (g.ids.toFinset.filter fun other => Function.update color id .gray other = .white) =
      (g.ids.toFinset.filter fun other => color other = .white).erase id := by
    ext other
    by_cases heq : other = id <;> simp [heq]
  rw [unseen, unseen, herase, Finset.sum_erase_add _ _ hmem]

/-! ### The search -/

theorem follows_of_edge {id : String} {idx : Nat} {e : Edge} (he : (g.outgoing id)[idx]? = some e)
    (hplain : g.exempt e = false) : Follows g id e.target := by
  obtain ⟨hmem, hsource⟩ := mem_filter.mp (mem_of_getElem? he)
  exact ⟨e, hmem, hplain, of_decide_eq_true hsource, rfl⟩

/-- Each node on the stack is followed by the one above it. -/
def Stacked (g : Graph) (stack : List (String × Nat)) : Prop :=
  (stack.map Prod.fst).IsChain fun above below => Follows g below above

theorem closes_of_gray {id : String} {idx : Nat} {e : Edge} (h : Searched g color ((id, idx) :: stack))
    (hstacked : Stacked g ((id, idx) :: stack)) (he : (g.outgoing id)[idx]? = some e)
    (hplain : g.exempt e = false) (hgray : color e.target = .gray) :
    Closes g ((((id, idx + 1) :: stack).map Prod.fst).reverse ++ [e.target]) := by
  refine ⟨?_, _, e.target, rfl, mem_reverse.mpr ((h.gray e.target).mp hgray)⟩
  have hchain : (e.target :: id :: stack.map Prod.fst).IsChain fun above below => Follows g below above :=
    isChain_cons_cons.mpr ⟨follows_of_edge he hplain, hstacked⟩
  rw [← reverse_cons]
  exact isChain_reverse.mpr hchain

/-- A search comes to an end if its rounds are `enough`, and raises only for a path that closes. -/
def Searches {α : Type} (g : Graph) (enough : Prop) (result : Option (Except ValidationError α)) : Prop :=
  (enough → result ≠ none) ∧ ∀ e, result = some (.error e) → ∃ path, e = .cycle path ∧ Closes g path

/-- Every round moves on. -/
theorem dfs_spec (hends : ∀ e ∈ g.edges, e.target ∈ g.ids) (fuel : Nat) (h : Searched g color stack)
    (hstacked : Stacked g stack) : Searches g (work g color stack ≤ fuel) (dfs g fuel color stack) := by
  induction fuel generalizing color stack with
  | zero =>
    cases stack with
    | nil => simp [Searches, dfs]
    | cons => simp [Searches, dfs, work]
  | succ fuel ih =>
    cases stack with
    | nil => simp [Searches, dfs]
    | cons entry stack =>
      obtain ⟨id, idx⟩ := entry
      rw [dfs]
      cases hedge : (g.outgoing id)[idx]? with
      | none =>
        obtain ⟨htotal, herror⟩ := ih (searched_leave h hedge) (hstacked.tail)
        refine ⟨fun hwork => htotal ?_, herror⟩
        have hle : unseen g (Function.update color id .black) ≤ unseen g color := unseen_le (by grind)
        simp only [work, map_cons, sum_cons] at hwork ⊢
        omega
      | some e =>
        have hlt := (List.getElem?_eq_some_iff.mp hedge).1
        have hnext : Stacked g ((id, idx + 1) :: stack) := hstacked
        have hless : work g color ((id, idx + 1) :: stack) + 1 = work g color ((id, idx) :: stack) := by
          simp only [work, map_cons, sum_cons]
          omega
        have hskip : g.exempt e = true ∨ color e.target = .black →
            Searches g (work g color ((id, idx) :: stack) ≤ fuel + 1) (dfs g fuel color ((id, idx + 1) :: stack)) := by
          intro hdone
          obtain ⟨htotal, herror⟩ := ih (searched_skip h hedge hdone) hnext
          exact ⟨fun hwork => htotal (by omega), herror⟩
        dsimp only
        split
        · rename_i hexempt
          exact hskip (.inl hexempt)
        · rename_i hplain
          rw [Bool.not_eq_true] at hplain
          cases hcolor : color e.target with
          | gray =>
            refine ⟨by simp, fun err herr => ?_⟩
            cases herr
            exact ⟨_, rfl, closes_of_gray h hstacked hedge hplain hcolor⟩
          | white =>
            have hmem : e ∈ g.edges := (mem_filter.mp (mem_of_getElem? hedge)).1
            obtain ⟨htotal, herror⟩ := ih (searched_follow h hedge hcolor)
              (isChain_cons_cons.mpr ⟨follows_of_edge hedge hplain, hnext⟩)
            refine ⟨fun hwork => htotal ?_, herror⟩
            have hseen := unseen_follow (hends e hmem) hcolor
            simp only [work, map_cons, sum_cons] at hwork ⊢
            omega
          | black => exact hskip (.inr hcolor)

theorem detectFrom_spec (hends : ∀ e ∈ g.edges, e.target ∈ g.ids) (fuel : Nat) {ids : List String}
    (hids : ∀ id ∈ ids, id ∈ g.ids) (h : Searched g color []) :
    Searches g (unseen g (fun _ => .white) ≤ fuel) (detectFrom g fuel color ids) := by
  induction ids generalizing color with
  | nil => simp [Searches, detectFrom]
  | cons id rest ih =>
    have hrest : ∀ other ∈ rest, other ∈ g.ids := fun other hother => hids other (mem_cons_of_mem id hother)
    rw [detectFrom]
    split
    · rename_i hwhite
      have hstart := searched_start h hwhite
      obtain ⟨htotal, herror⟩ := dfs_spec hends fuel hstart (isChain_singleton id)
      have hfuel : unseen g (fun _ => .white) ≤ fuel →
          work g (Function.update color id .gray) [(id, 0)] ≤ fuel := by
        intro hle
        have hseen := unseen_follow (hids id mem_cons_self) hwhite
        have hbound : unseen g color ≤ unseen g fun _ => .white := unseen_le fun _ _ => rfl
        simp only [work, map_cons, map_nil, sum_cons, sum_nil]
        omega
      cases hdfs : dfs g fuel (Function.update color id .gray) [(id, 0)] with
      | none => exact ⟨fun hle => absurd hdfs (htotal (hfuel hle)), by simp⟩
      | some result =>
        cases result with
        | error e =>
          refine ⟨by simp, fun err herr => herror err ?_⟩
          cases herr
          exact hdfs
        | ok color' => exact ih hrest (dfs_ok hstart hdfs).1
    · exact ih hrest h

/-! ### Validation -/

theorem validateNodes_ne_cycle {checkConfig : Node → Bool} {seen : List String} {nodes : List Node}
    (path : List String) : validateNodes checkConfig seen nodes ≠ .error (.cycle path) := by
  induction nodes generalizing seen with
  | nil => simp [validateNodes]
  | cons n rest ih =>
    rw [validateNodes]
    split_ifs <;> simp [ih]

theorem validateEdges_ne_cycle {ids : List String} {edges : List Edge} (path : List String) :
    validateEdges ids edges ≠ .error (.cycle path) := by
  induction edges with
  | nil => simp [validateEdges]
  | cons e rest ih =>
    rw [validateEdges]
    split_ifs <;> simp [ih]

theorem Sound.acyclic (h : Sound g) : ¬ Cyclic g := by
  obtain ⟨rank, hrank⟩ := h.ranked
  rintro ⟨id, hcycle⟩
  have hless : ∀ other, TransGen (Follows g) id other → rank id < rank other := by
    intro other hpath
    induction hpath with
    | single hedge =>
      obtain ⟨e, he, hplain, rfl, rfl⟩ := hedge
      exact hrank e he hplain
    | tail _ hedge ih =>
      obtain ⟨e, he, hplain, rfl, rfl⟩ := hedge
      exact ih.trans (hrank e he hplain)
  exact Nat.lt_irrefl _ (hless id hcycle)

theorem validateGraph_illFormed {checkConfig : Node → Bool} (h : ¬ WellFormed checkConfig g) :
    ∃ e, (∀ fuel, validateGraph checkConfig g fuel = some (.error e)) ∧ ∀ path, e ≠ .cycle path := by
  cases hnodes : validateNodes checkConfig [] g.nodes with
  | error e =>
    refine ⟨e, fun fuel => ?_, fun path hpath => validateNodes_ne_cycle path (hpath ▸ hnodes)⟩
    rw [validateGraph, hnodes]
  | ok _ =>
    obtain ⟨hwell, hnodup, -⟩ := validateNodes_iff.mp hnodes
    cases hedges : validateEdges g.ids g.edges with
    | error e =>
      refine ⟨e, fun fuel => ?_, fun path hpath => validateEdges_ne_cycle path (hpath ▸ hedges)⟩
      simp only [validateGraph, hnodes, hedges]
    | ok _ => exact absurd ⟨hwell, hnodup, validateEdges_iff.mp hedges⟩ h

/-- The validation ends on every graph. It accepts the graphs that are well formed and have no cycle, and a cycle
that it reports is one. -/
theorem validation_is_exact (checkConfig : Node → Bool) (g : Graph) :
    (∃ fuel, validateGraph checkConfig g fuel ≠ none) ∧
      ∀ fuel result, validateGraph checkConfig g fuel = some result →
        (result = .ok () ↔ WellFormed checkConfig g ∧ ¬ Cyclic g) ∧
        ∀ path, result = .error (.cycle path) → Closes g path := by
  by_cases hwell : WellFormed checkConfig g
  · have hspec := fun fuel => detectFrom_spec (fun e he => (hwell.ends e he).2) fuel (fun _ hid => hid) (searched_nil g)
    have hvalid : ∀ fuel, validateGraph checkConfig g fuel = detectCycle g fuel := by
      intro fuel
      rw [validateGraph, validateNodes_iff.mpr ⟨hwell.nodes, hwell.nodup, fun _ _ => not_mem_nil⟩]
      dsimp only
      rw [validateEdges_iff.mpr hwell.ends]
    refine ⟨⟨_, (hvalid _).trans_ne ((hspec _).1 (Nat.le_refl _))⟩, fun fuel result hresult => ?_⟩
    have hreported := (hspec fuel).2
    rw [hvalid, detectCycle] at hresult
    cases result with
    | ok _ =>
      have haccepted : Accepted checkConfig g := ⟨fuel, (hvalid fuel).trans hresult⟩
      exact ⟨iff_of_true rfl ⟨hwell, (sound_of_accepted haccepted).acyclic⟩, by simp⟩
    | error e =>
      obtain ⟨path, rfl, hcloses⟩ := hreported e hresult
      refine ⟨iff_of_false (by simp) fun h => h.2 hcloses.cyclic, fun other hother => ?_⟩
      cases hother
      exact hcloses
  · obtain ⟨e, herror, hother⟩ := validateGraph_illFormed hwell
    refine ⟨⟨0, (herror 0).trans_ne (by simp)⟩, fun fuel result hresult => ?_⟩
    cases (herror fuel).symm.trans hresult
    exact ⟨iff_of_false (by simp) fun h => hwell h.1, fun path hpath => absurd (Except.error.inj hpath) (hother path)⟩

end OpenAgent.Workflow
