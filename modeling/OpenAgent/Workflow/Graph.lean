import Mathlib.Data.List.Nodup

/-!
# Workflow graphs

A graph is accepted when its nodes and edges are well formed and a depth-first search finds no cycle,
where the edge from the body of a loop to the loop itself does not count. The nodes that the search has
left, the last one first, come in an order that every other edge goes down.
-/

namespace OpenAgent.Workflow

open List Option

structure Node where
  id : String
  type : String
deriving DecidableEq

structure Edge where
  source : String
  target : String
  sourceHandle : Option String := none
deriving DecidableEq

/-- `edge.get("sourceHandle") or "out"` -/
def Edge.handle (e : Edge) : String :=
  match e.sourceHandle with
  | none => "out"
  | some handle => if handle = "" then "out" else handle

structure Graph where
  nodes : List Node := []
  edges : List Edge := []

def Graph.ids (g : Graph) : List String := g.nodes.map (·.id)

def Graph.outgoing (g : Graph) (id : String) : List Edge := g.edges.filter fun e => e.source = id

def Graph.incoming (g : Graph) (id : String) : List Edge := g.edges.filter fun e => e.target = id

def Graph.isLoop (g : Graph) (id : String) : Bool :=
  (g.nodes.find? fun n => n.id = id).any fun n => n.type = "loop"

def Graph.exempt (g : Graph) (e : Edge) : Bool :=
  g.isLoop e.source && e.handle = "body" && e.target = e.source

/-! ### Validation -/

/-- The types of `BLOCK_CATALOG` -/
def blockCatalog : List String :=
  ["trigger-manual", "trigger-schedule", "trigger-ai", "trigger-event", "mcp-tool", "ai-prompt", "if",
    "loop", "wait", "parallel", "merge", "set-variable", "http-request"]

inductive ValidationError
  | missingId
  | duplicateId (id : String)
  | unknownType (id type : String)
  | config (id : String)
  | unknownSource (id : String)
  | unknownTarget (id : String)
  | cycle (path : List String)
deriving DecidableEq

/-- The loop of `validate_graph` over the nodes. -/
def validateNodes (checkConfig : Node → Bool) : List String → List Node → Except ValidationError Unit
  | _, [] => .ok ()
  | seen, n :: rest =>
    if n.id = "" then .error .missingId
    else if n.id ∈ seen then .error (.duplicateId n.id)
    else if n.type ∉ blockCatalog then .error (.unknownType n.id n.type)
    else if !checkConfig n then .error (.config n.id)
    else validateNodes checkConfig (n.id :: seen) rest

/-- The loop of `validate_graph` over the edges. -/
def validateEdges (ids : List String) : List Edge → Except ValidationError Unit
  | [] => .ok ()
  | e :: rest =>
    if e.source ∉ ids then .error (.unknownSource e.source)
    else if e.target ∉ ids then .error (.unknownTarget e.target)
    else validateEdges ids rest

inductive Color
  | white | gray | black
deriving DecidableEq

/-- The inner loop of `_detect_cycle`, for at most `fuel` rounds: the top of the stack is the node that
is looked at, with the number of its edges seen so far. -/
def dfs (g : Graph) : Nat → (String → Color) → List (String × Nat) →
    Option (Except ValidationError (String → Color))
  | _, color, [] => some (.ok color)
  | 0, _, _ :: _ => none
  | fuel + 1, color, (id, idx) :: stack =>
    match (g.outgoing id)[idx]? with
    | none => dfs g fuel (Function.update color id .black) stack
    | some e =>
      let stack := (id, idx + 1) :: stack
      if g.exempt e then dfs g fuel color stack
      else
        match color e.target with
        | .gray => some (.error (.cycle ((stack.map Prod.fst).reverse ++ [e.target])))
        | .white => dfs g fuel (Function.update color e.target .gray) ((e.target, 0) :: stack)
        | .black => dfs g fuel color stack

/-- The outer loop of `_detect_cycle`. -/
def detectFrom (g : Graph) (fuel : Nat) : (String → Color) → List String →
    Option (Except ValidationError Unit)
  | _, [] => some (.ok ())
  | color, id :: rest =>
    if color id = .white then
      match dfs g fuel (Function.update color id .gray) [(id, 0)] with
      | none => none
      | some (.error e) => some (.error e)
      | some (.ok color) => detectFrom g fuel color rest
    else detectFrom g fuel color rest

/-- `_detect_cycle` -/
def detectCycle (g : Graph) (fuel : Nat) : Option (Except ValidationError Unit) :=
  detectFrom g fuel (fun _ => .white) g.ids

/-- `validate_graph`; `checkConfig` is the check of a node's config. -/
def validateGraph (checkConfig : Node → Bool) (g : Graph) (fuel : Nat) :
    Option (Except ValidationError Unit) :=
  match validateNodes checkConfig [] g.nodes with
  | .error e => some (.error e)
  | .ok () =>
    match validateEdges g.ids g.edges with
    | .error e => some (.error e)
    | .ok () => detectCycle g fuel

def Accepted (checkConfig : Node → Bool) (g : Graph) : Prop :=
  ∃ fuel, validateGraph checkConfig g fuel = some (.ok ())

/-! ### What acceptance means -/

theorem validateNodes_iff {checkConfig : Node → Bool} {seen : List String} {nodes : List Node} :
    validateNodes checkConfig seen nodes = .ok () ↔
      (∀ n ∈ nodes, n.id ≠ "" ∧ n.type ∈ blockCatalog ∧ checkConfig n = true) ∧
        (nodes.map (·.id)).Nodup ∧ ∀ n ∈ nodes, n.id ∉ seen := by
  induction nodes generalizing seen with
  | nil => simp [validateNodes]
  | cons n rest ih =>
    rw [validateNodes]
    split_ifs with hid hseen htype hconfig
    · simp [hid]
    · simp [hseen]
    · simp_all
    · rw [ih]
      simp only [mem_cons, not_or, map_cons, nodup_cons, List.mem_map]
      grind
    · simp [htype]

theorem validateEdges_iff {ids : List String} {edges : List Edge} :
    validateEdges ids edges = .ok () ↔ ∀ e ∈ edges, e.source ∈ ids ∧ e.target ∈ ids := by
  induction edges with
  | nil => simp [validateEdges]
  | cons e rest ih =>
    rw [validateEdges, forall_mem_cons]
    split_ifs with hsource htarget <;> simp_all

/-- The nodes that the search has left, the last one first: the edges of each go to nodes after it. -/
inductive Left (g : Graph) : List String → Prop
  | nil : Left g []
  | cons {id : String} {rest : List String} (hrest : Left g rest) (hnew : id ∉ rest)
      (hdown : ∀ e ∈ g.outgoing id, g.exempt e = false → e.target ∈ rest) : Left g (id :: rest)

/-- Every edge that was seen is exempt, goes to a black node, or is the one that the search is following
to the node above on the stack. -/
def Followed (g : Graph) (color : String → Color) : Option String → List (String × Nat) → Prop
  | _, [] => True
  | above, (id, idx) :: stack =>
    (∀ j, j < idx → ∀ e, (g.outgoing id)[j]? = some e →
      g.exempt e = true ∨ color e.target = .black ∨ above = some e.target) ∧
    Followed g color (some id) stack

structure Searched (g : Graph) (color : String → Color) (stack : List (String × Nat)) : Prop where
  left : ∃ l, Left g l ∧ ∀ id, color id = .black ↔ id ∈ l
  gray : ∀ id, color id = .gray ↔ id ∈ stack.map Prod.fst
  once : (stack.map Prod.fst).Nodup
  followed : Followed g color none stack

variable {g : Graph} {color : String → Color} {stack : List (String × Nat)}

theorem Followed.imp {color' : String → Color} {above above' : Option String}
    (h : Followed g color above stack) (hblack : ∀ id, color id = .black → color' id = .black)
    (habove : ∀ id, above = some id → color' id = .black ∨ above' = some id) :
    Followed g color' above' stack := by
  induction stack generalizing above above' with
  | nil => trivial
  | cons entry stack ih =>
    obtain ⟨id, idx⟩ := entry
    obtain ⟨htop, hrest⟩ := h
    refine ⟨?_, ih hrest fun other hother => .inr hother⟩
    intro j hj e he
    rcases htop j hj e he with hexempt | hdone | hnext
    · exact .inl hexempt
    · exact .inr (.inl (hblack _ hdone))
    · exact .inr (habove _ hnext)

theorem searched_leave {id : String} {idx : Nat} (h : Searched g color ((id, idx) :: stack))
    (hend : (g.outgoing id)[idx]? = none) : Searched g (Function.update color id .black) stack := by
  obtain ⟨l, hleft, hblack⟩ := h.left
  obtain ⟨htop, hrest⟩ := h.followed
  have hgray : color id = .gray := (h.gray id).mpr mem_cons_self
  have honce := h.once
  rw [map_cons, nodup_cons] at honce
  have hkeep : ∀ other, color other = .black → Function.update color id .black other = .black := by
    intro other hother
    by_cases heq : other = id
    · rw [heq, Function.update_self]
    · rw [Function.update_of_ne heq, hother]
  refine ⟨⟨id :: l, ?_, ?_⟩, ?_, honce.2, ?_⟩
  · refine .cons hleft ?_ ?_
    · intro hmem
      simp [(hblack id).mpr hmem] at hgray
    · intro e he hplain
      obtain ⟨j, hj⟩ := getElem?_of_mem he
      have hlt : j < idx := by
        have hlen := List.getElem?_eq_none_iff.mp hend
        have hlt := (List.getElem?_eq_some_iff.mp hj).1
        omega
      rcases htop j hlt e hj with hexempt | hdone | hnext
      · simp [hplain] at hexempt
      · exact (hblack _).mp hdone
      · cases hnext
  · intro other
    by_cases heq : other = id
    · rw [heq, Function.update_self]
      exact iff_of_true rfl mem_cons_self
    · rw [Function.update_of_ne heq, hblack, mem_cons]
      exact ⟨.inr, fun hor => hor.resolve_left heq⟩
  · intro other
    by_cases heq : other = id
    · rw [heq, Function.update_self]
      exact iff_of_false (nofun) honce.1
    · rw [Function.update_of_ne heq, h.gray, map_cons, mem_cons]
      exact ⟨fun hor => hor.resolve_left heq, .inr⟩
  · apply hrest.imp hkeep
    intro other hother
    left
    rw [← some.inj hother, Function.update_self]

theorem searched_skip {id : String} {idx : Nat} (h : Searched g color ((id, idx) :: stack)) {e : Edge}
    (he : (g.outgoing id)[idx]? = some e) (hdone : g.exempt e = true ∨ color e.target = .black) :
    Searched g color ((id, idx + 1) :: stack) := by
  obtain ⟨htop, hrest⟩ := h.followed
  refine ⟨h.left, h.gray, h.once, ?_, hrest⟩
  intro j hj d hd
  by_cases hlast : j = idx
  · rw [hlast, he] at hd
    cases hd
    rcases hdone with hexempt | hblack
    · exact .inl hexempt
    · exact .inr (.inl hblack)
  · exact htop j (by omega) d hd

theorem searched_follow {id : String} {idx : Nat} (h : Searched g color ((id, idx) :: stack)) {e : Edge}
    (he : (g.outgoing id)[idx]? = some e) (hwhite : color e.target = .white) :
    Searched g (Function.update color e.target .gray) ((e.target, 0) :: (id, idx + 1) :: stack) := by
  obtain ⟨l, hleft, hblack⟩ := h.left
  obtain ⟨htop, hrest⟩ := h.followed
  have hnew : e.target ∉ ((id, idx) :: stack).map Prod.fst := by
    rw [← h.gray, hwhite]
    exact nofun
  have hkeep : ∀ other, color other = .black → Function.update color e.target .gray other = .black := by
    intro other hother
    have hne : other ≠ e.target := by
      rintro rfl
      simp [hwhite] at hother
    rw [Function.update_of_ne hne, hother]
  refine ⟨⟨l, hleft, ?_⟩, ?_, ?_, ?_, ?_, ?_⟩
  · intro other
    by_cases heq : other = e.target
    · rw [heq, Function.update_self, ← hblack, hwhite]
      exact iff_of_false (nofun) (nofun)
    · rw [Function.update_of_ne heq, hblack]
  · intro other
    by_cases heq : other = e.target
    · rw [heq, Function.update_self]
      exact iff_of_true rfl mem_cons_self
    · rw [Function.update_of_ne heq, h.gray]
      exact ⟨mem_cons_of_mem _, fun hor => (List.mem_cons.mp hor).resolve_left heq⟩
  · exact List.nodup_cons.mpr ⟨hnew, h.once⟩
  · intro j hj
    exact absurd hj (Nat.not_lt_zero j)
  · intro j hj d hd
    by_cases hlast : j = idx
    · rw [hlast, he] at hd
      cases hd
      exact .inr (.inr rfl)
    · rcases htop j (by omega) d hd with hexempt | hdone | hnext
      · exact .inl hexempt
      · exact .inr (.inl (hkeep _ hdone))
      · cases hnext
  · exact hrest.imp hkeep fun other hother => .inr hother

theorem dfs_ok {fuel : Nat} {color' : String → Color} (h : Searched g color stack)
    (hdfs : dfs g fuel color stack = some (.ok color')) :
    Searched g color' [] ∧ ∀ id, color id ≠ .white → color' id ≠ .white := by
  induction fuel generalizing color stack with
  | zero =>
    cases stack with
    | nil =>
      cases some.inj hdfs
      exact ⟨h, fun _ hid => hid⟩
    | cons => cases hdfs
  | succ fuel ih =>
    cases stack with
    | nil =>
      cases some.inj hdfs
      exact ⟨h, fun _ hid => hid⟩
    | cons entry stack =>
      obtain ⟨id, idx⟩ := entry
      rw [dfs] at hdfs
      cases hedge : (g.outgoing id)[idx]? with
      | none =>
        rw [hedge] at hdfs
        obtain ⟨hdone, hgrown⟩ := ih (searched_leave h hedge) hdfs
        refine ⟨hdone, fun other hother => hgrown other ?_⟩
        by_cases heq : other = id
        · rw [heq, Function.update_self]
          exact nofun
        · rwa [Function.update_of_ne heq]
      | some e =>
        rw [hedge] at hdfs
        simp only at hdfs
        split at hdfs
        · rename_i hexempt
          exact ih (searched_skip h hedge (.inl hexempt)) hdfs
        · cases hcolor : color e.target with
          | gray =>
            simp [hcolor] at hdfs
          | white =>
            rw [hcolor] at hdfs
            obtain ⟨hdone, hgrown⟩ := ih (searched_follow h hedge hcolor) hdfs
            refine ⟨hdone, fun other hother => hgrown other ?_⟩
            by_cases heq : other = e.target
            · rw [heq, Function.update_self]
              exact nofun
            · rwa [Function.update_of_ne heq]
          | black =>
            rw [hcolor] at hdfs
            exact ih (searched_skip h hedge (.inr hcolor)) hdfs

theorem searched_nil (g : Graph) : Searched g (fun _ => .white) [] := by
  refine ⟨⟨[], .nil, ?_⟩, ?_, nodup_nil, trivial⟩
  · exact fun id => iff_of_false (nofun) not_mem_nil
  · exact fun id => iff_of_false (nofun) not_mem_nil

theorem searched_start (h : Searched g color []) {id : String} (hwhite : color id = .white) :
    Searched g (Function.update color id .gray) [(id, 0)] := by
  obtain ⟨l, hleft, hblack⟩ := h.left
  refine ⟨⟨l, hleft, ?_⟩, ?_, nodup_singleton id, ?_, trivial⟩
  · intro other
    by_cases heq : other = id
    · rw [heq, Function.update_self, ← hblack, hwhite]
      exact iff_of_false (nofun) (nofun)
    · rw [Function.update_of_ne heq, hblack]
  · intro other
    by_cases heq : other = id
    · rw [heq, Function.update_self]
      exact iff_of_true rfl mem_cons_self
    · rw [Function.update_of_ne heq, h.gray]
      exact iff_of_false not_mem_nil (fun hc => heq (List.mem_singleton.mp hc))
  · intro j hj
    exact absurd hj (Nat.not_lt_zero j)

theorem detectFrom_ok {fuel : Nat} {ids : List String} (h : Searched g color [])
    (hdetect : detectFrom g fuel color ids = some (.ok ())) :
    ∃ color', Searched g color' [] ∧ (∀ id, color id ≠ .white → color' id ≠ .white) ∧
      ∀ id ∈ ids, color' id ≠ .white := by
  induction ids generalizing color with
  | nil => exact ⟨color, h, fun _ hid => hid, fun id hid => absurd hid not_mem_nil⟩
  | cons id rest ih =>
    rw [detectFrom] at hdetect
    split at hdetect
    · rename_i hwhite
      have hstart := searched_start h hwhite
      cases hdfs : dfs g fuel (Function.update color id .gray) [(id, 0)] with
      | none =>
        simp [hdfs] at hdetect
      | some result =>
        cases result with
        | error e =>
          simp [hdfs] at hdetect
        | ok color' =>
          rw [hdfs] at hdetect
          obtain ⟨hdone, hgrown⟩ := dfs_ok hstart hdfs
          obtain ⟨color'', hall, hkept, hrest⟩ := ih hdone hdetect
          have hentered : color' id ≠ .white := by
            apply hgrown
            rw [Function.update_self]
            exact nofun
          refine ⟨color'', hall, ?_, ?_⟩
          · intro other hother
            apply hkept
            apply hgrown
            by_cases heq : other = id
            · rw [heq, Function.update_self]
              exact nofun
            · rwa [Function.update_of_ne heq]
          · intro other hother
            rcases List.mem_cons.mp hother with rfl | hother
            · exact hkept _ hentered
            · exact hrest other hother
    · rename_i hentered
      obtain ⟨color', hall, hkept, hrest⟩ := ih h hdetect
      refine ⟨color', hall, hkept, ?_⟩
      intro other hother
      rcases List.mem_cons.mp hother with rfl | hother
      · exact hkept _ hentered
      · exact hrest other hother

theorem Left.closed {l : List String} (h : Left g l) {e : Edge} (he : e ∈ g.edges) (hsource : e.source ∈ l)
    (hplain : g.exempt e = false) : e.target ∈ l := by
  induction h with
  | nil => exact absurd hsource not_mem_nil
  | @cons id rest hrest hnew hdown ih =>
    by_cases heq : e.source = id
    · have he' : e ∈ g.outgoing id := List.mem_filter.mpr ⟨he, decide_eq_true heq⟩
      exact mem_cons_of_mem id (hdown e he' hplain)
    · exact mem_cons_of_mem id (ih ((List.mem_cons.mp hsource).resolve_left heq))

theorem Left.idxOf_lt {l : List String} (h : Left g l) {e : Edge} (he : e ∈ g.edges)
    (hsource : e.source ∈ l) (hplain : g.exempt e = false) : l.idxOf e.source < l.idxOf e.target := by
  induction h with
  | nil => exact absurd hsource not_mem_nil
  | @cons id rest hrest hnew hdown ih =>
    by_cases heq : e.source = id
    · have htarget : e.target ∈ rest :=
        hdown e (List.mem_filter.mpr ⟨he, decide_eq_true heq⟩) hplain
      have hne : id ≠ e.target := by
        rintro rfl
        exact hnew htarget
      rw [heq, idxOf_cons_self, idxOf_cons_ne _ hne]
      exact Nat.succ_pos _
    · have hsource' : e.source ∈ rest := (List.mem_cons.mp hsource).resolve_left heq
      have hlater := ih hsource'
      have hne : id ≠ e.target := by
        rintro rfl
        exact hnew (hrest.closed he hsource' hplain)
      rw [idxOf_cons_ne _ (Ne.symm heq), idxOf_cons_ne _ hne]
      omega

/-- What the rest of the development uses of an accepted graph: ids name one node each, edges join nodes,
and all edges but the exempt ones go up in some order. -/
structure Sound (g : Graph) : Prop where
  nodup : g.ids.Nodup
  ends : ∀ e ∈ g.edges, e.source ∈ g.ids ∧ e.target ∈ g.ids
  ranked : ∃ rank : String → Nat, ∀ e ∈ g.edges, g.exempt e = false → rank e.source < rank e.target

theorem sound_of_accepted {checkConfig : Node → Bool} (h : Accepted checkConfig g) :
    Sound g := by
  obtain ⟨fuel, hvalid⟩ := h
  rw [validateGraph] at hvalid
  cases hnodes : validateNodes checkConfig [] g.nodes with
  | error e =>
    simp [hnodes] at hvalid
  | ok _ =>
    rw [hnodes] at hvalid
    cases hedges : validateEdges g.ids g.edges with
    | error e =>
      simp only [hedges] at hvalid
      cases hvalid
    | ok _ =>
      simp only [hedges] at hvalid
      have hends := validateEdges_iff.mp hedges
      refine ⟨(validateNodes_iff.mp hnodes).2.1, hends, ?_⟩
      obtain ⟨color, hall, -, hentered⟩ := detectFrom_ok (searched_nil g) hvalid
      obtain ⟨l, hleft, hblack⟩ := hall.left
      refine ⟨l.idxOf, fun e he hplain => hleft.idxOf_lt he ?_ hplain⟩
      apply (hblack _).mp
      cases hcolor : color e.source with
      | white => exact absurd hcolor (hentered _ (hends e he).1)
      | gray => exact absurd ((hall.gray _).mp hcolor) not_mem_nil
      | black => rfl

end OpenAgent.Workflow
