import OpenAgent.Workflow.Complete

/-!
# Loop bodies

The handler of a loop runs the part of the graph that the loop's body handle leads to. The search for it
collects just the nodes that can be reached from there without coming back to the loop, and the part they
make up is again a graph that can be walked.
-/

namespace OpenAgent.Workflow

open List

structure Proper (g : Graph) : Prop extends Sound g where
  named : "" ∉ g.ids
  typed : ∀ n ∈ g.nodes, n.type ∈ blockCatalog

variable {g body : Graph}

theorem proper_of_accepted {checkConfig : Node → Bool} (h : Accepted checkConfig g) : Proper g := by
  have hsound := sound_of_accepted h
  obtain ⟨fuel, hvalid⟩ := h
  rw [validateGraph] at hvalid
  cases hnodes : validateNodes checkConfig [] g.nodes with
  | error e =>
    simp [hnodes] at hvalid
  | ok _ =>
    have hnamed := (validateNodes_iff.mp hnodes).1
    refine { hsound with named := ?_, typed := fun n hn => (hnamed n hn).2.1 }
    intro hmem
    obtain ⟨n, hn, hempty⟩ := List.mem_map.mp hmem
    exact (hnamed n hn).1 hempty

/-- `nodes_by_id.get(id)` -/
def Graph.nodeOf (g : Graph) (id : String) : Option Node := g.nodes.find? fun n => n.id = id

theorem nodeOf_id {id : String} {n : Node} (h : g.nodeOf id = some n) : n ∈ g.nodes ∧ n.id = id :=
  ⟨mem_of_find?_eq_some h, of_decide_eq_true (find?_some (p := fun n : Node => decide (n.id = id)) h)⟩

theorem nodeOf_of_mem {id : String} (h : id ∈ g.ids) : ∃ n, g.nodeOf id = some n := by
  obtain ⟨n, hn, hid⟩ := List.mem_map.mp h
  cases hfind : g.nodeOf id with
  | some m => exact ⟨m, rfl⟩
  | none => exact absurd (decide_eq_true hid) (List.find?_eq_none.mp hfind n hn)

theorem nodeOf_self (hnodup : g.ids.Nodup) {n : Node} (hn : n ∈ g.nodes) : g.nodeOf n.id = some n := by
  obtain ⟨m, hm⟩ := nodeOf_of_mem (mem_map_of_mem hn : n.id ∈ g.ids)
  obtain ⟨hmem, hid⟩ := nodeOf_id hm
  rw [hm, inj_on_of_nodup_map hnodup hmem hn hid]

theorem isLoop_iff {id : String} : g.isLoop id = true ↔ ∃ n, g.nodeOf id = some n ∧ n.type = "loop" := by
  show (g.nodeOf id).any (fun n => decide (n.type = "loop")) = true ↔ _
  cases g.nodeOf id with
  | none => simp
  | some n => simp

/-! ### The search -/

def bodyRoots (g : Graph) (loop : String) : List String :=
  ((g.outgoing loop).filter fun e => e.handle = "body").map (·.target)

/-- The search of `_extract_body_subgraph`, for at most `fuel` rounds; the top of the stack comes first. -/
def collectBody (g : Graph) (loop : String) : Nat → List String → List String → Option (List String)
  | _, reachable, [] => some reachable
  | 0, _, _ :: _ => none
  | fuel + 1, reachable, id :: stack =>
    if id = loop then collectBody g loop fuel reachable stack
    else if id ∈ reachable then collectBody g loop fuel reachable stack
    else
      let targets := ((g.outgoing id).map (·.target)).filter fun target =>
        target ≠ "" ∧ target ≠ loop ∧ target ∉ id :: reachable
      collectBody g loop fuel (id :: reachable) (targets.reverse ++ stack)

/-- `_extract_body_subgraph`; the nodes come in the order of a set. -/
def extractBodySubgraph (g : Graph) (order : SetOrder) (loop : String) (fuel : Nat) : Option Graph :=
  if (bodyRoots g loop).isEmpty then some {}
  else
    (collectBody g loop fuel [] (bodyRoots g loop).reverse).map fun reachable =>
      { nodes := (order.list reachable).filterMap g.nodeOf
        edges := g.edges.filter fun e => e.source ∈ reachable ∧ e.target ∈ reachable }

structure Collecting (g : Graph) (loop : String) (reachable stack : List String) : Prop where
  once : reachable.Nodup
  found : ∀ id ∈ reachable, InBody g loop id
  waiting : ∀ id ∈ stack, id ≠ loop → InBody g loop id
  roots : ∀ e ∈ g.edges, e.source = loop → e.handle = "body" → e.target ≠ loop →
    e.target ∈ reachable ∨ e.target ∈ stack
  closed : ∀ e ∈ g.edges, e.source ∈ reachable → e.target ≠ loop → e.target ∈ reachable ∨ e.target ∈ stack

variable {g : Graph} {loop : String} {reachable stack : List String} {id : String}

theorem Collecting.pass (h : Collecting g loop reachable (id :: stack)) (hid : id = loop ∨ id ∈ reachable) :
    Collecting g loop reachable stack := by
  have hstill : ∀ target, target ≠ loop → target ∈ reachable ∨ target ∈ id :: stack →
      target ∈ reachable ∨ target ∈ stack := by
    rintro target hne (hold | htop)
    · exact .inl hold
    · rcases List.mem_cons.mp htop with rfl | hrest
      · exact .inl (hid.resolve_left hne)
      · exact .inr hrest
  exact
    { once := h.once
      found := h.found
      waiting := fun other hother => h.waiting other (mem_cons_of_mem _ hother)
      roots := fun e he hsource hhandle hne => hstill _ hne (h.roots e he hsource hhandle hne)
      closed := fun e he hsource hne => hstill _ hne (h.closed e he hsource hne) }

theorem Collecting.reach (hproper : Proper g) (h : Collecting g loop reachable (id :: stack)) (hne : id ≠ loop)
    (hnew : id ∉ reachable) :
    Collecting g loop (id :: reachable)
      ((((g.outgoing id).map (·.target)).filter fun target =>
        target ≠ "" ∧ target ≠ loop ∧ target ∉ id :: reachable).reverse ++ stack) := by
  have hbody : InBody g loop id := h.waiting id mem_cons_self hne
  have hstill : ∀ target, target ∈ reachable ∨ target ∈ id :: stack → target ∈ id :: reachable ∨ target ∈ stack := by
    rintro target (hold | htop)
    · exact .inl (mem_cons_of_mem _ hold)
    · rcases List.mem_cons.mp htop with rfl | hrest
      · exact .inl mem_cons_self
      · exact .inr hrest
  refine ⟨List.nodup_cons.mpr ⟨hnew, h.once⟩, ?_, ?_, ?_, ?_⟩
  · intro other hother
    rcases List.mem_cons.mp hother with rfl | hother
    · exact hbody
    · exact h.found other hother
  · intro other hother hapart
    rcases List.mem_append.mp hother with hother | hother
    · obtain ⟨hmem, -⟩ := List.mem_filter.mp (List.mem_reverse.mp hother)
      obtain ⟨e, he, rfl⟩ := List.mem_map.mp hmem
      obtain ⟨hedge, hsource⟩ := mem_outgoing.mp he
      exact .next hedge (hsource ▸ hbody) hapart
    · exact h.waiting other (mem_cons_of_mem _ hother) hapart
  · intro e he hsource hhandle hapart
    exact (hstill _ (h.roots e he hsource hhandle hapart)).imp_right (mem_append_right _)
  · intro e he hsource hapart
    rcases List.mem_cons.mp hsource with hself | hold
    · by_cases hin : e.target ∈ id :: reachable
      · exact .inl hin
      · right
        apply mem_append_left
        rw [mem_reverse, List.mem_filter, decide_eq_true_eq]
        refine ⟨mem_map_of_mem (mem_outgoing.mpr ⟨he, hself⟩), ?_, hapart, hin⟩
        intro hempty
        exact hproper.named (hempty ▸ (hproper.ends e he).2)
    · exact (hstill _ (h.closed e he hold hapart)).imp_right (mem_append_right _)

theorem collectBody_ends (hproper : Proper g) {fuel : Nat} (h : Collecting g loop reachable stack)
    (hfuel : stack.length + (g.edges.countP fun e => decide (e.source ∉ reachable)) ≤ fuel) :
    ∃ l, collectBody g loop fuel reachable stack = some l ∧ Collecting g loop l [] := by
  induction fuel generalizing reachable stack with
  | zero =>
    cases stack with
    | nil => exact ⟨reachable, by rw [collectBody], h⟩
    | cons id rest =>
      rw [length_cons] at hfuel
      omega
  | succ fuel ih =>
    cases stack with
    | nil => exact ⟨reachable, by rw [collectBody], h⟩
    | cons id rest =>
      rw [length_cons] at hfuel
      rw [collectBody]
      split
      · rename_i heq
        exact ih (h.pass (.inl heq)) (by omega)
      · rename_i hne
        split
        · rename_i hold
          exact ih (h.pass (.inr hold)) (by omega)
        · rename_i hnew
          refine ih (h.reach hproper hne hnew) ?_
          have hcount := countP_source g hnew
          have hlen := length_filter_le (fun target => decide (target ≠ "" ∧ target ≠ loop ∧
            target ∉ id :: reachable)) ((g.outgoing id).map (·.target))
          rw [length_map] at hlen
          rw [length_append, length_reverse]
          omega

theorem Collecting.done (h : Collecting g loop reachable []) : id ∈ reachable ↔ InBody g loop id := by
  refine ⟨h.found id, fun hbody => ?_⟩
  induction hbody with
  | root he hsource hhandle hapart => exact (h.roots _ he hsource hhandle hapart).resolve_right not_mem_nil
  | next he _ hapart ih => exact (h.closed _ he ih hapart).resolve_right not_mem_nil

theorem collecting_start (g : Graph) (loop : String) : Collecting g loop [] (bodyRoots g loop).reverse := by
  refine ⟨nodup_nil, fun id hid => absurd hid not_mem_nil, ?_, ?_, ?_⟩
  · intro id hid hne
    obtain ⟨e, he, rfl⟩ := List.mem_map.mp (List.mem_reverse.mp hid)
    obtain ⟨hout, hhandle⟩ := List.mem_filter.mp he
    obtain ⟨hedge, hsource⟩ := mem_outgoing.mp hout
    exact .root hedge hsource (of_decide_eq_true hhandle) hne
  · intro e he hsource hhandle _
    right
    rw [mem_reverse]
    exact mem_map_of_mem (List.mem_filter.mpr ⟨mem_outgoing.mpr ⟨he, hsource⟩, decide_eq_true hhandle⟩)
  · exact fun e _ hsource => absurd hsource not_mem_nil

/-! ### The part of the graph -/

structure BodyOf (g : Graph) (loop : String) (body : Graph) : Prop where
  nodes : ∀ n, n ∈ body.nodes ↔ n ∈ g.nodes ∧ InBody g loop n.id
  edges : ∀ e, e ∈ body.edges ↔ e ∈ g.edges ∧ InBody g loop e.source ∧ InBody g loop e.target
  size : body.edges.length ≤ g.edges.length

theorem InBody.mem_ids (hproper : Proper g) (h : InBody g loop id) : id ∈ g.ids := by
  cases h with
  | root he => exact (hproper.ends _ he).2
  | next he => exact (hproper.ends _ he).2

theorem InBody.ne (h : InBody g loop id) : id ≠ loop := by
  cases h with
  | root _ _ _ hapart => exact hapart
  | next _ _ hapart => exact hapart

theorem BodyOf.ids (hproper : Proper g) (h : BodyOf g loop body) :
    id ∈ body.ids ↔ InBody g loop id := by
  constructor
  · intro hid
    obtain ⟨n, hn, rfl⟩ := List.mem_map.mp hid
    exact ((h.nodes n).mp hn).2
  · intro hbody
    obtain ⟨n, hn, rfl⟩ := List.mem_map.mp (hbody.mem_ids hproper)
    exact mem_map_of_mem ((h.nodes n).mpr ⟨hn, hbody⟩)

theorem BodyOf.proper (hproper : Proper g) (h : BodyOf g loop body) (hnodup : body.ids.Nodup) :
    Proper body := by
  have hloop : ∀ {other}, other ∈ body.ids → body.isLoop other = g.isLoop other := by
    intro other hother
    obtain ⟨n, hn, rfl⟩ := List.mem_map.mp hother
    have hbody := nodeOf_self hnodup hn
    have hgraph := nodeOf_self hproper.nodup ((h.nodes n).mp hn).1
    rw [Graph.nodeOf] at hbody hgraph
    rw [Graph.isLoop, Graph.isLoop, hbody, hgraph]
  have hends : ∀ e ∈ body.edges, e.source ∈ body.ids ∧ e.target ∈ body.ids := by
    intro e he
    obtain ⟨-, hsource, htarget⟩ := (h.edges e).mp he
    exact ⟨(h.ids hproper).mpr hsource, (h.ids hproper).mpr htarget⟩
  obtain ⟨rank, hrank⟩ := hproper.ranked
  refine { nodup := hnodup, ends := hends, ranked := ⟨rank, ?_⟩, named := ?_, typed := ?_ }
  · intro e he hplain
    apply hrank e ((h.edges e).mp he).1
    rw [Graph.exempt, hloop (hends e he).1] at hplain
    exact hplain
  · intro hempty
    exact hproper.named (((h.ids hproper).mp hempty).mem_ids hproper)
  · exact fun n hn => hproper.typed n ((h.nodes n).mp hn).1

theorem BodyOf.length_lt (hproper : Proper g) (h : BodyOf g loop body) (hnodup : body.ids.Nodup)
    (hloop : loop ∈ g.ids) : body.ids.length < g.ids.length := by
  have hnew : loop ∉ body.ids := fun hmem => ((h.ids hproper).mp hmem).ne rfl
  have hsub : loop :: body.ids ⊆ g.ids := by
    intro id hid
    rcases List.mem_cons.mp hid with rfl | hid
    · exact hloop
    · exact ((h.ids hproper).mp hid).mem_ids hproper
  exact (subperm_of_subset (List.nodup_cons.mpr ⟨hnew, hnodup⟩) hsub).length_le

theorem extractBodySubgraph_ok (hproper : Proper g) (order : SetOrder) (loop : String) {fuel : Nat}
    (hfuel : 2 * g.edges.length ≤ fuel) :
    ∃ body, extractBodySubgraph g order loop fuel = some body ∧ BodyOf g loop body ∧ Proper body := by
  have hroots : (bodyRoots g loop).length ≤ g.edges.length := by
    rw [bodyRoots, length_map]
    exact Nat.le_trans (length_filter_le _ _) (length_outgoing_le g loop)
  rw [extractBodySubgraph]
  split
  · rename_i hempty
    have hnone : ∀ id, ¬ InBody g loop id := by
      intro id hbody
      induction hbody with
      | @root e he hsource hhandle =>
        have hmem : e.target ∈ bodyRoots g loop :=
          mem_map_of_mem (List.mem_filter.mpr ⟨mem_outgoing.mpr ⟨he, hsource⟩, decide_eq_true hhandle⟩)
        rw [List.isEmpty_iff.mp hempty] at hmem
        exact not_mem_nil hmem
      | next _ _ _ ih => exact ih
    have hbody : BodyOf g loop {} :=
      ⟨fun n => iff_of_false not_mem_nil fun hn => hnone _ hn.2,
        fun e => iff_of_false not_mem_nil fun he => hnone _ he.2.1, Nat.zero_le _⟩
    exact ⟨{}, rfl, hbody, hbody.proper hproper nodup_nil⟩
  · obtain ⟨l, hl, hdone⟩ := collectBody_ends hproper (collecting_start g loop) (by
      rw [length_reverse]
      have hcount : (g.edges.countP fun e => decide (e.source ∉ ([] : List String))) ≤ g.edges.length :=
        countP_le_length
      omega : _ ≤ fuel)
    rw [hl]
    have hperm := order.perm l
    have hfound : ∀ id ∈ order.list l, ∃ n, g.nodeOf id = some n := by
      intro id hid
      exact nodeOf_of_mem ((hdone.found id (hperm.mem_iff.mp hid)).mem_ids hproper)
    have hids : ((order.list l).filterMap g.nodeOf).map (·.id) = order.list l := by
      generalize order.list l = ids at hfound
      induction ids with
      | nil => rfl
      | cons id rest ih =>
        obtain ⟨n, hn⟩ := hfound id mem_cons_self
        rw [filterMap_cons, hn]
        simp only [map_cons, (nodeOf_id hn).2]
        rw [ih fun other hother => hfound other (mem_cons_of_mem _ hother)]
    have hbody : BodyOf g loop
        { nodes := (order.list l).filterMap g.nodeOf
          edges := g.edges.filter fun e => e.source ∈ l ∧ e.target ∈ l } := by
      refine ⟨fun n => ?_, fun e => ?_, length_filter_le _ _⟩
      · simp only [mem_filterMap]
        constructor
        · rintro ⟨id, hid, hn⟩
          obtain ⟨hmem, rfl⟩ := nodeOf_id hn
          exact ⟨hmem, hdone.found _ (hperm.mem_iff.mp hid)⟩
        · rintro ⟨hmem, hin⟩
          exact ⟨n.id, hperm.mem_iff.mpr (hdone.done.mpr hin), nodeOf_self hproper.nodup hmem⟩
      · rw [List.mem_filter, decide_eq_true_eq, hdone.done, hdone.done]
    refine ⟨_, rfl, hbody, hbody.proper hproper ?_⟩
    show (((order.list l).filterMap g.nodeOf).map (·.id)).Nodup
    rw [hids, hperm.nodup_iff]
    exact hdone.once

end OpenAgent.Workflow
