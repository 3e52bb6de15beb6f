import OpenAgent.Workflow.Graph
import Mathlib.Data.List.Count
import Mathlib.Data.List.Perm.Basic

/-!
# The walk of a workflow

The walk runs ready nodes in batches. The edges that leave a node that ran, or one that is skipped, are
resolved one after another; a node that waits for no edge any more becomes ready if one of its edges was
taken, and otherwise dies and passes its own edges on.
-/

namespace OpenAgent.Workflow

open List

/-- What a node's handler comes to: it takes some of the node's handles, `none` for all of them, or it
aborts the walk. -/
inductive Outcome
  | taken (handles : Option (List String))
  | aborts

inductive WalkError
  | notInGraph (id : String)
  | notAnEntry (id : String)
  | blockFailed
deriving DecidableEq

inductive TraceStatus
  | ran | skipped
deriving DecidableEq

/-- The variables of `_walk`. `completed` holds the handles that each node took, `executed` is the history
of the calls of `_run_node`. -/
structure Walk where
  waitingOn : String → Int
  satCount : String → Nat := fun _ => 0
  completed : List (String × Option (List String)) := []
  dead : List String := []
  ready : List String := []
  executed : List String := []
  trace : List (String × TraceStatus) := []

def Walk.settled (s : Walk) (id : String) : Bool :=
  decide (id ∈ s.completed.map Prod.fst) || decide (id ∈ s.dead)

def routed (taken : Option (List String)) (e : Edge) : Bool :=
  match taken with
  | none => true
  | some handles => decide (e.handle ∈ handles)

def Walk.kill (s : Walk) (id : String) : Walk :=
  { s with dead := id :: s.dead, trace := s.trace ++ [(id, .skipped)] }

def Walk.count (s : Walk) (target : String) (satisfied : Bool) : Walk :=
  { s with
    waitingOn := Function.update s.waitingOn target (s.waitingOn target - 1)
    satCount := if satisfied then Function.update s.satCount target (s.satCount target + 1) else s.satCount }

theorem Walk.count_waitingOn (s : Walk) (target : String) (b : Bool) :
    (s.count target b).waitingOn target = s.waitingOn target - 1 :=
  Function.update_self ..

variable {id : String}

theorem Walk.count_waitingOn_of_ne (s : Walk) {target : String} (b : Bool) (h : id ≠ target) :
    (s.count target b).waitingOn id = s.waitingOn id :=
  Function.update_of_ne h ..

theorem Walk.count_satCount (s : Walk) (target : String) (b : Bool) :
    (s.count target b).satCount target = s.satCount target + if b then 1 else 0 := by
  cases b with
  | true => exact Function.update_self ..
  | false => rfl

theorem Walk.count_satCount_of_ne (s : Walk) {target : String} (b : Bool) (h : id ≠ target) :
    (s.count target b).satCount id = s.satCount id := by
  cases b with
  | true => exact Function.update_of_ne h ..
  | false => rfl

def Walk.promote (s : Walk) (id : String) : Walk :=
  if id ∈ s.ready then s else { s with ready := s.ready ++ [id] }

/-- `_resolve_edge` for one edge after another, for at most `fuel` edges. The edges of a node that dies
come before those that are left. -/
def resolveEdges (g : Graph) : Nat → Walk → List (Edge × Bool) → Option Walk
  | _, s, [] => some s
  | 0, _, _ :: _ => none
  | fuel + 1, s, (e, satisfied) :: agenda =>
    if s.settled e.target then resolveEdges g fuel s agenda
    else
      let s := s.count e.target satisfied
      if s.waitingOn e.target ≠ 0 then resolveEdges g fuel s agenda
      else if 0 < s.satCount e.target then resolveEdges g fuel (s.promote e.target) agenda
      else
        resolveEdges g fuel (s.kill e.target) ((g.outgoing e.target).map (fun d => (d, false)) ++ agenda)

def defaultEntries (g : Graph) : List String := g.ids.filter fun id => (g.incoming id).isEmpty

structure SetOrder where
  list : List String → List String
  perm : ∀ l, (list l).Perm l

def startWalk (g : Graph) (order : SetOrder) (entry : Option String) (fuel : Nat) :
    Option (Except WalkError Walk) :=
  let s : Walk := { waitingOn := fun id => (g.incoming id).length }
  match entry with
  | none => some (.ok { s with ready := defaultEntries g })
  | some id =>
    if id ∉ g.ids then some (.error (.notInGraph id))
    else if id ∉ defaultEntries g then some (.error (.notAnEntry id))
    else
      let siblings := (defaultEntries g).filter fun n => n ≠ id
      let s := { s with
        ready := [id]
        dead := order.list siblings
        trace := siblings.map fun n => (n, .skipped) }
      (resolveEdges g fuel s
        ((order.list siblings).flatMap fun n => (g.outgoing n).map fun e => (e, false))).map .ok

def settleBatch (g : Graph) (fuel : Nat) : Walk → List (String × Option (List String)) → Option Walk
  | s, [] => some s
  | s, (id, taken) :: rest =>
    (resolveEdges g fuel { s with completed := (id, taken) :: s.completed }
      ((g.outgoing id).map fun e => (e, routed taken e))).bind fun s => settleBatch g fuel s rest

/-- The handles that the nodes of a batch take, unless one of them aborts the walk. -/
def batchResults (outcome : String → Outcome) : List String → Option (List (String × Option (List String)))
  | [] => some []
  | id :: rest =>
    match outcome id with
    | .aborts => none
    | .taken handles => (batchResults outcome rest).map fun results => (id, handles) :: results

/-- The batches, at most `rounds` of them. -/
def walkBatches (g : Graph) (fuel : Nat) (outcome : Nat → String → Outcome) :
    Nat → Nat → Walk → Option (Except WalkError Walk)
  | 0, _, _ => none
  | rounds + 1, round, s =>
    let batch := s.ready.filter fun id => !s.settled id
    let s := { s with ready := [] }
    if batch.isEmpty then some (.ok s)
    else
      let s := { s with
        executed := s.executed ++ batch
        trace := s.trace ++ batch.map fun id => (id, .ran) }
      match batchResults (outcome round) batch with
      | none => some (.error .blockFailed)
      | some results =>
        (settleBatch g fuel s results).bind fun s => walkBatches g fuel outcome rounds (round + 1) s

def Walk.recordRest (s : Walk) (g : Graph) : Walk :=
  { s with
    trace := s.trace ++ (g.ids.filter fun id =>
      !s.settled id && !decide (id ∈ s.trace.map Prod.fst)).map fun id => (id, .skipped) }

/-- `_walk`. The outcome of a handler may depend on the batch. -/
def walk (g : Graph) (order : SetOrder) (entry : Option String) (outcome : Nat → String → Outcome)
    (fuel : Nat) : Option (Except WalkError Walk) :=
  match startWalk g order entry fuel with
  | none => none
  | some (.error e) => some (.error e)
  | some (.ok s) =>
    match walkBatches g fuel outcome fuel 0 s with
    | none => none
    | some (.error e) => some (.error e)
    | some (.ok s) => some (.ok (s.recordRest g))

/-! ### What is settled -/

theorem settled_kill (s : Walk) (t id : String) : (s.kill t).settled id = (s.settled id || decide (id = t)) := by
  show (decide (id ∈ s.completed.map Prod.fst) || decide (id ∈ t :: s.dead)) = _
  rw [Bool.eq_iff_iff, Walk.settled]
  simp only [mem_cons, Bool.or_eq_true, decide_eq_true_eq]
  tauto

def Walk.satisfied (s : Walk) (e : Edge) : Bool :=
  s.completed.any fun done => decide (done.1 = e.source) && routed done.2 e

def pending (g : Graph) (s : Walk) (agenda : List (Edge × Bool)) (id : String) : Nat :=
  (g.incoming id).countP (fun e => !s.settled e.source) + agenda.countP fun item => item.1.target = id

def chosen (g : Graph) (entry : Option String) (id : String) : Prop :=
  id ∈ defaultEntries g ∧ ∀ n, entry = some n → id = n

def Graph.loopsBack (g : Graph) (id : String) : Prop := ∃ e ∈ g.edges, g.exempt e = true ∧ e.source = id

/-- What holds while edges are resolved: `agenda` are the edges that are left, `todo` the nodes of the
batch that are not completed yet. -/
structure Inv (g : Graph) (entry : Option String) (s : Walk) (agenda : List (Edge × Bool))
    (todo : List String) : Prop where
  agenda_edges : ∀ item ∈ agenda, item.1 ∈ g.edges
  waiting : ∀ id, s.settled id = false → s.waitingOn id = pending g s agenda id
  counted : ∀ id, s.settled id = false → (g.incoming id).countP s.satisfied =
    s.satCount id + agenda.countP fun item => item.1.target = id && item.2
  free : ∀ id ∈ g.ids, s.settled id = false → (id ∈ s.ready ++ todo ↔ pending g s agenda id = 0)
  open_ids : ∀ id ∈ s.ready ++ todo, id ∈ g.ids ∧ s.settled id = false
  once : (s.ready ++ todo).Nodup
  fired : ∀ id, id ∈ s.ready ++ todo ∨ id ∈ s.completed.map Prod.fst →
    chosen g entry id ∨ ((∀ e ∈ g.incoming id, s.settled e.source = true) ∧
      ∃ e ∈ g.incoming id, s.satisfied e = true)
  started : ∀ id, chosen g entry id → id ∈ s.ready ++ todo ∨ id ∈ s.completed.map Prod.fst
  skipped : ∀ id ∈ s.dead, ∀ e ∈ g.incoming id, s.settled e.source = true ∧ s.satisfied e = false
  apart : ∀ id ∈ s.dead, id ∉ s.completed.map Prod.fst
  executed : s.executed.Nodup ∧ ∀ id, id ∈ s.executed ↔ id ∈ todo ∨ id ∈ s.completed.map Prod.fst
  stuck : ∀ id, g.loopsBack id → s.settled id = false

/-! ### Counting edges -/

theorem mem_incoming {g : Graph} {e : Edge} :
    e ∈ g.incoming id ↔ e ∈ g.edges ∧ e.target = id := by
  simp [Graph.incoming]

theorem mem_outgoing {g : Graph} {e : Edge} :
    e ∈ g.outgoing id ↔ e ∈ g.edges ∧ e.source = id := by
  simp [Graph.outgoing]

theorem countP_incoming (g : Graph) (t id : String) (p p' r : Edge → Bool)
    (hthere : ∀ e, e.source = t → p e = false ∧ p' e = r e) (helse : ∀ e, e.source ≠ t → p' e = p e) :
    (g.incoming id).countP p' =
      (g.incoming id).countP p + (g.outgoing t).countP fun e => decide (e.target = id) && r e := by
  rw [Graph.incoming, Graph.outgoing]
  induction g.edges with
  | nil => rfl
  | cons e rest ih =>
    by_cases hsource : e.source = t
    · obtain ⟨hp, hp'⟩ := hthere e hsource
      by_cases htarget : e.target = id
      · simp only [filter_cons, hsource, htarget, decide_true, if_true, countP_cons, hp, hp',
          Bool.true_and, Bool.false_eq_true, if_false, Nat.add_zero]
        omega
      · simp only [filter_cons, hsource, htarget, decide_true, decide_false, if_true,
          Bool.false_eq_true, if_false, countP_cons, Bool.false_and, Nat.add_zero]
        omega
    · have hp := helse e hsource
      by_cases htarget : e.target = id
      · simp only [filter_cons, hsource, htarget, decide_true, decide_false, if_true,
          Bool.false_eq_true, if_false, countP_cons, hp]
        omega
      · simp only [filter_cons, hsource, htarget, decide_false, Bool.false_eq_true, if_false]
        exact ih

theorem pending_cons (g : Graph) (s : Walk) (e : Edge) (b : Bool) (agenda : List (Edge × Bool))
    (id : String) : pending g s ((e, b) :: agenda) id =
      pending g s agenda id + if e.target = id then 1 else 0 := by
  simp only [pending, countP_cons, decide_eq_true_eq]
  omega

theorem settled_of_pending {g : Graph} {s : Walk} {agenda : List (Edge × Bool)}
    (h : pending g s agenda id = 0) : ∀ e ∈ g.incoming id, s.settled e.source = true := by
  intro e he
  have hzero : (g.incoming id).countP (fun e => !s.settled e.source) = 0 := by
    rw [pending] at h
    omega
  have hnot := List.countP_eq_zero.mp hzero e he
  simpa using hnot

theorem not_loopsBack {g : Graph} {s : Walk} {agenda : List (Edge × Bool)} (h : pending g s agenda id = 0)
    (hopen : s.settled id = false) : ¬ g.loopsBack id := by
  rintro ⟨e, he, hexempt, rfl⟩
  have htarget : e.target = e.source := by
    rw [Graph.exempt, Bool.and_eq_true] at hexempt
    exact of_decide_eq_true hexempt.2
  have hsettled := settled_of_pending h e (mem_incoming.mpr ⟨he, htarget⟩)
  simp [hopen] at hsettled

/-! ### Resolving one edge -/

variable {g : Graph} {entry : Option String} {s : Walk} {e : Edge} {b : Bool}
  {agenda : List (Edge × Bool)} {todo : List String}

theorem Inv.notReady (h : Inv g entry s ((e, b) :: agenda) todo) (hids : e.target ∈ g.ids)
    (hopen : s.settled e.target = false) : e.target ∉ s.ready ++ todo := by
  rw [h.free e.target hids hopen, pending_cons, if_pos rfl]
  exact Nat.succ_ne_zero _

theorem Inv.skip (h : Inv g entry s ((e, b) :: agenda) todo) (hsettled : s.settled e.target = true) :
    Inv g entry s agenda todo := by
  have hne : ∀ id, s.settled id = false → e.target ≠ id := by
    rintro id hopen rfl
    simp [hsettled] at hopen
  have hpending : ∀ id, s.settled id = false →
      pending g s ((e, b) :: agenda) id = pending g s agenda id := by
    intro id hopen
    rw [pending_cons, if_neg (hne id hopen), Nat.add_zero]
  refine { h with
    agenda_edges := fun item hitem => h.agenda_edges item (mem_cons_of_mem _ hitem)
    waiting := ?_
    counted := ?_
    free := ?_ }
  · intro id hopen
    rw [h.waiting id hopen, hpending id hopen]
  · intro id hopen
    rw [h.counted id hopen, countP_cons]
    simp [hne id hopen]
  · intro id hids hopen
    rw [h.free id hids hopen, hpending id hopen]

theorem Inv.counting (h : Inv g entry s ((e, b) :: agenda) todo) :
    (∀ id, s.settled id = false → (s.count e.target b).waitingOn id = pending g s agenda id) ∧
      (∀ id, s.settled id = false → (g.incoming id).countP s.satisfied =
        (s.count e.target b).satCount id + agenda.countP fun item => item.1.target = id && item.2) ∧
      ∀ id ∈ g.ids, s.settled id = false → id ≠ e.target →
        (id ∈ s.ready ++ todo ↔ pending g s agenda id = 0) := by
  refine ⟨?_, ?_, ?_⟩
  · intro id hid
    have hwait := h.waiting id hid
    rw [pending_cons] at hwait
    by_cases heq : id = e.target
    · rw [heq, if_pos rfl] at hwait
      rw [heq, Walk.count_waitingOn, hwait]
      omega
    · rw [Walk.count_waitingOn_of_ne s b heq, hwait, if_neg (Ne.symm heq), Nat.add_zero]
  · intro id hid
    have hcount := h.counted id hid
    rw [countP_cons] at hcount
    by_cases heq : id = e.target
    · rw [heq] at hcount ⊢
      simp only [decide_true, Bool.true_and] at hcount
      rw [Walk.count_satCount, hcount]
      omega
    · rw [decide_eq_false (Ne.symm heq), Bool.false_and] at hcount
      rw [Walk.count_satCount_of_ne s b heq, hcount]
      rfl
  · intro id hids hid heq
    rw [h.free id hids hid, pending_cons, if_neg (Ne.symm heq), Nat.add_zero]

theorem Inv.stay (h : Inv g entry s ((e, b) :: agenda) todo) (hids : e.target ∈ g.ids)
    (hopen : s.settled e.target = false) (hwaits : (s.count e.target b).waitingOn e.target ≠ 0) :
    Inv g entry (s.count e.target b) agenda todo := by
  obtain ⟨hwaiting, hcounted, hfree⟩ := h.counting
  have hnot := h.notReady hids hopen
  rw [hwaiting _ hopen] at hwaits
  refine { h with
    agenda_edges := fun item hitem => h.agenda_edges item (mem_cons_of_mem _ hitem)
    waiting := hwaiting
    counted := hcounted
    free := ?_ }
  intro id hid hidopen
  by_cases heq : id = e.target
  · rw [heq]
    exact iff_of_false hnot fun hzero => hwaits (congrArg Nat.cast hzero)
  · exact hfree id hid hidopen heq

theorem Inv.ready (h : Inv g entry s ((e, b) :: agenda) todo) (hids : e.target ∈ g.ids)
    (hopen : s.settled e.target = false) (hwaits : (s.count e.target b).waitingOn e.target = 0)
    (hsat : 0 < (s.count e.target b).satCount e.target) :
    Inv g entry ((s.count e.target b).promote e.target) agenda todo := by
  obtain ⟨hwaiting, hcounted, hfree⟩ := h.counting
  have hnot := h.notReady hids hopen
  have hzero : pending g s agenda e.target = 0 := by
    rw [hwaiting _ hopen] at hwaits
    omega
  have hready : (s.count e.target b).promote e.target =
      { s.count e.target b with ready := s.ready ++ [e.target] } := by
    rw [Walk.promote, if_neg]
    · rfl
    · exact fun hmem => hnot (mem_append_left _ hmem)
  have hmem : ∀ id, id ∈ (s.ready ++ [e.target]) ++ todo ↔ id ∈ s.ready ++ todo ∨ id = e.target := by
    intro id
    simp only [mem_append, mem_singleton]
    tauto
  rw [hready]
  refine { h with
    agenda_edges := fun item hitem => h.agenda_edges item (mem_cons_of_mem _ hitem)
    waiting := hwaiting
    counted := hcounted
    free := ?_
    open_ids := ?_
    once := ?_
    fired := ?_
    started := ?_ }
  · intro id hid hidopen
    rw [hmem]
    by_cases heq : id = e.target
    · rw [heq]
      exact iff_of_true (.inr rfl) hzero
    · exact ⟨fun hor => (hfree id hid hidopen heq).mp (hor.resolve_right heq),
        fun hz => .inl ((hfree id hid hidopen heq).mpr hz)⟩
  · intro id hid
    rcases (hmem id).mp hid with hid | rfl
    · exact h.open_ids id hid
    · exact ⟨hids, hopen⟩
  · have hperm : (s.ready ++ [e.target] ++ todo).Perm (e.target :: (s.ready ++ todo)) := by
      rw [append_assoc]
      exact perm_middle
    exact hperm.nodup_iff.mpr (List.nodup_cons.mpr ⟨hnot, h.once⟩)
  · intro id hid
    by_cases heq : id = e.target
    · right
      rw [heq]
      refine ⟨settled_of_pending hzero, ?_⟩
      have hcount := hcounted _ hopen
      obtain ⟨d, hd, hsatd⟩ := List.countP_pos_iff.mp (by omega : 0 < (g.incoming e.target).countP s.satisfied)
      exact ⟨d, hd, hsatd⟩
    · apply h.fired id
      rcases hid with hid | hid
      · exact .inl (((hmem id).mp hid).resolve_right heq)
      · exact .inr hid
  · intro id hid
    rcases h.started id hid with hid | hid
    · exact .inl ((hmem id).mpr (.inl hid))
    · exact .inr hid

theorem Inv.die (h : Inv g entry s ((e, b) :: agenda) todo) (hids : e.target ∈ g.ids)
    (hopen : s.settled e.target = false) (hwaits : (s.count e.target b).waitingOn e.target = 0)
    (hsat : ¬ 0 < (s.count e.target b).satCount e.target) :
    Inv g entry ((s.count e.target b).kill e.target)
      ((g.outgoing e.target).map (fun d => (d, false)) ++ agenda) todo := by
  obtain ⟨hwaiting, hcounted, hfree⟩ := h.counting
  have hnot := h.notReady hids hopen
  have hzero : pending g s agenda e.target = 0 := by
    rw [hwaiting _ hopen] at hwaits
    omega
  have hsettled : ∀ id, ((s.count e.target b).kill e.target).settled id =
      (s.settled id || decide (id = e.target)) :=
    fun id => settled_kill (s.count e.target b) e.target id
  have hstill : ∀ id, ((s.count e.target b).kill e.target).settled id = false →
      s.settled id = false ∧ id ≠ e.target := by
    intro id hid
    rw [hsettled, Bool.or_eq_false_iff] at hid
    exact ⟨hid.1, of_decide_eq_false hid.2⟩
  have hgrow : ∀ id, s.settled id = true → ((s.count e.target b).kill e.target).settled id = true := by
    intro id hid
    rw [hsettled, hid, Bool.true_or]
  have hpending : ∀ id, pending g ((s.count e.target b).kill e.target)
      ((g.outgoing e.target).map (fun d => (d, false)) ++ agenda) id = pending g s agenda id := by
    intro id
    have hcount := countP_incoming g e.target id
      (fun d => !((s.count e.target b).kill e.target).settled d.source)
      (fun d => !s.settled d.source) (fun _ => true)
      (by
        intro d hd
        simp only [hsettled, hd, hopen]
        decide)
      (by
        intro d hd
        simp only [hsettled, decide_eq_false hd, Bool.or_false])
    rw [pending, pending, countP_append, countP_map, hcount]
    simp only [Function.comp_def, Bool.and_true]
    omega
  have hnone : ∀ d ∈ g.incoming e.target, s.satisfied d = false := by
    have hcount := hcounted _ hopen
    have hagenda : (agenda.countP fun item => decide (item.1.target = e.target) && item.2) = 0 := by
      apply List.countP_eq_zero.mpr
      intro item hitem
      have hmiss : (agenda.countP fun item => decide (item.1.target = e.target)) = 0 := by
        rw [pending] at hzero
        omega
      have hne := List.countP_eq_zero.mp hmiss item hitem
      simp only [Bool.and_eq_true, not_and]
      exact fun heq => absurd heq hne
    intro d hd
    have hall : (g.incoming e.target).countP s.satisfied = 0 := by omega
    exact Bool.eq_false_iff.mpr (List.countP_eq_zero.mp hall d hd)
  have hloop := not_loopsBack hzero hopen
  constructor
  · intro item hitem
    rcases List.mem_append.mp hitem with hitem | hitem
    · obtain ⟨d, hd, rfl⟩ := List.mem_map.mp hitem
      exact (mem_outgoing.mp hd).1
    · exact h.agenda_edges item (mem_cons_of_mem _ hitem)
  · intro id hid
    rw [hpending]
    exact hwaiting id (hstill id hid).1
  · intro id hid
    have hcount := hcounted id (hstill id hid).1
    rw [countP_append, countP_map]
    have hfalse : (g.outgoing e.target).countP
        ((fun item : Edge × Bool => decide (item.1.target = id) && item.2) ∘ fun d => (d, false)) = 0 := by
      apply List.countP_eq_zero.mpr
      intro d _
      simp
    rw [hfalse, Nat.zero_add]
    exact hcount
  · intro id hids' hid
    rw [hpending]
    exact hfree id hids' (hstill id hid).1 (hstill id hid).2
  · intro id hid
    obtain ⟨hids', hopen'⟩ := h.open_ids id hid
    refine ⟨hids', ?_⟩
    rw [hsettled, hopen', Bool.false_or, decide_eq_false]
    rintro rfl
    exact hnot hid
  · exact h.once
  · intro id hid
    rcases h.fired id hid with hchosen | ⟨hall, hone⟩
    · exact .inl hchosen
    · exact .inr ⟨fun d hd => hgrow _ (hall d hd), hone⟩
  · exact h.started
  · intro id hid d hd
    rcases List.mem_cons.mp hid with rfl | hid
    · exact ⟨hgrow _ (settled_of_pending hzero d hd), hnone d hd⟩
    · obtain ⟨hsource, hunsat⟩ := h.skipped id hid d hd
      exact ⟨hgrow _ hsource, hunsat⟩
  · intro id hid
    rcases List.mem_cons.mp hid with rfl | hid
    · rw [Walk.settled, Bool.or_eq_false_iff] at hopen
      exact of_decide_eq_false hopen.1
    · exact h.apart id hid
  · exact h.executed
  · intro id hid
    rw [hsettled, h.stuck id hid, Bool.false_or, decide_eq_false]
    rintro rfl
    exact hloop hid

theorem countP_source (g : Graph) {out : List String} (hnew : id ∉ out) :
    (g.edges.countP fun e => decide (e.source ∉ id :: out)) + (g.outgoing id).length =
      g.edges.countP fun e => decide (e.source ∉ out) := by
  rw [Graph.outgoing]
  induction g.edges with
  | nil => rfl
  | cons d rest ih =>
    by_cases hsource : d.source = id
    · simp only [countP_cons, filter_cons, hsource, decide_true, if_true, length_cons,
        mem_cons, true_or, not_true_eq_false, decide_false, Bool.false_eq_true, if_false,
        hnew, not_false_eq_true] at ih ⊢
      omega
    · simp only [countP_cons, filter_cons, hsource, decide_false, Bool.false_eq_true, if_false,
        mem_cons, false_or] at ih ⊢
      omega

def openEdges (g : Graph) (s : Walk) : Nat := g.edges.countP fun e => decide (e.source ∉ s.dead)

theorem openEdges_kill (g : Graph) (s : Walk) (hopen : id ∉ s.dead) :
    openEdges g (s.kill id) + (g.outgoing id).length = openEdges g s :=
  countP_source g hopen

theorem resolveEdges_inv (hsound : Sound g) {fuel : Nat} (h : Inv g entry s agenda todo)
    (hfuel : agenda.length + openEdges g s ≤ fuel) :
    ∃ t, resolveEdges g fuel s agenda = some t ∧ Inv g entry t [] todo ∧ t.executed = s.executed := by
  induction fuel generalizing s agenda with
  | zero =>
    cases agenda with
    | nil => exact ⟨s, by rw [resolveEdges], h, rfl⟩
    | cons item rest =>
      rw [length_cons] at hfuel
      omega
  | succ fuel ih =>
    cases agenda with
    | nil => exact ⟨s, by rw [resolveEdges], h, rfl⟩
    | cons item rest =>
      obtain ⟨e, b⟩ := item
      have hids : e.target ∈ g.ids := (hsound.ends e (h.agenda_edges _ mem_cons_self)).2
      rw [length_cons] at hfuel
      rw [resolveEdges]
      cases hsettled : s.settled e.target with
      | true => exact ih (h.skip hsettled) (by omega)
      | false =>
        simp only [Bool.false_eq_true, if_false]
        split
        · rename_i hwaits
          exact ih (h.stay hids hsettled hwaits) (by show rest.length + openEdges g s ≤ fuel; omega)
        · rename_i hwaits
          split
          · rename_i hsat
            have hready := h.ready hids hsettled (not_not.mp hwaits) hsat
            have hdead : ((s.count e.target b).promote e.target).dead = s.dead := by
              rw [Walk.promote]
              split <;> rfl
            have hran : ((s.count e.target b).promote e.target).executed = s.executed := by
              rw [Walk.promote]
              split <;> rfl
            have hopen : openEdges g ((s.count e.target b).promote e.target) = openEdges g s := by
              rw [openEdges, hdead, openEdges]
            obtain ⟨t, ht, hinv, hexecuted⟩ := ih hready (by omega)
            exact ⟨t, ht, hinv, hexecuted.trans hran⟩
          · rename_i hsat
            have hdead : e.target ∉ s.dead := by
              rw [Walk.settled, Bool.or_eq_false_iff] at hsettled
              exact of_decide_eq_false hsettled.2
            have hless := openEdges_kill g (s.count e.target b) hdead
            have hsame : openEdges g (s.count e.target b) = openEdges g s := rfl
            obtain ⟨t, ht, hinv, hexecuted⟩ := ih (h.die hids hsettled (not_not.mp hwaits) hsat) (by
              rw [length_append, length_map]
              omega)
            exact ⟨t, ht, hinv, hexecuted⟩

/-! ### A batch -/

theorem openEdges_le (g : Graph) (s : Walk) : openEdges g s ≤ g.edges.length := countP_le_length

theorem length_outgoing_le (g : Graph) (id : String) : (g.outgoing id).length ≤ g.edges.length :=
  length_filter_le _ _

theorem Inv.complete {taken : Option (List String)} (h : Inv g entry s [] (id :: todo)) :
    Inv g entry { s with completed := (id, taken) :: s.completed }
      ((g.outgoing id).map fun e => (e, routed taken e)) todo := by
  have hmem : id ∈ s.ready ++ id :: todo := mem_append_right _ mem_cons_self
  obtain ⟨hids, hopen⟩ := h.open_ids id hmem
  have hzero := (h.free id hids hopen).mp hmem
  have hopen' := hopen
  rw [Walk.settled, Bool.or_eq_false_iff] at hopen'
  have hfresh : id ∉ s.completed.map Prod.fst := of_decide_eq_false hopen'.1
  have halive : id ∉ s.dead := of_decide_eq_false hopen'.2
  generalize ht : ({ s with completed := (id, taken) :: s.completed } : Walk) = t
  have hcompleted : ∀ other, other ∈ t.completed.map Prod.fst ↔
      other = id ∨ other ∈ s.completed.map Prod.fst := by
    intro other
    rw [← ht, map_cons, mem_cons]
  have hsettled : ∀ other, t.settled other = (s.settled other || decide (other = id)) := by
    intro other
    have hdead : t.dead = s.dead := by rw [← ht]
    rw [Bool.eq_iff_iff, Walk.settled, Walk.settled, hdead]
    simp only [Bool.or_eq_true, decide_eq_true_eq, hcompleted]
    tauto
  have hsatisfied : ∀ e, t.satisfied e = (decide (id = e.source) && routed taken e || s.satisfied e) := by
    intro e
    rw [← ht]
    rfl
  have hunsat : ∀ e : Edge, e.source = id → s.satisfied e = false := by
    intro e he
    apply Bool.eq_false_iff.mpr
    intro hsat
    obtain ⟨done, hdone, heq⟩ := List.any_eq_true.mp hsat
    rw [Bool.and_eq_true, decide_eq_true_eq] at heq
    apply hfresh
    rw [← he, ← heq.1]
    exact mem_map_of_mem hdone
  have hstill : ∀ other, t.settled other = false → s.settled other = false ∧ other ≠ id := by
    intro other hother
    rw [hsettled, Bool.or_eq_false_iff] at hother
    exact ⟨hother.1, of_decide_eq_false hother.2⟩
  have hgrow : ∀ other, s.settled other = true → t.settled other = true := by
    intro other hother
    rw [hsettled, hother, Bool.true_or]
  have hpending : ∀ other, pending g t ((g.outgoing id).map fun e => (e, routed taken e)) other =
      pending g s [] other := by
    intro other
    have hcount := countP_incoming g id other (fun d => !t.settled d.source)
      (fun d => !s.settled d.source) (fun _ => true)
      (by
        intro d hd
        simp only [hsettled, hd, hopen]
        decide)
      (by
        intro d hd
        simp only [hsettled, decide_eq_false hd, Bool.or_false])
    rw [pending, pending, countP_map, countP_nil, hcount]
    simp only [Function.comp_def, Bool.and_true]
    omega
  have hiff : ∀ other, other ≠ id → (other ∈ s.ready ++ todo ↔ other ∈ s.ready ++ id :: todo) := by
    intro other hne
    simp [hne]
  have hready : t.ready = s.ready := by rw [← ht]
  have honce : (id :: (s.ready ++ todo)).Nodup := List.perm_middle.nodup_iff.mp h.once
  have hrest := (List.nodup_cons.mp honce)
  constructor
  · intro item hitem
    obtain ⟨d, hd, rfl⟩ := List.mem_map.mp hitem
    exact (mem_outgoing.mp hd).1
  · intro other hother
    rw [hpending, ← h.waiting other (hstill other hother).1, ← ht]
  · intro other hother
    have hcount := countP_incoming g id other s.satisfied t.satisfied (routed taken)
      (by
        intro d hd
        refine ⟨hunsat d hd, ?_⟩
        rw [hsatisfied, hunsat d hd, hd, decide_eq_true rfl, Bool.true_and, Bool.or_false])
      (by
        intro d hd
        rw [hsatisfied, decide_eq_false (Ne.symm hd), Bool.false_and, Bool.false_or])
    have hbefore := h.counted other (hstill other hother).1
    rw [countP_nil, Nat.add_zero] at hbefore
    have hsat : t.satCount = s.satCount := by rw [← ht]
    rw [hcount, hbefore, countP_map, hsat]
    rfl
  · intro other hids' hother
    rw [hpending, hready, hiff other (hstill other hother).2]
    exact h.free other hids' (hstill other hother).1
  · intro other hother
    rw [hready] at hother
    have hne : other ≠ id := by
      rintro rfl
      exact hrest.1 hother
    obtain ⟨hids', hopen''⟩ := h.open_ids other ((hiff other hne).mp hother)
    refine ⟨hids', ?_⟩
    rw [hsettled, hopen'', decide_eq_false hne]
    rfl
  · rw [hready]
    exact hrest.2
  · intro other hother
    have hbefore : other ∈ s.ready ++ id :: todo ∨ other ∈ s.completed.map Prod.fst := by
      rcases hother with hother | hother
      · left
        rw [hready] at hother
        rcases List.mem_append.mp hother with hother | hother
        · exact mem_append_left _ hother
        · exact mem_append_right _ (mem_cons_of_mem id hother)
      · rcases (hcompleted other).mp hother with rfl | hother
        · exact .inl hmem
        · exact .inr hother
    rcases h.fired other hbefore with hchosen | ⟨hall, d, hd, hsat⟩
    · exact .inl hchosen
    · refine .inr ⟨fun d hd => hgrow _ (hall d hd), d, hd, ?_⟩
      rw [hsatisfied, hsat, Bool.or_true]
  · intro other hother
    rw [hready, hcompleted]
    by_cases heq : other = id
    · exact .inr (.inl heq)
    · rcases h.started other hother with hother | hother
      · exact .inl ((hiff other heq).mpr hother)
      · exact .inr (.inr hother)
  · intro other hother d hd
    have hdead : other ∈ s.dead := by
      rw [← ht] at hother
      exact hother
    obtain ⟨hsource, hunsatd⟩ := h.skipped other hdead d hd
    refine ⟨hgrow _ hsource, ?_⟩
    have hne : d.source ≠ id := by
      intro heq
      simp [heq, hopen] at hsource
    rw [hsatisfied, hunsatd, decide_eq_false (Ne.symm hne)]
    rfl
  · intro other hother
    have hdead : other ∈ s.dead := by
      rw [← ht] at hother
      exact hother
    rw [hcompleted]
    rintro (rfl | hmem')
    · exact halive hdead
    · exact h.apart other hdead hmem'
  · obtain ⟨hnodup, hexecuted⟩ := h.executed
    have hran : t.executed = s.executed := by rw [← ht]
    rw [hran]
    refine ⟨hnodup, fun other => ?_⟩
    rw [hexecuted, hcompleted, mem_cons]
    tauto
  · intro other hother
    rw [hsettled, h.stuck other hother, decide_eq_false]
    · rfl
    · rintro rfl
      exact not_loopsBack hzero hopen hother

theorem settleBatch_inv (hsound : Sound g) {fuel : Nat} (hfuel : 2 * g.edges.length ≤ fuel)
    {results : List (String × Option (List String))} (h : Inv g entry s [] (results.map Prod.fst)) :
    ∃ t, settleBatch g fuel s results = some t ∧ Inv g entry t [] [] ∧ t.executed = s.executed := by
  induction results generalizing s with
  | nil => exact ⟨s, rfl, h, rfl⟩
  | cons result rest ih =>
    obtain ⟨id, taken⟩ := result
    have hcomplete : Inv g entry { s with completed := (id, taken) :: s.completed }
        ((g.outgoing id).map fun e => (e, routed taken e)) (rest.map Prod.fst) := h.complete
    have hopen := openEdges_le g { s with completed := (id, taken) :: s.completed }
    have hlen := length_outgoing_le g id
    have hsum := Nat.add_le_add hlen hopen
    obtain ⟨m, hm, hinv, hran⟩ := @resolveEdges_inv _ _ _ _ _ hsound fuel hcomplete
      (by rw [length_map]; omega)
    obtain ⟨t, ht, hinv', hran'⟩ := ih hinv
    refine ⟨t, ?_, hinv', hran'.trans hran⟩
    rw [settleBatch, hm]
    exact ht

theorem batchResults_ids {outcome : String → Outcome} {batch : List String}
    {results : List (String × Option (List String))} (h : batchResults outcome batch = some results) :
    results.map Prod.fst = batch := by
  induction batch generalizing results with
  | nil =>
    cases h
    rfl
  | cons id rest ih =>
    rw [batchResults] at h
    cases hout : outcome id with
    | aborts =>
      simp [hout] at h
    | taken handles =>
      rw [hout] at h
      obtain ⟨more, hmore, rfl⟩ := Option.map_eq_some_iff.mp h
      rw [map_cons, ih hmore]

theorem Inv.batch (h : Inv g entry s [] []) : (s.ready.filter fun id => !s.settled id) = s.ready := by
  apply List.filter_eq_self.mpr
  intro id hid
  rw [(h.open_ids id (by rwa [append_nil])).2]
  rfl

theorem Inv.begin (h : Inv g entry s [] []) (trace : List (String × TraceStatus)) :
    Inv g entry { s with ready := [], executed := s.executed ++ s.ready, trace := trace } [] s.ready := by
  have hsame : ∀ id, id ∈ [] ++ s.ready ↔ id ∈ s.ready ++ [] := by
    intro id
    rw [nil_append, append_nil]
  obtain ⟨hnodup, hexecuted⟩ := h.executed
  refine { h with
    free := ?_
    open_ids := fun id hid => h.open_ids id ((hsame id).mp hid)
    once := ?_
    fired := ?_
    started := ?_
    executed := ?_ }
  · intro id hids hopen
    rw [hsame]
    exact h.free id hids hopen
  · rw [nil_append, ← append_nil s.ready]
    exact h.once
  · intro id hid
    rw [hsame] at hid
    exact h.fired id hid
  · intro id hid
    rw [hsame]
    exact h.started id hid
  · constructor
    · apply List.Nodup.append hnodup
      · rw [← append_nil s.ready]
        exact h.once
      · intro id hran hready
        have hopen := (h.open_ids id (by rwa [append_nil])).2
        rw [Walk.settled, Bool.or_eq_false_iff] at hopen
        rcases (hexecuted id).mp hran with hmem | hmem
        · exact not_mem_nil hmem
        · exact of_decide_eq_false hopen.1 hmem
    · intro id
      rw [mem_append, hexecuted]
      simp only [not_mem_nil, false_or]
      tauto

theorem Inv.executed_ids (hsound : Sound g) (h : Inv g entry s [] todo) : ∀ id ∈ s.executed, id ∈ g.ids := by
  intro id hid
  rcases (h.executed.2 id).mp hid with hid | hid
  · exact (h.open_ids id (mem_append_right _ hid)).1
  · rcases h.fired id (.inr hid) with ⟨hentry, -⟩ | ⟨-, e, he, -⟩
    · exact mem_of_mem_filter hentry
    · obtain ⟨hedge, rfl⟩ := mem_incoming.mp he
      exact (hsound.ends e hedge).2

/-- The batches come to an end, and unless one of them aborts the walk nothing is ready any more. -/
theorem walkBatches_inv (hsound : Sound g) {fuel : Nat} (hfuel : 2 * g.edges.length ≤ fuel)
    (outcome : Nat → String → Outcome) {rounds : Nat} (h : Inv g entry s [] [])
    (hrounds : g.ids.length < s.executed.length + rounds) (round : Nat) :
    ∃ r, walkBatches g fuel outcome rounds round s = some r ∧
      ∀ t, r = .ok t → Inv g entry t [] [] ∧ t.ready = [] := by
  have hle : s.executed.length ≤ g.ids.length :=
    (subperm_of_subset h.executed.1 (h.executed_ids hsound)).length_le
  induction rounds generalizing s round with
  | zero => omega
  | succ rounds ih =>
    rw [walkBatches]
    simp only [h.batch]
    cases hready : s.ready with
    | nil =>
      refine ⟨_, rfl, ?_⟩
      intro t ht
      cases ht
      have hsame : { s with ready := [] } = s := by rw [← hready]
      rw [hsame]
      exact ⟨h, hready⟩
    | cons id rest =>
      simp only [isEmpty_cons, Bool.false_eq_true, if_false]
      cases hresults : batchResults (outcome round) (id :: rest) with
      | none => exact ⟨_, rfl, fun t ht => by cases ht⟩
      | some results =>
        have hbegin := h.begin (s.trace ++ (id :: rest).map fun id => (id, TraceStatus.ran))
        rw [hready, ← batchResults_ids hresults] at hbegin
        obtain ⟨m, hm, hinv, hran⟩ := settleBatch_inv hsound hfuel hbegin
        rw [batchResults_ids hresults] at hm hran
        have hlonger : m.executed.length = s.executed.length + (id :: rest).length := by
          rw [hran, length_append]
        rw [length_cons] at hlonger
        have hle' : m.executed.length ≤ g.ids.length :=
          (subperm_of_subset hinv.executed.1 (hinv.executed_ids hsound)).length_le
        obtain ⟨r, hr, hok⟩ := ih hinv (by omega) (round + 1) hle'
        refine ⟨r, ?_, hok⟩
        simp only [hm, Option.bind_some]
        exact hr

end OpenAgent.Workflow
