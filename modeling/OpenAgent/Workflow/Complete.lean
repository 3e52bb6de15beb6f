import OpenAgent.Workflow.Walk

/-!
# Walks are complete

A node that is left waiting at the end of a walk waits for another that is left waiting. All edges but
those from the body of a loop to the loop itself go up in some order, so at the bottom of the chain stands
such a loop.
-/

namespace OpenAgent.Workflow

open List Bool Option

variable {g : Graph} {entry : Option String}

/-! ### The start -/

theorem mem_defaultEntries {id : String} : id ∈ defaultEntries g ↔ id ∈ g.ids ∧ g.incoming id = [] := by
  simp [defaultEntries]

theorem length_agenda (g : Graph) (s : Walk) {dead : List String} (hnodup : dead.Nodup) :
    (dead.flatMap fun n => (g.outgoing n).map fun e => (e, false)).length +
      openEdges g { s with dead := dead } = g.edges.length := by
  induction dead with
  | nil =>
    have hall : openEdges g { s with dead := [] } = g.edges.length := by
      apply List.countP_eq_length.mpr
      intro e _
      exact decide_eq_true not_mem_nil
    rw [hall]
    exact Nat.zero_add _
  | cons id rest ih =>
    obtain ⟨hnew, hrest⟩ := List.nodup_cons.mp hnodup
    have hkill := openEdges_kill g { s with dead := rest } hnew
    have hsame : openEdges g ({ s with dead := rest }.kill id) = openEdges g { s with dead := id :: rest } := rfl
    have hlen := ih hrest
    rw [flatMap_cons, length_append, length_map]
    omega

theorem countP_agenda (g : Graph) (s : Walk) {dead : List String} (hnodup : dead.Nodup)
    (hnone : s.completed = []) (id : String) :
    pending g { s with dead := dead }
      (dead.flatMap fun n => (g.outgoing n).map fun e => (e, false)) id = (g.incoming id).length := by
  induction dead with
  | nil =>
    rw [pending, flatMap_nil, countP_nil, Nat.add_zero]
    apply List.countP_eq_length.mpr
    intro e _
    simp [Walk.settled, hnone]
  | cons n rest ih =>
    obtain ⟨hnew, hrest⟩ := List.nodup_cons.mp hnodup
    have hopen : ({ s with dead := rest } : Walk).settled n = false := by
      simp [Walk.settled, hnone, hnew]
    have hcount := countP_incoming g n id
      (fun d => !({ s with dead := n :: rest } : Walk).settled d.source)
      (fun d => !({ s with dead := rest } : Walk).settled d.source) (fun _ => true)
      (by
        intro d hd
        simp [Walk.settled, hnone, hd, hnew])
      (by
        intro d hd
        simp [Walk.settled, hnone, hd])
    have hbefore := ih hrest
    rw [pending, hcount] at hbefore
    rw [pending, flatMap_cons, countP_append, countP_map]
    simp only [Function.comp_def, Bool.and_true] at hbefore ⊢
    omega

theorem startWalk_inv (hsound : Sound g) (order : SetOrder) {fuel : Nat} (hfuel : g.edges.length ≤ fuel) :
    ∃ r, startWalk g order entry fuel = some r ∧ ∀ s, r = .ok s → Inv g entry s [] [] := by
  have hdefaults : (defaultEntries g).Nodup := hsound.nodup.filter _
  have hcomplete : ∀ {id : String}, g.loopsBack id → g.incoming id ≠ [] := by
    rintro id ⟨e, he, hexempt, rfl⟩
    rw [Graph.exempt, Bool.and_eq_true] at hexempt
    exact ne_nil_of_mem (mem_incoming.mpr ⟨he, of_decide_eq_true hexempt.2⟩)
  cases entry with
  | none =>
    refine ⟨_, rfl, ?_⟩
    intro s hs
    cases hs
    have hpending : ∀ id, pending g { waitingOn := fun id => (g.incoming id).length, ready := defaultEntries g }
        [] id = (g.incoming id).length :=
      fun id => countP_agenda g { waitingOn := fun id => (g.incoming id).length, ready := defaultEntries g }
        nodup_nil rfl id
    constructor
    · exact fun item hitem => absurd hitem not_mem_nil
    · intro id _
      rw [hpending]
    · intro id _
      rw [countP_nil]
      exact List.countP_eq_zero.mpr fun e _ => false_ne_true
    · intro id hids _
      rw [append_nil, hpending, mem_defaultEntries, length_eq_zero_iff]
      exact ⟨And.right, fun h => ⟨hids, h⟩⟩
    · intro id hid
      rw [append_nil] at hid
      exact ⟨(mem_defaultEntries.mp hid).1, rfl⟩
    · rw [append_nil]
      exact hdefaults
    · intro id hid
      rw [append_nil] at hid
      rcases hid with hid | hid
      · exact .inl ⟨hid, fun n hn => by cases hn⟩
      · exact absurd hid not_mem_nil
    · intro id hid
      rw [append_nil]
      exact .inl hid.1
    · exact fun id hid => absurd hid not_mem_nil
    · exact fun id hid => absurd hid not_mem_nil
    · exact ⟨nodup_nil, fun id => by simp⟩
    · exact fun id _ => rfl
  | some n =>
    rw [startWalk]
    simp only
    split
    · exact ⟨_, rfl, fun s hs => by cases hs⟩
    · split
      · exact ⟨_, rfl, fun s hs => by cases hs⟩
      · rename_i hn
        have hn := not_not.mp hn
        generalize hsiblings : ((defaultEntries g).filter fun m => m ≠ n) = siblings
        have hperm := order.perm siblings
        have hmem : ∀ id, id ∈ order.list siblings ↔ id ∈ defaultEntries g ∧ id ≠ n := by
          intro id
          rw [hperm.mem_iff, ← hsiblings, List.mem_filter, decide_eq_true_eq]
        have hnodup : (order.list siblings).Nodup := by
          rw [hperm.nodup_iff, ← hsiblings]
          exact hdefaults.filter _
        generalize htrace : (siblings.map fun m => (m, TraceStatus.skipped)) = trace
        have hpending := countP_agenda g
          { waitingOn := fun id => (g.incoming id).length, ready := [n], trace := trace } hnodup rfl
        have hopen := length_agenda g
          { waitingOn := fun id => (g.incoming id).length, ready := [n], trace := trace } hnodup
        have hstart : Inv g (some n)
            { waitingOn := fun id => (g.incoming id).length, ready := [n], dead := order.list siblings,
              trace := trace }
            ((order.list siblings).flatMap fun m => (g.outgoing m).map fun e => (e, false)) [] := by
          constructor
          · intro item hitem
            obtain ⟨m, -, hitem⟩ := List.mem_flatMap.mp hitem
            obtain ⟨e, he, rfl⟩ := List.mem_map.mp hitem
            exact (mem_outgoing.mp he).1
          · intro id _
            rw [hpending]
          · intro id _
            have hleft : (g.incoming id).countP (Walk.satisfied
                { waitingOn := fun id => (g.incoming id).length, ready := [n], dead := order.list siblings,
                  trace := trace }) = 0 :=
              List.countP_eq_zero.mpr fun e _ => false_ne_true
            have hright : (((order.list siblings).flatMap fun m => (g.outgoing m).map fun e => (e, false)).countP
                fun item : Edge × Bool => decide (item.1.target = id) && item.2) = 0 := by
              apply List.countP_eq_zero.mpr
              intro item hitem
              obtain ⟨m, -, hitem⟩ := List.mem_flatMap.mp hitem
              obtain ⟨e, -, rfl⟩ := List.mem_map.mp hitem
              rw [Bool.and_false]
              exact false_ne_true
            rw [hleft, hright]
          · intro id hids hid
            rw [append_nil, hpending, length_eq_zero_iff, mem_singleton]
            constructor
            · rintro rfl
              exact (mem_defaultEntries.mp hn).2
            · intro hnone
              by_contra hne
              have hdead : id ∈ order.list siblings :=
                (hmem id).mpr ⟨mem_defaultEntries.mpr ⟨hids, hnone⟩, hne⟩
              simp [Walk.settled, hdead] at hid
          · intro id hid
            rw [append_nil] at hid
            cases List.mem_singleton.mp hid
            refine ⟨(mem_defaultEntries.mp hn).1, ?_⟩
            simp [Walk.settled, hmem]
          · exact nodup_singleton n
          · intro id hid
            rw [append_nil] at hid
            rcases hid with hid | hid
            · cases List.mem_singleton.mp hid
              exact .inl ⟨hn, fun m hm => some.inj hm⟩
            · exact absurd hid not_mem_nil
          · intro id hid
            left
            rw [hid.2 n rfl]
            exact mem_cons_self
          · intro id hid e he
            rw [(mem_defaultEntries.mp ((hmem id).mp hid).1).2] at he
            exact absurd he not_mem_nil
          · exact fun id _ => not_mem_nil
          · exact ⟨nodup_nil, fun id => by simp⟩
          · intro id hid
            have hnot : id ∉ order.list siblings := by
              intro hdead
              exact hcomplete hid (mem_defaultEntries.mp ((hmem id).mp hdead).1).2
            simp [Walk.settled, hnot]
        obtain ⟨t, ht, hinv, -⟩ := @resolveEdges_inv _ _ _ _ _ hsound fuel hstart
          (Nat.le_trans (Nat.le_of_eq hopen) hfuel)
        rw [ht]
        refine ⟨_, rfl, ?_⟩
        intro s hs
        cases hs
        exact hinv

/-! ### The end -/

/-- The nodes that `_extract_body_subgraph` collects for a loop. -/
inductive InBody (g : Graph) (loop : String) : String → Prop
  | root {e : Edge} (he : e ∈ g.edges) (hsource : e.source = loop) (hhandle : e.handle = "body")
      (hapart : e.target ≠ loop) : InBody g loop e.target
  | next {e : Edge} (he : e ∈ g.edges) (hsource : InBody g loop e.source) (hapart : e.target ≠ loop) :
      InBody g loop e.target

def InLoopBody (g : Graph) (id : String) : Prop := ∃ loop, g.isLoop loop = true ∧ InBody g loop id

/-- What became of a node at the end of a walk: it ran once at most, it ran just when the walk started
there or all its edges were resolved and one of them was taken, and it is not left waiting. -/
structure Complete (g : Graph) (entry : Option String) (s : Walk) (id : String) : Prop where
  once : s.executed.count id ≤ 1
  ran : id ∈ s.executed ↔ chosen g entry id ∨
    ((∀ e ∈ g.incoming id, s.settled e.source = true) ∧ ∃ e ∈ g.incoming id, s.satisfied e = true)
  finished : s.settled id = true

/-- At the end of a walk that is not aborted, each node ran as its edges say, and a node that is left
waiting waits for another one. -/
structure Ended (g : Graph) (entry : Option String) (s : Walk) : Prop where
  once : ∀ id, s.executed.count id ≤ 1
  ran : ∀ id ∈ g.ids, id ∈ s.executed ↔ chosen g entry id ∨
    ((∀ e ∈ g.incoming id, s.settled e.source = true) ∧ ∃ e ∈ g.incoming id, s.satisfied e = true)
  left : ∀ id ∈ g.ids, s.settled id = false → ∃ e ∈ g.incoming id, s.settled e.source = false
  stuck : ∀ id, g.loopsBack id → s.settled id = false

theorem ended_of_inv {s : Walk} (h : Inv g entry s [] []) (hready : s.ready = []) : Ended g entry s := by
  have hexecuted : ∀ id, id ∈ s.executed ↔ id ∈ s.completed.map Prod.fst := by
    intro id
    rw [h.executed.2]
    simp
  have hfree : ∀ id ∈ g.ids, s.settled id = false → pending g s [] id ≠ 0 := by
    intro id hids hopen hzero
    have hmem := (h.free id hids hopen).mpr hzero
    rw [hready] at hmem
    exact not_mem_nil hmem
  refine ⟨fun id => List.nodup_iff_count_le_one.mp h.executed.1 id, ?_, ?_, h.stuck⟩
  · intro id hids
    rw [hexecuted]
    constructor
    · intro hid
      exact h.fired id (.inr hid)
    · rintro (hchosen | ⟨hall, e, he, hsat⟩)
      · rcases h.started id hchosen with hid | hid
        · rw [hready] at hid
          exact absurd hid not_mem_nil
        · exact hid
      · by_contra hnot
        cases hsettled : s.settled id with
        | false =>
          apply hfree id hids hsettled
          rw [pending, countP_nil, Nat.add_zero]
          apply List.countP_eq_zero.mpr
          intro d hd
          rw [hall d hd]
          exact false_ne_true
        | true =>
          rw [Walk.settled, or_eq_true, decide_eq_true_eq, decide_eq_true_eq] at hsettled
          have hunsat := (h.skipped id (hsettled.resolve_left hnot) e he).2
          simp [hsat] at hunsat
  · intro id hids hopen
    have hpos := hfree id hids hopen
    rw [pending, countP_nil, Nat.add_zero] at hpos
    obtain ⟨e, he, hsource⟩ := List.countP_pos_iff.mp (Nat.pos_of_ne_zero hpos)
    exact ⟨e, he, by simpa using hsource⟩

theorem walk_ends (hsound : Sound g) (order : SetOrder) (entry : Option String)
    (outcome : Nat → String → Outcome) {fuel : Nat} (hfuel : 2 * g.edges.length + g.ids.length < fuel) :
    ∃ r, walk g order entry outcome fuel = some r ∧ ∀ s, r = .ok s → Ended g entry s := by
  obtain ⟨r, hr, hstart⟩ := @startWalk_inv g entry hsound order fuel (by omega)
  rw [walk, hr]
  cases r with
  | error e => exact ⟨_, rfl, fun s hs => by cases hs⟩
  | ok s =>
    obtain ⟨r, hr, hend⟩ := walkBatches_inv hsound (by omega : 2 * g.edges.length ≤ fuel) outcome
      (hstart s rfl) (by omega : g.ids.length < s.executed.length + fuel) 0
    simp only [hr]
    cases r with
    | error e => exact ⟨_, rfl, fun s hs => by cases hs⟩
    | ok t =>
      refine ⟨_, rfl, ?_⟩
      intro s hs
      cases hs
      obtain ⟨hinv, hready⟩ := hend t rfl
      obtain ⟨honce, hran, hleft, hstuck⟩ := ended_of_inv hinv hready
      exact ⟨honce, hran, hleft, hstuck⟩

theorem InBody.rank_lt {rank : String → Nat}
    (hrank : ∀ e ∈ g.edges, g.exempt e = false → rank e.source < rank e.target) {loop id : String}
    (h : InBody g loop id) : rank loop < rank id := by
  induction h with
  | @root e he hsource _ hapart =>
    rw [← hsource]
    apply hrank e he
    apply Bool.eq_false_iff.mpr
    intro hexempt
    rw [Graph.exempt, and_eq_true, decide_eq_true_eq] at hexempt
    exact hapart (hexempt.2.trans hsource)
  | @next e he _ _ ih =>
    cases hexempt : g.exempt e with
    | true =>
      rw [Graph.exempt, and_eq_true, decide_eq_true_eq] at hexempt
      rw [hexempt.2]
      exact ih
    | false => exact Nat.lt_trans ih (hrank e he hexempt)

theorem not_inLoopBody_source (hsound : Sound g) {e : Edge} (he : e ∈ g.edges) (hplain : g.exempt e = false)
    (h : ¬ InLoopBody g e.target) : ¬ InLoopBody g e.source := by
  rintro ⟨loop, hloop, hbody⟩
  obtain ⟨rank, hrank⟩ := hsound.ranked
  by_cases heq : e.target = loop
  · have hlow := hrank e he hplain
    have hhigh := hbody.rank_lt hrank
    rw [heq] at hlow
    omega
  · exact h ⟨loop, hloop, .next he hbody heq⟩

theorem finished_of_ended (hsound : Sound g) {s : Walk} (h : Ended g entry s)
    (hloops : ∀ id, ¬ InLoopBody g id → ¬ g.loopsBack id) {id : String} (hids : id ∈ g.ids)
    (hout : ¬ InLoopBody g id) : s.settled id = true := by
  obtain ⟨rank, hrank⟩ := hsound.ranked
  induction hn : rank id using Nat.strongRecOn generalizing id with
  | _ n ih =>
    by_contra hopen
    obtain ⟨e, he, hsource⟩ := h.left id hids (Bool.eq_false_iff.mpr hopen)
    obtain ⟨hedge, rfl⟩ := mem_incoming.mp he
    cases hexempt : g.exempt e with
    | true =>
      have hself : e.target = e.source := by
        rw [Graph.exempt, and_eq_true, decide_eq_true_eq] at hexempt
        exact hexempt.2
      exact hloops e.target hout ⟨e, hedge, hexempt, hself.symm⟩
    | false =>
      have hfinished := ih (rank e.source) (by rw [← hn]; exact hrank e hedge hexempt)
        (hsound.ends e hedge).1 (not_inLoopBody_source hsound hedge hexempt hout) rfl
      simp [hsource] at hfinished

/-- Every walk over the graph ends, and unless it is aborted it is complete outside the loop bodies. -/
def WalksComplete (g : Graph) : Prop :=
  ∀ (order : SetOrder) (entry : Option String) (outcome : Nat → String → Outcome),
    ∃ bound, ∀ fuel, bound < fuel → ∃ r, walk g order entry outcome fuel = some r ∧
      ∀ s, r = .ok s → ∀ id ∈ g.ids, ¬ InLoopBody g id → Complete g entry s id

theorem walk_not_aborted (order : SetOrder) {fuel : Nat} {r : Except WalkError Walk}
    (h : walk g order none (fun _ _ => .taken none) fuel = some r) : ∃ s, r = .ok s := by
  have hresults : ∀ batch, ∃ results, batchResults (fun _ => .taken none) batch = some results := by
    intro batch
    induction batch with
    | nil => exact ⟨[], rfl⟩
    | cons id rest ih =>
      obtain ⟨results, hresults⟩ := ih
      exact ⟨(id, none) :: results, by rw [batchResults, hresults]; rfl⟩
  have hbatches : ∀ rounds round s r,
      walkBatches g fuel (fun _ _ => .taken none) rounds round s = some r → ∃ t, r = .ok t := by
    intro rounds
    induction rounds with
    | zero =>
      simp [walkBatches]
    | succ rounds ih =>
      intro round s r hr
      rw [walkBatches] at hr
      simp only at hr
      split at hr
      · exact ⟨_, (some.inj hr).symm⟩
      · obtain ⟨results, hsome⟩ := hresults (s.ready.filter fun id => !s.settled id)
        rw [hsome] at hr
        obtain ⟨m, -, hm⟩ := Option.bind_eq_some_iff.mp hr
        exact ih _ _ _ hm
  rw [walk, startWalk] at h
  simp only at h
  split at h
  · cases h
  · rename_i hwalk
    obtain ⟨t, ht⟩ := hbatches _ _ _ _ hwalk
    cases ht
  · exact ⟨_, (some.inj h).symm⟩

theorem not_walksComplete (hsound : Sound g) {id : String} (hout : ¬ InLoopBody g id)
    (hloop : g.loopsBack id) : ¬ WalksComplete g := by
  intro hcomplete
  have hids : id ∈ g.ids := by
    obtain ⟨e, he, -, rfl⟩ := hloop
    exact (hsound.ends e he).1
  obtain ⟨bound, hbound⟩ := hcomplete ⟨fun l => l, List.Perm.refl⟩ none fun _ _ => .taken none
  have hfuel : 2 * g.edges.length + g.ids.length < bound + 2 * g.edges.length + g.ids.length + 1 := by omega
  obtain ⟨r, hr, hend⟩ := hbound (bound + 2 * g.edges.length + g.ids.length + 1) (by omega)
  obtain ⟨r', hr', hended⟩ := walk_ends hsound ⟨fun l => l, List.Perm.refl⟩ none
    (fun _ _ => .taken none) hfuel
  rw [hr] at hr'
  cases hr'
  obtain ⟨s, hs⟩ := walk_not_aborted _ hr
  have hfinished := (hend s hs id hids hout).finished
  simp [(hended s hs).stuck id hloop] at hfinished

/-- The walks over an accepted graph are complete if and only if no loop outside the loop bodies has an
edge from its body to itself. -/
theorem walks_complete_iff {checkConfig : Node → Bool} (h : Accepted checkConfig g) :
    WalksComplete g ↔ ∀ id, ¬ InLoopBody g id → ¬ g.loopsBack id := by
  have hsound := sound_of_accepted h
  constructor
  · intro hcomplete id hout hloop
    exact not_walksComplete hsound hout hloop hcomplete
  · intro hloops order entry outcome
    refine ⟨2 * g.edges.length + g.ids.length, fun fuel hfuel => ?_⟩
    obtain ⟨r, hr, hend⟩ := walk_ends hsound order entry outcome hfuel
    refine ⟨r, hr, ?_⟩
    intro s hs id hids hout
    have hended := hend s hs
    exact ⟨hended.once id, hended.ran id hids, finished_of_ended hsound hended hloops hids hout⟩

def plainLoop : Graph where
  nodes := [⟨"start", "trigger-manual"⟩, ⟨"each", "loop"⟩, ⟨"work", "ai-prompt"⟩, ⟨"after", "ai-prompt"⟩]
  edges := [⟨"start", "each", none⟩, ⟨"each", "work", some "body"⟩, ⟨"each", "after", some "done"⟩]

theorem plainLoop_complete : WalksComplete plainLoop := by
  have hnone : ∀ e ∈ plainLoop.edges, plainLoop.exempt e = false := by decide
  apply (@walks_complete_iff plainLoop (fun _ => true) ⟨20, rfl⟩).mpr
  rintro id - ⟨e, he, hexempt, -⟩
  simp [hnone e he] at hexempt

def selfLoop : Graph where
  nodes := [⟨"start", "trigger-manual"⟩, ⟨"each", "loop"⟩]
  edges := [⟨"start", "each", none⟩, ⟨"each", "each", some "body"⟩]

/-- The validator lets the loop pass, and the walk never runs it. -/
theorem selfLoop_left_waiting : Accepted (fun _ => true) selfLoop ∧ ¬ WalksComplete selfLoop := by
  have haccepted : Accepted (fun _ => true) selfLoop := ⟨20, rfl⟩
  refine ⟨haccepted, ?_⟩
  have hbody : ∀ loop id, ¬ InBody selfLoop loop id := by
    intro loop id h
    induction h with
    | @root e he hsource hhandle hapart =>
      have hself : ∀ d ∈ selfLoop.edges, d.handle = "body" → d.target = d.source := by decide
      exact hapart ((hself e he hhandle).trans hsource)
    | next _ _ _ ih => exact ih
  apply @not_walksComplete selfLoop (sound_of_accepted haccepted) "each"
  · rintro ⟨loop, -, h⟩
    exact hbody loop _ h
  · exact ⟨⟨"each", "each", some "body"⟩, by decide, rfl, rfl⟩

end OpenAgent.Workflow
