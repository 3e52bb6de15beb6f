import OpenAgent.Children.Slots

/-!
# Children do not wait for each other

The session depths are one ladder of slots and the runtime's depths another. A child climbs a rung of each, the session
first, and its children climb from where it stands. As long as no two children climb the two ladders in opposite turns,
the ladders merge into one, and the slots form a hierarchy.
-/

namespace OpenAgent.Children.Slots

open Lib Lib.Hierarchy List Option

variable {settings : Settings} {s t : State} {run : Run} {i : Nat}

/-! ### What holds of every child -/

structure Run.Sound (settings : Settings) (run : Run) : Prop where
  shape : run.held.reverse ++ run.wanted <+: slots settings run.chain run.tree
  live : run.leaving = false → run.held.reverse ++ run.wanted = slots settings run.chain run.tree
  left : run.leaving = true → run.wanted = []
  gated : run.chain.isSome ∨ run.tree.isSome
  chain : ∀ c ∈ run.chain, c.1 ≤ settings.childMaxDepth ∧ c.2 ≠ "" ∧ run.ambient.depth = c.1 ∧ run.ambient.root.isSome
  tree : ∀ c ∈ run.tree, c.1 ≤ settings.childMaxDepth
  root : run.ambient.root ≠ some ""

structure State.Sound (settings : Settings) (s : State) : Prop where
  runs : ∀ run ∈ s.runs, run.Sound settings
  parents : ∀ run ∈ s.runs, ∀ i ∈ run.parent, i < s.runs.length
  deeper : ∀ run ∈ s.runs, ∀ depth ∈ run.depth?, ∀ depth' ∈ (s.parentOf run).bind Run.depth?, depth' < depth
  within : Within (Slot.capacity settings) s.processes

variable {slot : Slot}

theorem Run.Sound.mem_slots (h : run.Sound settings) (hslot : slot ∈ run.held ++ run.wanted) :
    slot ∈ slots settings run.chain run.tree := by
  apply h.shape.subset
  rcases List.mem_append.mp hslot with hheld | hwanted
  · exact mem_append_left _ (List.mem_reverse.mpr hheld)
  · exact mem_append_right _ hwanted

theorem Run.Sound.mem_held (h : run.Sound settings) (hexec : run.executes = true)
    (hslot : slot ∈ slots settings run.chain run.tree) : slot ∈ run.held := by
  simp only [Run.executes, Bool.and_eq_true, Bool.not_eq_true', List.isEmpty_iff] at hexec
  rw [← h.live hexec.1.1, hexec.1.2, List.append_nil] at hslot
  exact List.mem_reverse.mp hslot

theorem globalSem_mem (c : Nat × String) (tree : Option (Nat × RunId)) :
    .globalSem c.1 ∈ slots settings (some c) tree := by
  simp [slots, chainSlots]

variable {tree : Option (Nat × RunId)}

theorem chainSem_mem {depth : Nat} {root : String} (hroot : root ≠ "")
    (hlimit : settings.childChainConcurrency ≠ 0)
    : .chainSem root depth ∈ slots settings (some (depth, root)) tree := by
  simp [slots, chainSlots, chainSemaphore, hroot, hlimit]

theorem childSlots_mem (chain : Option (Nat × String)) (c : Nat × RunId) :
    .childSlots c.1 ∈ slots settings chain (some c) := by
  simp [slots, treeSlots]

variable {chain : Option (Nat × String)}

theorem childChainSlots_mem {depth : Nat} {root : RunId} (hlimit : settings.childChainConcurrency ≠ 0)
    : .childChainSlots root depth ∈ slots settings chain (some (depth, root)) := by
  simp [slots, treeSlots, hlimit]

theorem mem_chainSlots (h : slot ∈ chain.elim [] (chainSlots settings)) :
    ∃ c ∈ chain, slot = .globalSem c.1 ∨ slot = .chainSem c.2 c.1 ∧ settings.childChainConcurrency ≠ 0 := by
  cases chain with
  | none => simp at h
  | some c =>
    refine ⟨c, rfl, ?_⟩
    simp only [elim_some, chainSlots, chainSemaphore, mem_append, mem_singleton, mem_toList] at h
    rcases h with hsem | hglobal
    · split at hsem
      · simp at hsem
      · rename_i hneg
        simp only [not_or] at hneg
        exact .inr ⟨(some.inj hsem).symm, hneg.2⟩
    · exact .inl hglobal

theorem mem_treeSlots (h : slot ∈ tree.elim [] (treeSlots settings)) :
    ∃ c ∈ tree, slot = .childSlots c.1 ∨ slot = .childChainSlots c.2 c.1 ∧ settings.childChainConcurrency ≠ 0 := by
  cases tree with
  | none => simp at h
  | some c =>
    refine ⟨c, rfl, ?_⟩
    simp only [elim_some, treeSlots, mem_cons] at h
    rcases h with htier | hchain
    · exact .inl htier
    · split at hchain
      · simp at hchain
      · rename_i hneg
        exact .inr ⟨List.mem_singleton.mp hchain, hneg⟩

theorem tierCapacity_pos (depth : Nat) : 0 < tierCapacity settings depth := by
  have hlimit := settings.concurrent
  unfold tierCapacity
  split <;> omega

theorem runtimeCapacity_pos (depth : Nat) : 0 < runtimeCapacity settings depth := by
  unfold runtimeCapacity
  omega

theorem capacity_pos (h : slot ∈ slots settings chain tree) : 0 < slot.capacity settings := by
  rcases List.mem_append.mp h with hchain | htree
  · obtain ⟨c, -, rfl | ⟨rfl, hlimit⟩⟩ := mem_chainSlots hchain
    · exact tierCapacity_pos c.1
    · exact Nat.pos_of_ne_zero hlimit
  · obtain ⟨c, -, rfl | ⟨rfl, hlimit⟩⟩ := mem_treeSlots htree
    · exact runtimeCapacity_pos c.1
    · exact Nat.pos_of_ne_zero hlimit

/-! ### A child moves -/

@[simp] theorem processes_update (process : Process Slot) :
    (s.update i run process).processes = s.processes.set i process := by
  simp [State.update, State.processes, map_set]

theorem processes_get (hrun : s.runs[i]? = some run) : s.processes[i]? = some run.toProcess := by
  simp [State.processes, hrun]

variable {process : Process Slot}

theorem parentOf_update {α : Type} (hrun : s.runs[i]? = some run) (f : Run → Option α)
    (hf : ∀ p : Process Slot, f { run with toProcess := p } = f run) (x : Run) :
    ((s.update i run process).parentOf x).bind f = (s.parentOf x).bind f := by
  cases hparent : x.parent with
  | none => simp [State.parentOf, hparent]
  | some j =>
    simp only [State.parentOf, hparent, bind_some, State.update]
    by_cases hij : i = j
    · subst hij
      have hlt : i < s.runs.length := (List.getElem?_eq_some_iff.mp hrun).1
      rw [getElem?_set_self hlt, hrun]
      exact hf process
    · rw [getElem?_set_ne hij]

theorem exists_of_mem_update (hrun : s.runs[i]? = some run) (hlive : run.ended = false)
    (hparent : process.parent = run.parent) {x : Run} (hx : x ∈ (s.update i run process).runs) (hxlive : x.ended = false) :
    ∃ y ∈ s.runs, y.ended = false ∧ x.depth? = y.depth? ∧ x.tier? = y.tier? ∧
      (s.update i run process).depthsAbove x = s.depthsAbove y ∧ (s.update i run process).tiersAbove x = s.tiersAbove y := by
  rcases mem_or_eq_of_mem_set hx with hmem | rfl
  · refine ⟨x, hmem, hxlive, rfl, rfl, ?_, ?_⟩
    · rw [State.depthsAbove, parentOf_update hrun Run.depth? (fun _ => rfl)]; rfl
    · rw [State.tiersAbove, parentOf_update hrun Run.tier? (fun _ => rfl)]; rfl
  · refine ⟨run, mem_of_getElem? hrun, hlive, rfl, rfl, ?_, ?_⟩
    · rw [State.depthsAbove, parentOf_update hrun Run.depth? (fun _ => rfl), State.parentOf, hparent]; rfl
    · rw [State.tiersAbove, parentOf_update hrun Run.tier? (fun _ => rfl), State.parentOf, hparent]; rfl

theorem State.Agrees.update (h : s.Agrees) (hrun : s.runs[i]? = some run)
    (hlive : run.ended = false) (hparent : process.parent = run.parent) : (s.update i run process).Agrees where
  turns := by
    intro x hx y hy hxlive hylive
    obtain ⟨x', hx', hxlive', -, htier, hdepths, -⟩ := exists_of_mem_update hrun hlive hparent hx hxlive
    obtain ⟨y', hy', hylive', hdepth, -, -, htiers⟩ := exists_of_mem_update hrun hlive hparent hy hylive
    rw [htier, hdepths, hdepth, htiers]
    exact h.turns x' hx' y' hy' hxlive' hylive'
  deeper := by
    intro x hx hxlive
    obtain ⟨x', hx', hxlive', -, htier, -, htiers⟩ := exists_of_mem_update hrun hlive hparent hx hxlive
    rw [htier, htiers]
    exact h.deeper x' hx' hxlive'

theorem State.Sound.update (h : s.Sound settings) (hrun : s.runs[i]? = some run)
    (hparent : process.parent = run.parent) (hsound : Run.Sound settings { run with toProcess := process })
    (hwithin : Within (Slot.capacity settings) (s.processes.set i process)) : (s.update i run process).Sound settings where
  runs := by
    intro x hx
    rcases mem_or_eq_of_mem_set hx with hmem | rfl
    · exact h.runs x hmem
    · exact hsound
  parents := by
    intro x hx j hj
    simp only [State.update, length_set]
    rcases mem_or_eq_of_mem_set hx with hmem | rfl
    · exact h.parents x hmem j hj
    · exact h.parents run (mem_of_getElem? hrun) j (hparent ▸ hj)
  deeper := by
    intro x hx
    rw [parentOf_update hrun Run.depth? (fun _ => rfl)]
    rcases mem_or_eq_of_mem_set hx with hmem | rfl
    · exact h.deeper x hmem
    · have := h.deeper run (mem_of_getElem? hrun)
      rwa [State.parentOf, ← hparent] at this
  within := by
    rw [processes_update]
    exact hwithin

theorem Run.Sound.acquire (h : run.Sound settings) {rest : List Slot} (hwanted : run.wanted = slot :: rest) :
    Run.Sound settings { run with toProcess := run.acquire } := by
  have hsame : run.acquire.held.reverse ++ run.acquire.wanted = run.held.reverse ++ run.wanted := by
    simp [Process.acquire, hwanted]
  have hstays : run.acquire.leaving = run.leaving := by simp [Process.acquire, hwanted]
  refine ⟨hsame ▸ h.shape, ?_, ?_, h.gated, h.chain, h.tree, h.root⟩
  · intro hlive
    rw [hsame]
    exact h.live (hstays ▸ hlive)
  · intro hleft
    simp [h.left (hstays ▸ hleft)] at hwanted

theorem Run.Sound.finish (h : run.Sound settings) : Run.Sound settings { run with toProcess := run.finish } := by
  refine ⟨?_, fun hlive => (by cases hlive), fun _ => rfl, h.gated, h.chain, h.tree, h.root⟩
  simp only [Process.finish, append_nil]
  exact (prefix_append _ _).trans h.shape

theorem Run.Sound.release (h : run.Sound settings) (hleft : run.leaving = true) :
    Run.Sound settings { run with toProcess := run.release } := by
  have hwanted : run.wanted = [] := h.left hleft
  refine ⟨?_, ?_, fun _ => hwanted, h.gated, h.chain, h.tree, h.root⟩
  · have hshape := h.shape
    simp only [Process.release, hwanted, append_nil] at hshape ⊢
    exact (List.reverse_prefix.mpr (tail_suffix _)).trans hshape
  · intro hlive
    simp [Process.release, hleft] at hlive

/-! ### A child is spawned -/

theorem pick_ne {a : Option String} {b : String} (hb : b ≠ "") : pick a b ≠ "" := by
  cases a with
  | none => exact hb
  | some text =>
    simp only [pick]
    split
    · exact hb
    · assumption

theorem lineageOf_le {lineage : List RunId} {tree : Nat × RunId} (h : lineageOf settings lineage = some tree) :
    tree.1 ≤ settings.childMaxDepth := by
  obtain ⟨root, -, h⟩ := Option.bind_eq_some_iff.mp h
  split at h
  · cases h
  · rename_i hle
    cases h
    exact Nat.le_of_not_lt hle

/-- What a child that is spawned is like, by the context variables under which it is spawned. -/
structure Born (settings : Settings) (ambient : Ambient) (parent : Option Nat) (run : Run) : Prop where
  sound : run.Sound settings
  parent : run.parent = parent
  held : run.held = []
  deeper : ∀ depth ∈ run.depth?, ambient.root.isSome → ambient.depth < depth

theorem spawned_born {ambient : Ambient} {parent : Option Nat} {child : Child} (hroot : ambient.root ≠ some "")
    (h : spawned settings ambient i parent child = some run) : Born settings ambient parent run := by
  cases child with
  | session request =>
    simp only [spawned] at h
    split at h
    · cases h
    rename_i hdepth
    cases h
    have hname : (chainOf ambient request).2 ≠ "" := pick_ne (pick_ne request.named)
    refine ⟨⟨by simp, fun _ => by simp, by simp, .inl rfl, ?_, ?_, ?_⟩, rfl, rfl, ?_⟩
    · intro c hc
      cases hc
      exact ⟨Nat.le_of_not_lt hdepth, hname, rfl, rfl⟩
    · intro c hc
      split at hc
      · exact lineageOf_le hc
      · cases hc
    · simpa using hname
    · intro depth hd hsome
      obtain rfl : (chainOf ambient request).1 = depth := by simpa [Run.depth?] using hd
      simp [chainOf, hsome]
  | member =>
    obtain ⟨tree, htree, rfl⟩ := Option.map_eq_some_iff.mp h
    refine ⟨⟨by simp, fun _ => by simp, by simp, .inr rfl, by simp, ?_, hroot⟩, rfl, rfl, by simp [Run.depth?]⟩
    intro c hc
    cases hc
    exact lineageOf_le htree

theorem State.Sound.ambient (h : s.Sound settings) {parent submitted : Option Nat} {ambient : Ambient}
    (ha : s.ambient parent submitted = some ambient) :
    ambient.root ≠ some "" ∧ (∀ j ∈ parent, j < s.runs.length) ∧
      ∀ depth ∈ (parent.bind (s.runs[·]?)).bind Run.depth?, ambient.depth = depth ∧ ambient.root.isSome := by
  obtain ⟨inherited, hin, rfl⟩ := Option.map_eq_some_iff.mp ha
  have hsame : ∀ f : Ambient → Prop, (∀ l, f inherited → f { inherited with lineage := l }) → f inherited →
      f (submitted.elim inherited fun n => { inherited with lineage := [.submitted n] }) := by
    intro f hf hin
    cases submitted with
    | none => exact hin
    | some n => exact hf _ hin
  cases parent with
  | none =>
    cases hin
    exact ⟨hsame (·.root ≠ some "") (fun _ h => h) (by simp), by simp, by simp⟩
  | some j =>
    obtain ⟨p, hp, hif⟩ := Option.bind_eq_some_iff.mp hin
    split at hif
    case isFalse => cases hif
    case isTrue =>
      cases hif
      have hsound := h.runs p (mem_of_getElem? hp)
      refine ⟨hsame (·.root ≠ some "") (fun _ h => h) hsound.root, ?_, ?_⟩
      · intro k hk
        cases hk
        exact (List.getElem?_eq_some_iff.mp hp).1
      · intro depth hd
        have hd' : p.depth? = some depth := by simpa [hp] using hd
        obtain ⟨c, hc, rfl⟩ := Option.map_eq_some_iff.mp hd'
        obtain ⟨-, -, hdepth, hsome⟩ := hsound.chain c hc
        exact hsame (fun a => a.depth = c.1 ∧ a.root.isSome) (fun _ h => h) ⟨hdepth, hsome⟩

theorem parentOf_append {x : Run} (h : ∀ j ∈ x.parent, j < s.runs.length) :
    State.parentOf { s with runs := s.runs ++ [run] } x = s.parentOf x := by
  cases hparent : x.parent with
  | none => simp [State.parentOf, hparent]
  | some j =>
    have hlt := h j hparent
    simp [State.parentOf, hparent, getElem?_append_left hlt]

theorem State.Sound.born (h : s.Sound settings) {e : Event} (hborn : s.born settings e = some run) :
    State.Sound settings { s with runs := s.runs ++ [run] } := by
  cases e with
  | acquires | finishes | releases => cases hborn
  | spawn parent submitted child =>
    obtain ⟨ambient, ha, hspawned⟩ := Option.bind_eq_some_iff.mp hborn
    obtain ⟨hroot, hlt, hdepth⟩ := h.ambient ha
    have hb := spawned_born hroot hspawned
    refine ⟨?_, ?_, ?_, ?_⟩
    · intro x hx
      rcases List.mem_append.mp hx with hmem | hnew
      · exact h.runs x hmem
      · exact List.mem_singleton.mp hnew ▸ hb.sound
    · intro x hx j hj
      rw [length_append]
      rcases List.mem_append.mp hx with hmem | hnew
      · exact Nat.lt_add_right _ (h.parents x hmem j hj)
      · cases List.mem_singleton.mp hnew
        exact Nat.lt_add_right _ (hlt j (hb.parent ▸ hj))
    · intro x hx depth hd depth' hd'
      rcases List.mem_append.mp hx with hmem | hnew
      · rw [parentOf_append (h.parents x hmem)] at hd'
        exact h.deeper x hmem depth hd depth' hd'
      · cases List.mem_singleton.mp hnew
        rw [parentOf_append (hb.parent ▸ hlt), State.parentOf, hb.parent] at hd'
        obtain ⟨rfl, hsome⟩ := hdepth depth' hd'
        exact hb.deeper depth hd hsome
    · intro slot
      have hle := h.within slot
      simpa [State.processes, holders_append, hb.held] using hle

theorem State.Sound.step (h : s.Sound settings) {e : Event} (hstep : step settings s e = some t) : t.Sound settings := by
  cases e with
  | spawn parent submitted child =>
    simp only [Slots.step] at hstep
    split at hstep
    · cases hstep
    cases hstep
    cases hborn : s.born settings (.spawn parent submitted child) with
    | none => simpa using h
    | some run => exact h.born hborn
  | acquires i =>
    obtain ⟨run, hrun, hstep⟩ := Option.bind_eq_some_iff.mp hstep
    have hsound := h.runs run (mem_of_getElem? hrun)
    split at hstep
    · cases hstep
    rename_i slot rest hwanted
    split at hstep
    case isFalse => cases hstep
    case isTrue hfree =>
      cases hstep
      have hparent : run.acquire.parent = run.parent := by simp [Process.acquire, hwanted]
      exact h.update hrun hparent (hsound.acquire hwanted)
        (within_acquire h.within (processes_get hrun) hwanted hfree)
  | finishes i =>
    obtain ⟨run, hrun, hstep⟩ := Option.bind_eq_some_iff.mp hstep
    have hsound := h.runs run (mem_of_getElem? hrun)
    split at hstep
    · cases hstep
    cases hstep
    exact h.update hrun rfl hsound.finish (within_set h.within (processes_get hrun) (List.Sublist.refl _))
  | releases i =>
    obtain ⟨run, hrun, hstep⟩ := Option.bind_eq_some_iff.mp hstep
    have hsound := h.runs run (mem_of_getElem? hrun)
    split at hstep
    case isFalse => cases hstep
    case isTrue hleaving =>
      cases hstep
      have hleft : run.leaving = true := (Bool.and_eq_true_iff.mp hleaving).1
      exact h.update hrun rfl (hsound.release hleft) (within_set h.within (processes_get hrun) (tail_sublist _))

/-! ### The two ladders as one -/

/-- The place of a slot in the merged ladder, where the runtime's depths up to `cut depth` lie below a session
depth. -/
def place (cut : Nat → Nat) : Slot → Nat ×ₗ Nat
  | .chainSem _ depth => toLex (cut depth, 2 * depth + 2)
  | .globalSem depth => toLex (cut depth, 2 * depth + 3)
  | .childSlots depth => toLex (depth + 1, 0)
  | .childChainSlots _ depth => toLex (depth + 1, 1)

structure Fits (cut : Nat → Nat) (s : State) : Prop where
  mono : Monotone cut
  below : ∀ run ∈ s.runs, run.ended = false → ∀ tier ∈ run.tier?, ∀ depth ∈ s.depthsAbove run, cut depth ≤ tier
  above : ∀ run ∈ s.runs, run.ended = false → ∀ depth ∈ run.depth?, ∀ tier ∈ s.tiersAbove run, tier < cut depth

theorem State.Agrees.exists_cut (h : s.Agrees) (hsound : s.Sound settings) : ∃ cut, Fits cut s := by
  let before (depth tier : Nat) : Prop := ∃ x ∈ s.runs, x.ended = false ∧ tier ∈ x.tier? ∧ depth ∈ s.depthsAbove x
  let after (tier depth : Nat) : Prop := ∃ y ∈ s.runs, y.ended = false ∧ depth ∈ y.depth? ∧ tier ∈ s.tiersAbove y
  have hbound : ∀ tier depth, after tier depth → tier ≤ settings.childMaxDepth := by
    rintro tier depth ⟨y, -, -, -, htier⟩
    obtain ⟨p, hp, hptier⟩ := Option.bind_eq_some_iff.mp (Option.mem_toList.mp htier)
    obtain ⟨j, -, hj⟩ := Option.bind_eq_some_iff.mp hp
    obtain ⟨c, hc, rfl⟩ := Option.map_eq_some_iff.mp hptier
    exact (hsound.runs p (mem_of_getElem? hj)).tree c hc
  have hagree : ∀ a b b' a', before a b → after b' a' → a' ≤ a → b' < b := by
    rintro a b b' a' ⟨x, hx, hxlive, hb, ha⟩ ⟨y, hy, hylive, ha', hb'⟩ hle
    exact h.turns x hx y hy hxlive hylive b hb a ha a' ha' b' hb' hle
  obtain ⟨cut, hmono, hbelow, habove⟩ := exists_merge hbound hagree
  refine ⟨cut, hmono, ?_, ?_⟩
  · intro run hrun hlive tier htier depth hdepth
    exact hbelow depth tier ⟨run, hrun, hlive, htier, hdepth⟩
  · intro run hrun hlive depth hdepth tier htier
    exact habove tier depth ⟨run, hrun, hlive, hdepth, htier⟩

/-- The session depth of a slot of `run_child_session`. -/
def Slot.depth? : Slot → Option Nat
  | .chainSem _ depth | .globalSem depth => some depth
  | .childSlots _ | .childChainSlots _ _ => none

def Slot.tier? : Slot → Option Nat
  | .chainSem _ _ | .globalSem _ => none
  | .childSlots tier | .childChainSlots _ tier => some tier

section Places

variable {cut : Nat → Nat} {r q : Slot} {depth depth' tier tier' : Nat}

theorem place_depth (cut : Nat → Nat) (h : r.depth? = some depth) :
    ∃ k, place cut r = toLex (cut depth, k) ∧ 2 * depth + 2 ≤ k ∧ k ≤ 2 * depth + 3 := by
  cases r with
  | chainSem root d =>
    cases h
    exact ⟨_, rfl, by omega, by omega⟩
  | globalSem d =>
    cases h
    exact ⟨_, rfl, by omega, by omega⟩
  | childSlots | childChainSlots => cases h

theorem place_tier (cut : Nat → Nat) (h : r.tier? = some tier) : ∃ k, place cut r = toLex (tier + 1, k) ∧ k ≤ 1 := by
  cases r with
  | childSlots d =>
    cases h
    exact ⟨_, rfl, by omega⟩
  | childChainSlots root d =>
    cases h
    exact ⟨_, rfl, by omega⟩
  | chainSem | globalSem => cases h

theorem place_lt_of_depth_of_depth (hmono : Monotone cut) (hr : r.depth? = some depth) (hq : q.depth? = some depth')
    (h : depth < depth') : place cut r < place cut q := by
  obtain ⟨k, hk, -, hkle⟩ := place_depth cut hr
  obtain ⟨l, hl, hlle, -⟩ := place_depth cut hq
  have hcut : cut depth ≤ cut depth' := hmono h.le
  rw [hk, hl, Prod.Lex.toLex_lt_toLex]
  dsimp only
  omega

theorem place_lt_of_depth_of_tier (hr : r.depth? = some depth) (hq : q.tier? = some tier) (h : cut depth ≤ tier) :
    place cut r < place cut q := by
  obtain ⟨k, hk, -, -⟩ := place_depth cut hr
  obtain ⟨l, hl, -⟩ := place_tier cut hq
  rw [hk, hl, Prod.Lex.toLex_lt_toLex]
  dsimp only
  omega

theorem place_lt_of_tier_of_depth (hr : r.tier? = some tier) (hq : q.depth? = some depth) (h : tier < cut depth) :
    place cut r < place cut q := by
  obtain ⟨k, hk, hkle⟩ := place_tier cut hr
  obtain ⟨l, hl, hlle, -⟩ := place_depth cut hq
  rw [hk, hl, Prod.Lex.toLex_lt_toLex]
  dsimp only
  omega

theorem place_lt_of_tier_of_tier (hr : r.tier? = some tier) (hq : q.tier? = some tier') (h : tier < tier') :
    place cut r < place cut q := by
  obtain ⟨k, hk, -⟩ := place_tier cut hr
  obtain ⟨l, hl, -⟩ := place_tier cut hq
  rw [hk, hl, Prod.Lex.toLex_lt_toLex]
  dsimp only
  omega

end Places

theorem Run.Sound.depth_or_tier (h : run.Sound settings) (hslot : slot ∈ run.held ++ run.wanted) :
    (∃ depth ∈ run.depth?, slot.depth? = some depth) ∨ ∃ tier ∈ run.tier?, slot.tier? = some tier := by
  rcases List.mem_append.mp (h.mem_slots hslot) with hchain | htree
  · obtain ⟨c, hc, rfl | ⟨rfl, -⟩⟩ := mem_chainSlots hchain
    · exact .inl ⟨c.1, Option.map_eq_some_iff.mpr ⟨c, hc, rfl⟩, rfl⟩
    · exact .inl ⟨c.1, Option.map_eq_some_iff.mpr ⟨c, hc, rfl⟩, rfl⟩
  · obtain ⟨c, hc, rfl | ⟨rfl, -⟩⟩ := mem_treeSlots htree
    · exact .inr ⟨c.1, Option.map_eq_some_iff.mpr ⟨c, hc, rfl⟩, rfl⟩
    · exact .inr ⟨c.1, Option.map_eq_some_iff.mpr ⟨c, hc, rfl⟩, rfl⟩

theorem slots_pairwise {cut : Nat → Nat} (h : ∀ c ∈ chain, ∀ d ∈ tree, cut c.1 ≤ d.1) :
    (slots settings chain tree).Pairwise fun r q => place cut r < place cut q := by
  rw [slots, pairwise_append]
  refine ⟨?_, ?_, ?_⟩
  · cases chain with
    | none => simp
    | some c =>
      simp only [elim_some, chainSlots, chainSemaphore]
      split <;> simp [place, Prod.Lex.toLex_lt_toLex]
  · cases tree with
    | none => simp
    | some d =>
      simp only [elim_some, treeSlots]
      split <;> simp [place, Prod.Lex.toLex_lt_toLex]
  · intro r hr q hq
    obtain ⟨c, hc, hr⟩ := mem_chainSlots hr
    obtain ⟨d, hd, hq⟩ := mem_treeSlots hq
    have hrdepth : r.depth? = some c.1 := by rcases hr with rfl | ⟨rfl, -⟩ <;> rfl
    have hqtier : q.tier? = some d.1 := by rcases hq with rfl | ⟨rfl, -⟩ <;> rfl
    exact place_lt_of_depth_of_tier hrdepth hqtier (h c hc d hd)

theorem mem_depthsAbove_self {depth : Nat} (h : depth ∈ run.depth?) : depth ∈ s.depthsAbove run :=
  mem_append_left _ (Option.mem_toList.mpr h)

theorem mem_depthsAbove_parent {p : Run} {depth : Nat} (hp : s.parentOf run = some p) (h : depth ∈ p.depth?) :
    depth ∈ s.depthsAbove run := by
  apply mem_append_right
  simpa [hp] using h

theorem mem_tiersAbove {p : Run} {tier : Nat} (hp : s.parentOf run = some p) (h : tier ∈ p.tier?) :
    tier ∈ s.tiersAbove run := by
  simpa [State.tiersAbove, hp] using h

theorem Fits.child_above {cut : Nat → Nat} (h : Fits cut s) (hagrees : s.Agrees) (hsound : s.Sound settings) {p : Run}
    (hrun : run ∈ s.runs) (hlive : run.ended = false) (hp : s.parentOf run = some p) (hpmem : p ∈ s.runs) {r q : Slot}
    (hr : r ∈ p.held ++ p.wanted) (hq : q ∈ run.held ++ run.wanted) : place cut r < place cut q := by
  rcases (hsound.runs p hpmem).depth_or_tier hr with ⟨depth, hdepth, hr⟩ | ⟨tier, htier, hr⟩
  · rcases (hsound.runs run hrun).depth_or_tier hq with ⟨depth', hdepth', hq⟩ | ⟨tier', htier', hq⟩
    · have hlt : depth < depth' := hsound.deeper run hrun depth' hdepth' depth (by simpa [hp] using hdepth)
      exact place_lt_of_depth_of_depth h.mono hr hq hlt
    · exact place_lt_of_depth_of_tier hr hq (h.below run hrun hlive tier' htier' depth (mem_depthsAbove_parent hp hdepth))
  · have habove : tier ∈ s.tiersAbove run := mem_tiersAbove hp htier
    rcases (hsound.runs run hrun).depth_or_tier hq with ⟨depth', hdepth', hq⟩ | ⟨tier', htier', hq⟩
    · exact place_lt_of_tier_of_depth hr hq (h.above run hrun hlive depth' hdepth' tier habove)
    · exact place_lt_of_tier_of_tier hr hq (hagrees.deeper run hrun hlive tier' htier' tier habove)

theorem Fits.ordered {cut : Nat → Nat} (h : Fits cut s) (hagrees : s.Agrees) (hsound : s.Sound settings) :
    Ordered (place cut) s.processes where
  own := by
    intro process hprocess
    obtain ⟨run, hrun, rfl⟩ := List.mem_map.mp hprocess
    have hshape := (hsound.runs run hrun).shape
    cases hended : run.ended with
    | true =>
      have hends : run.leaving = true ∧ run.held = [] := by simpa [Process.ended] using hended
      simp [hends.2, (hsound.runs run hrun).left hends.1]
    | false =>
      refine (slots_pairwise ?_).sublist hshape.sublist
      intro c hc d hd
      have hdepth : c.1 ∈ run.depth? := Option.map_eq_some_iff.mpr ⟨c, hc, rfl⟩
      have htier : d.1 ∈ run.tier? := Option.map_eq_some_iff.mpr ⟨d, hd, rfl⟩
      exact h.below run hrun hended d.1 htier c.1 (mem_depthsAbove_self hdepth)
  child := by
    intro process hprocess hlive j p hparent hp r hr q hq
    obtain ⟨run, hrun, rfl⟩ := List.mem_map.mp hprocess
    rw [State.processes, getElem?_map] at hp
    obtain ⟨parent, hj, rfl⟩ := Option.map_eq_some_iff.mp hp
    have hof : s.parentOf run = some parent := by simp [State.parentOf, hparent, hj]
    exact h.child_above hagrees hsound hrun hlive hof (mem_of_getElem? hj) (mem_append_left _ hr) hq
  works := by
    intro process hprocess hlive hnone
    obtain ⟨run, hrun, rfl⟩ := List.mem_map.mp hprocess
    have hrsound := hsound.runs run hrun
    have hslots := hrsound.live hlive
    obtain ⟨hheld, hwanted⟩ := List.append_eq_nil_iff.mp hnone
    rw [hheld, hwanted] at hslots
    rcases hrsound.gated with hchain | htree
    · obtain ⟨c, hc⟩ := Option.isSome_iff_exists.mp hchain
      rw [hc] at hslots
      exact absurd (hslots ▸ globalSem_mem c run.tree) not_mem_nil
    · obtain ⟨c, hc⟩ := Option.isSome_iff_exists.mp htree
      rw [hc] at hslots
      exact absurd (hslots ▸ childSlots_mem run.chain c) not_mem_nil

/-! ### The limits -/

theorem executing_le {P : Run → Bool} (runs : List Run)
    (h : ∀ run ∈ runs, run.executes = true → P run = true → slot ∈ run.held) :
    State.executing ⟨runs⟩ P ≤ holders (State.processes ⟨runs⟩) slot := by
  induction runs with
  | nil => simp [State.executing]
  | cons run rest ih =>
    have hrest := ih fun x hx => h x (mem_cons_of_mem run hx)
    simp only [State.executing, State.processes, countP_cons, map_cons, holders_cons] at hrest ⊢
    split
    · rename_i hboth
      obtain ⟨hexec, hP⟩ := Bool.and_eq_true_iff.mp hboth
      have hpos : 0 < run.held.count slot := List.count_pos_iff.mpr (h run mem_cons_self hexec hP)
      omega
    · omega

theorem State.Sound.executing_le (h : s.Sound settings) {P : Run → Bool} (slot : Slot)
    (hslot : ∀ run ∈ s.runs, P run = true → slot ∈ slots settings run.chain run.tree) :
    s.executing P ≤ slot.capacity settings := by
  refine Nat.le_trans (Slots.executing_le s.runs ?_) (h.within slot)
  intro run hrun hexec hP
  exact (h.runs run hrun).mem_held hexec (hslot run hrun hP)

theorem State.Sound.capped (h : s.Sound settings) : Capped settings s where
  chainDepth := by
    intro run hrun depth root hchain
    exact ((h.runs run hrun).chain (depth, root) hchain).1
  treeDepth := by
    intro run hrun depth root htree
    exact (h.runs run hrun).tree (depth, root) htree
  chain := by
    intro root depth hlimit
    apply h.executing_le (.chainSem root depth)
    intro run hrun hP
    have hchain : run.chain = some (depth, root) := by simpa using hP
    rw [hchain]
    exact chainSem_mem ((h.runs run hrun).chain (depth, root) hchain).2.1 hlimit
  tier := by
    intro depth
    apply h.executing_le (.globalSem depth)
    intro run hrun hP
    obtain ⟨c, hchain, rfl⟩ := Option.map_eq_some_iff.mp (eq_of_beq hP)
    rw [hchain]
    exact globalSem_mem c run.tree
  tree := by
    intro root depth hlimit
    apply h.executing_le (.childChainSlots root depth)
    intro run hrun hP
    have htree : run.tree = some (depth, root) := by simpa using hP
    rw [htree]
    exact childChainSlots_mem hlimit
  treeTier := by
    intro depth
    apply h.executing_le (.childSlots depth)
    intro run hrun hP
    obtain ⟨c, htree, rfl⟩ := Option.map_eq_some_iff.mp (eq_of_beq hP)
    rw [htree]
    exact childSlots_mem run.chain c

theorem State.Sound.progress (h : s.Sound settings) (hagrees : s.Agrees) :
    ¬ Deadlocked (Slot.capacity settings) s.processes := by
  obtain ⟨cut, hcut⟩ := hagrees.exists_cut h
  apply (hcut.ordered hagrees h).not_deadlocked
  intro process hprocess slot hslot
  obtain ⟨run, hrun, rfl⟩ := List.mem_map.mp hprocess
  exact capacity_pos ((h.runs run hrun).mem_slots (mem_append_right _ hslot))

/-! ### Whole runs -/

theorem State.Agrees.step (h : s.Agrees) (hsound : s.Sound settings) {e : Event} (horderly : Orderly settings s e)
    (hstep : step settings s e = some t) : t.Agrees := by
  cases e with
  | spawn parent submitted child =>
    simp only [Slots.step] at hstep
    split at hstep
    · cases hstep
    cases hstep
    cases hborn : s.born settings (.spawn parent submitted child) with
    | none => simpa using h
    | some run => exact horderly run hborn
  | acquires i =>
    obtain ⟨run, hrun, hstep⟩ := Option.bind_eq_some_iff.mp hstep
    have hsound := hsound.runs run (mem_of_getElem? hrun)
    split at hstep
    · cases hstep
    rename_i slot rest hwanted
    split at hstep
    case isFalse => cases hstep
    case isTrue =>
      cases hstep
      have hlive : run.ended = false := by
        cases hleft : run.leaving with
        | false => simp [Process.ended, hleft]
        | true => simp [hsound.left hleft] at hwanted
      exact h.update hrun hlive (by simp [Process.acquire, hwanted])
  | finishes i =>
    obtain ⟨run, hrun, hstep⟩ := Option.bind_eq_some_iff.mp hstep
    split at hstep
    · cases hstep
    rename_i hstays
    cases hstep
    have hlive : run.leaving = false := by
      simp only [Bool.or_eq_true, not_or, Bool.not_eq_true] at hstays
      exact hstays.1
    exact h.update hrun (by simp [Process.ended, hlive]) rfl
  | releases i =>
    obtain ⟨run, hrun, hstep⟩ := Option.bind_eq_some_iff.mp hstep
    split at hstep
    case isFalse => cases hstep
    case isTrue hleaving =>
      cases hstep
      have hheld : run.held.isEmpty = false := by simpa using (Bool.and_eq_true_iff.mp hleaving).2
      exact h.update hrun (by simp [Process.ended, hheld]) rfl

theorem sound_init : State.Sound settings {} := by
  refine ⟨by simp, by simp, by simp, fun slot => ?_⟩
  exact Nat.zero_le _

theorem agrees_init : State.Agrees {} := by
  refine ⟨by simp, by simp⟩

theorem limits_hold {events : List Event} (hrun : Lib.run (step settings) {} events = some s) : Capped settings s := by
  have hsound : s.Sound settings := run_invariant (fun _ _ _ h => h.step) sound_init hrun
  exact hsound.capped

/-- Where every child agrees with those that have not ended, some child can always go on. -/
theorem children_go_on {events : List Event} (hrun : Lib.run (step settings) {} events = some s)
    (horderly : Along (step settings) (Orderly settings) {} events) : Bounded settings s := by
  have hboth : s.Sound settings ∧ s.Agrees := by
    refine run_invariant_along (I := fun s => s.Sound settings ∧ s.Agrees) ?_ ⟨sound_init, agrees_init⟩ horderly hrun
    rintro s e t ⟨hsound, hagrees⟩ horderly hstep
    exact ⟨hsound.step hstep, hagrees.step hsound horderly hstep⟩
  exact ⟨hboth.1.capped, hboth.1.progress hboth.2⟩

def narrow : Settings := {
  childConcurrency := 1
  childMaxDepth := 5
  childChainConcurrency := 8
  concurrent := by decide
  deep := by decide }

def delegation (parent : String) (childSid : String) (named : childSid ≠ "") : Child := .session {
  origin := .delegation
  parentSession := some parent
  childSid := childSid
  named := named
  context := true }

def firing : Child := .session {
  origin := .scheduler
  parentSession := some "scheduler:nightly"
  childSid := "firing"
  named := by decide
  context := true }

def nestedDelegation : List Event := [
  .spawn none (some 0) (delegation "chat" "chat:sub" (by decide)), .acquires 0, .acquires 0, .acquires 0, .acquires 0,
  .spawn (some 0) none (delegation "chat:sub" "chat:sub:sub" (by decide)), .acquires 1, .acquires 1, .acquires 1,
  .acquires 1, .finishes 1]

theorem children_go_on_nested :
    ∃ s, Lib.run (step narrow) {} nestedDelegation = some s ∧ s.runs.length = 2 ∧ Bounded narrow s := by
  have htrace : (Lib.run (step narrow) {} nestedDelegation).map (·.runs.length) = some 2 := rfl
  obtain ⟨s, hrun, hlength⟩ := Option.map_eq_some_iff.mp htrace
  exact ⟨s, hrun, hlength, children_go_on hrun (by decide)⟩

/-- A scheduled firing holds the runtime's first depth while its delegate waits for the session depth 1. The delegate of
a chat turn holds the session depth 1 while it waits for the runtime's first depth. -/
def crossedSpawns : List Event := [
  .spawn none (some 0) firing, .acquires 0, .acquires 0, .acquires 0, .acquires 0,
  .spawn none (some 1) (delegation "chat" "chat:sub" (by decide)), .acquires 1, .acquires 1,
  .spawn (some 0) none (delegation "firing" "firing:sub" (by decide)), .acquires 2]

theorem limits_hold_crossed : ∃ s, Lib.run (step narrow) {} crossedSpawns = some s ∧ s.runs.length = 3 ∧ Capped narrow s := by
  obtain ⟨s, hrun, hlength⟩ := Option.map_eq_some_iff.mp
    (rfl : (Lib.run (step narrow) {} crossedSpawns).map (·.runs.length) = some 3)
  exact ⟨s, hrun, hlength, limits_hold hrun⟩

theorem children_deadlock :
    ∃ s, Lib.run (step narrow) {} crossedSpawns = some s ∧ Deadlocked (Slot.capacity narrow) s.processes ∧
      ¬ Bounded narrow s := by
  have htrace : (Lib.run (step narrow) {} crossedSpawns).map
      (fun s => decide (Deadlocked (Slot.capacity narrow) s.processes)) = some true := rfl
  obtain ⟨s, hrun, hdecide⟩ := Option.map_eq_some_iff.mp htrace
  have hdead := of_decide_eq_true hdecide
  exact ⟨s, hrun, hdead, fun hbounded => hbounded.progress hdead⟩

end OpenAgent.Children.Slots
