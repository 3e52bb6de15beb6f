import OpenAgent.Lib.Hierarchy
import OpenAgent.Lib.Transition

/-!
# The slots of child sessions

A child session goes through two gates. `run_child_session` counts its depth in a context variable and takes a
slot of its chain and a slot of its depth; the public runtime counts the depth of its run by its lineage, and takes
a slot of that depth and a slot of the tree. A member of a team is spawned by the runtime alone. A child gives its
slots back only after the children that it waits for have ended.
-/

namespace OpenAgent.Children.Slots

open Lib Lib.Hierarchy

/-- `RuntimeSettings`, whose constructor refuses other limits. -/
structure Settings where
  childConcurrency : Nat
  childMaxDepth : Nat
  childChainConcurrency : Nat
  concurrent : 1 ≤ childConcurrency
  deep : 1 ≤ childMaxDepth

inductive Origin
  | delegation | scheduler | workflow | event
deriving DecidableEq

/-- A run of the runtime: a turn or an operation that was submitted to it, or a child that it spawned. -/
inductive RunId
  | submitted (n : Nat)
  | child (i : Nat)
deriving DecidableEq

/-- A place in one of the semaphores: `_chain_semaphore` and `_global_semaphore` of `run_child_session`, `_child_slots`
and `_child_chain_slots` of the runtime. -/
inductive Slot
  | chainSem (root : String) (depth : Nat)
  | globalSem (depth : Nat)
  | childSlots (depth : Nat)
  | childChainSlots (root : RunId) (depth : Nat)
deriving DecidableEq

def tierCapacity (settings : Settings) (depth : Nat) : Nat :=
  if depth ≤ 1 then settings.childConcurrency else max 1 (settings.childConcurrency >>> (depth - 1))

/-- The capacity of a depth in `Runtime.spawn`. -/
def runtimeCapacity (settings : Settings) (depth : Nat) : Nat := max 1 (settings.childConcurrency >>> (depth - 1))

def Slot.capacity (settings : Settings) : Slot → Nat
  | .chainSem _ _ => settings.childChainConcurrency
  | .globalSem depth => tierCapacity settings depth
  | .childSlots depth => runtimeCapacity settings depth
  | .childChainSlots _ _ => settings.childChainConcurrency

/-- The context variables: `_depth_var` and `_root_var`, and the current run of the runtime with its ancestors, the
innermost first. -/
structure Ambient where
  depth : Nat := 0
  root : Option String := none
  lineage : List RunId := []
deriving DecidableEq

/-- A call of `run_child_session`: `context` says whether a runtime and an execution context are bound to it. -/
structure Request where
  origin : Origin
  parentSession : Option String
  childSid : String
  named : childSid ≠ ""
  context : Bool

/-- `a or b` -/
def pick (a : Option String) (b : String) : String :=
  match a with
  | none => b
  | some text => if text = "" then b else text

/-- `_chain_of`: the depth and the root of a spawn. -/
def chainOf (ambient : Ambient) (request : Request) : Nat × String :=
  (if request.origin = .delegation ∨ ambient.root.isSome then ambient.depth + 1 else 0,
    pick ambient.root (pick request.parentSession request.childSid))

def chainSemaphore (settings : Settings) (root : String) (depth : Nat) : Option Slot :=
  if root = "" ∨ settings.childChainConcurrency = 0 then none else some (.chainSem root depth)

def chainSlots (settings : Settings) (chain : Nat × String) : List Slot :=
  (chainSemaphore settings chain.2 chain.1).toList ++ [.globalSem chain.1]

/-- The depth and the root of a child in `Runtime.spawn`, which raises without a running parent, and below the
maximal depth. -/
def lineageOf (settings : Settings) (lineage : List RunId) : Option (Nat × RunId) :=
  lineage.getLast?.bind fun root => if settings.childMaxDepth < lineage.length then none else some (lineage.length, root)

def treeSlots (settings : Settings) (tree : Nat × RunId) : List Slot :=
  .childSlots tree.1 :: if settings.childChainConcurrency = 0 then [] else [.childChainSlots tree.2 tree.1]

def slots (settings : Settings) (chain : Option (Nat × String)) (tree : Option (Nat × RunId)) : List Slot :=
  chain.elim [] (chainSlots settings) ++ tree.elim [] (treeSlots settings)

/-- A child. `chain` is what `run_child_session` has computed for it and `tree` what the runtime has; `raises` says
that the runtime refuses it when it holds the slots of `run_child_session`; `ambient` is what it runs under. -/
structure Run extends Process Slot where
  chain : Option (Nat × String)
  tree : Option (Nat × RunId)
  raises : Bool
  ambient : Ambient
deriving DecidableEq

/-- The depth that `run_child_session` counts. -/
def Run.depth? (run : Run) : Option Nat := run.chain.map (·.1)

def Run.tier? (run : Run) : Option Nat := run.tree.map (·.1)

def Run.executes (run : Run) : Bool := !run.leaving && run.wanted.isEmpty && !run.raises

structure State where
  runs : List Run := []
deriving DecidableEq

def State.processes (s : State) : List (Process Slot) := s.runs.map Run.toProcess

/-- A call of `run_child_session`, or the delegation to a member of a team. -/
inductive Child
  | session (request : Request)
  | member

def spawned (settings : Settings) (ambient : Ambient) (i : Nat) (parent : Option Nat) : Child → Option Run
  | .session request =>
    let chain := chainOf ambient request
    let tree := if request.context then lineageOf settings ambient.lineage else none
    if settings.childMaxDepth < chain.1 then none
    else
      some {
        parent := parent
        wanted := slots settings (some chain) tree
        chain := some chain
        tree := tree
        raises := request.context && tree.isNone
        ambient := {
          depth := chain.1
          root := some chain.2
          lineage := if tree.isSome then .child i :: ambient.lineage else ambient.lineage } }
  | .member =>
    (lineageOf settings ambient.lineage).map fun tree => {
      parent := parent
      wanted := slots settings none (some tree)
      chain := none
      tree := some tree
      raises := false
      ambient := { ambient with lineage := .child i :: ambient.lineage } }

inductive Event
  /-- A spawn in the child `parent`, or outside of all children; in the run that it is made in, or in one that is
  `submitted` there. -/
  | spawn (parent : Option Nat) (submitted : Option Nat) (child : Child)
  | acquires (i : Nat)
  /-- The agent's run ends in whatever way, or the wait for a slot is cancelled. -/
  | finishes (i : Nat)
  | releases (i : Nat)

def State.inherited (s : State) : Option Nat → Option Ambient
  | none => some {}
  | some i => s.runs[i]?.bind fun run => if run.executes then some run.ambient else none

def State.ambient (s : State) (parent : Option Nat) (submitted : Option Nat) : Option Ambient :=
  (s.inherited parent).map fun ambient => submitted.elim ambient fun n => { ambient with lineage := [.submitted n] }

def State.born (settings : Settings) (s : State) : Event → Option Run
  | .spawn parent submitted child =>
    (s.ambient parent submitted).bind fun ambient => spawned settings ambient s.runs.length parent child
  | _ => none

def State.update (s : State) (i : Nat) (run : Run) (process : Process Slot) : State :=
  { s with runs := s.runs.set i { run with toProcess := process } }

def step (settings : Settings) (s : State) : Event → Option State
  | .spawn parent submitted child =>
    if (s.ambient parent submitted).isNone then none
    else some { s with runs := s.runs ++ (s.born settings (.spawn parent submitted child)).toList }
  | .acquires i =>
    s.runs[i]?.bind fun run =>
      match run.wanted with
      | [] => none
      | slot :: _ =>
        if holders s.processes slot < slot.capacity settings then some (s.update i run run.acquire) else none
  | .finishes i =>
    s.runs[i]?.bind fun run =>
      if run.leaving || awaits s.processes i then none else some (s.update i run run.finish)
  | .releases i =>
    s.runs[i]?.bind fun run =>
      if run.leaving && !run.held.isEmpty then some (s.update i run run.release) else none

/-! ### What the limits promise -/

/-- How many runs that execute satisfy `P`. -/
def State.executing (s : State) (P : Run → Bool) : Nat := s.runs.countP fun run => run.executes && P run

/-- No child is too deep, and no more than the limits allow execute at once, of one chain or tree at one depth, and at
one depth of all. -/
structure Capped (settings : Settings) (s : State) : Prop where
  chainDepth : ∀ run ∈ s.runs, ∀ depth root, run.chain = some (depth, root) → depth ≤ settings.childMaxDepth
  treeDepth : ∀ run ∈ s.runs, ∀ depth root, run.tree = some (depth, root) → depth ≤ settings.childMaxDepth
  chain : ∀ root depth, settings.childChainConcurrency ≠ 0 →
    s.executing (·.chain == some (depth, root)) ≤ settings.childChainConcurrency
  tier : ∀ depth, s.executing (·.depth? == some depth) ≤ tierCapacity settings depth
  tree : ∀ root depth, settings.childChainConcurrency ≠ 0 →
    s.executing (·.tree == some (depth, root)) ≤ settings.childChainConcurrency
  treeTier : ∀ depth, s.executing (·.tier? == some depth) ≤ runtimeCapacity settings depth

/-- The limits hold, and if there are children that have not ended, one of them can go on. -/
structure Bounded (settings : Settings) (s : State) : Prop extends Capped settings s where
  progress : ¬ Deadlocked (Slot.capacity settings) s.processes

/-! ### The two counts of depth -/

def State.parentOf (s : State) (run : Run) : Option Run := run.parent.bind (s.runs[·]?)

def State.depthsAbove (s : State) (run : Run) : List Nat :=
  run.depth?.toList ++ ((s.parentOf run).bind Run.depth?).toList

def State.tiersAbove (s : State) (run : Run) : List Nat := ((s.parentOf run).bind Run.tier?).toList

/-- No two children that have not ended take the two depths in opposite turns, and each lies deeper in the runtime
than its parent. -/
structure State.Agrees (s : State) : Prop where
  turns : ∀ x ∈ s.runs, ∀ y ∈ s.runs, x.ended = false → y.ended = false →
    ∀ tier ∈ x.tier?, ∀ depth ∈ s.depthsAbove x, ∀ depth' ∈ y.depth?, ∀ tier' ∈ s.tiersAbove y,
      depth' ≤ depth → tier' < tier
  deeper : ∀ run ∈ s.runs, run.ended = false → ∀ tier ∈ run.tier?, ∀ tier' ∈ s.tiersAbove run, tier' < tier

instance (s : State) : Decidable s.Agrees := decidable_of_iff (_ ∧ _) ⟨fun h => ⟨h.1, h.2⟩, fun h => ⟨h.turns, h.deeper⟩⟩

def Orderly (settings : Settings) (s : State) (e : Event) : Prop :=
  ∀ run ∈ s.born settings e, State.Agrees { s with runs := s.runs ++ [run] }

instance (settings : Settings) (s : State) (e : Event) : Decidable (Orderly settings s e) :=
  inferInstanceAs (Decidable (∀ run ∈ s.born settings e, _))

end OpenAgent.Children.Slots
