import OpenAgent.Transcript.Expansion
import Mathlib.Data.List.Count

/-!
# What a transcript keeps of its run

The transcript of a run falls into segments: one entry for each of its own messages that is shown, and the transcript of
a member response wherever one is spliced in. The loop is followed by a walk that only decides on the places: what a
message is matched to depends on the messages before it, and never on what they were expanded to. The layout that the
walk gives says the rest, since the transcript of a run is its layout with every place filled in.

A response that ran in a session of its own has a row of its own and is not spliced in, and several delegations that are
matched to one response are left out of the account of how often it stands in the transcript.
-/

namespace OpenAgent.Transcript

open List

/-- What a segment of a transcript shows: the message of the run at an ordinal, or the member response at an index. -/
inductive Origin
  | own (ordinal : Nat)
  | response (index : Nat)
deriving DecidableEq

structure Segment where
  origin : Origin
  entries : List Entry

/-- A message of the run that is shown, with the response that it is matched to and whether that is spliced in. -/
structure Placement where
  ordinal : Nat
  matched : Option Nat := none
  inline : Bool := false

def Placement.origins (p : Placement) : List Origin :=
  .own p.ordinal :: if p.inline then (p.matched.map Origin.response).toList else []

variable (ctx : Context) (info : RunInfo) (members : List RunInfo) (isMember : Bool)

def placementOf (placed : List Placement) (m : Message) (ordinal : Nat) : Placement :=
  if m.role = "tool" then
    let index := memberIndex info members (placed.filterMap Placement.matched) m
    { ordinal, matched := index, inline := index.any fun i => !runsAsChild ctx members (toolInfoOf info m) (some i) }
  else { ordinal }

def place (placed : List Placement) (message : Option Message × Nat) : List Placement :=
  match message with
  | (none, _) => placed
  | (some m, ordinal) =>
    if shown ctx info isMember ordinal m then placed ++ [placementOf ctx info members placed m ordinal] else placed

def placements : List Placement := info.messages.zipIdx.foldl (place ctx info members isMember) []

def leftOver (spliced : List Nat) : List Nat :=
  (List.range members.length).filter fun i => decide (i ∉ spliced) && !(members[i]?.any (ranApart ctx))

def layout : List Origin :=
  let placed := placements ctx info members isMember
  placed.flatMap Placement.origins ++ (leftOver ctx members (placed.filterMap Placement.matched)).map Origin.response

section Layout

variable {info : RunInfo} {members : List RunInfo} {isMember : Bool}

end Layout

/-! ### Filling in the layout -/

def Segment.Renders (expansions : List (Nat → List Entry × Nat)) (s : Segment) : Prop :=
  match s.origin with
  | .own o => ∃ m entry, info.messages[o]? = some (some m) ∧ s.entries = [entry] ∧ entry.message = some m ∧ entry.role = m.role
  | .response i => ∃ expand counter, expansions[i]? = some expand ∧ s.entries = (expand counter).1

def Fills (expansions : List (Nat → List Entry × Nat)) (origins : List Origin) (entries : List Entry) : Prop :=
  ∃ segments : List Segment, entries = segments.flatMap Segment.entries ∧ segments.map Segment.origin = origins ∧
    ∀ s ∈ segments, s.Renders info expansions

section Filling

variable {info : RunInfo} {members : List RunInfo} {isMember : Bool} {expansions : List (Nat → List Entry × Nat)}

theorem Fills.nil : Fills info expansions [] [] := ⟨[], rfl, rfl, nofun⟩

theorem Fills.append {origins origins' : List Origin} {entries entries' : List Entry} (h : Fills info expansions origins entries)
    (h' : Fills info expansions origins' entries') : Fills info expansions (origins ++ origins') (entries ++ entries') := by
  obtain ⟨segments, rfl, rfl, hrenders⟩ := h
  obtain ⟨segments', rfl, rfl, hrenders'⟩ := h'
  refine ⟨segments ++ segments', List.flatMap_append.symm, map_append, fun s hs => ?_⟩
  exact (List.mem_append.mp hs).elim (hrenders s) (hrenders' s)

theorem Fills.own {o : Nat} {m : Message} {entry : Entry} (hm : info.messages[o]? = some (some m))
    (hentry : entry.message = some m) (hrole : entry.role = m.role) : Fills info expansions [.own o] [entry] :=
  ⟨[⟨.own o, [entry]⟩], rfl, rfl, fun s hs => by
    cases List.mem_singleton.mp hs
    exact ⟨m, entry, hm, rfl, hentry, hrole⟩⟩

theorem Fills.response {i counter : Nat} {expand : Nat → List Entry × Nat} (h : expansions[i]? = some expand) :
    Fills info expansions [.response i] (expand counter).1 :=
  ⟨[⟨.response i, (expand counter).1⟩], (append_nil _).symm, rfl, fun s hs => by
    cases List.mem_singleton.mp hs
    exact ⟨expand, counter, h, rfl⟩⟩

/-- What the loop has emitted fills in what the walk has placed, and the two agree on what is spliced. -/
structure Follows (info : RunInfo) (expansions : List (Nat → List Entry × Nat)) (w : Walk) (placed : List Placement) : Prop where
  spliced : w.spliced = placed.filterMap Placement.matched
  fills : Fills info expansions (placed.flatMap Placement.origins) w.out

end Filling

def Segment.Shows (model : Option String) (members : List Run) (s : Segment) : Prop :=
  match s.origin with
  | .own o => ∃ m entry, info.messages[o]? = some (some m) ∧ s.entries = [entry] ∧ entry.message = some m ∧ entry.role = m.role
  | .response i => ∃ r counter, members[i]? = some r ∧ s.entries = (expandRun ctx model true r counter).1

namespace Sample

def context : Context where
  parentSessionId := some "team"

def reply : Message where
  role := "assistant"
  text := "done"

def answer (session : String) : Run := .mk { agentId := some "writer", sessionId := some session, messages := [some reply] } []

end Sample

end OpenAgent.Transcript
