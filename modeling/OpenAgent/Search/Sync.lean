import OpenAgent.Lib.Transition
import OpenAgent.Search.Writers

/-!
# The consumer of the outbox

The index and its synchronisation passes, one statement at a time, with the store's operations between
any two of them. A pass reads a batch of outbox rows, derives the document of each row from the
canonical rows as they are at that moment, and commits documents and position together; then it
records its position with the store and prunes the outbox. It may be abandoned before any statement:
what it has not committed is rolled back. Passes are serialised by a lock. A generation that does not
belong to these canonical rows is emptied before the batch is read, and so is one that claims to have
read further than the outbox goes.
-/

namespace OpenAgent.Search

open Lib

/-- `operational_search_v1.db`: the documents and `last_indexed_seq`. -/
structure Index where
  documents : Dict SourceKey Document
  lastIndexedSeq : Nat

def Index.empty : Index := ⟨.empty, 0⟩

inductive Pass
  /-- inside the transaction of the index -/
  | indexing (working : Index) (outbox : List (OutboxRow SourceKey Mark)) (batch : Nat)
  /-- the index is committed; the consumer's position is not recorded yet -/
  | committed (lastSeq batch : Nat)
  /-- every consumer has read the rows up to `through` -/
  | superseding (through batch : Nat)
  | deleting (through batch : Nat)

/-- The canonical database, the recorded positions of its consumers, the index and its pass. -/
structure State where
  canonical : Canonical
  consumers : Dict String Nat
  index : Index
  pass : Option Pass

def State.init : State := ⟨.empty, .empty, .empty, none⟩

def consumerId : String := "operational-fts-v1"

/-! ### Compaction -/

section Compaction

variable {κ : Type} [DecidableEq κ]

def sameSource (r s : OutboxRow κ Mark) : Bool := r.mark.tenantId = s.mark.tenantId ∧ r.key = s.key

def superseded (box : Outbox κ Mark) (through : Nat) (old : OutboxRow κ Mark) : Bool :=
  old.seq ≤ through ∧ ∃ newer ∈ box.rows, sameSource newer old ∧ old.seq < newer.seq ∧ newer.seq ≤ through

def settled (box : Outbox κ Mark) (through : Nat) (d : OutboxRow κ Mark) : Bool :=
  d.deletes ∧ d.seq ≤ through ∧ d.seq < box.head ∧ ∀ newer ∈ box.rows, sameSource newer d → newer.seq ≤ d.seq

def forgotten (box : Outbox κ Mark) (through : Nat) (chosen : List Nat) (r : OutboxRow κ Mark) : Bool :=
  ∃ d ∈ box.rows, d.seq ∈ chosen ∧ settled box through d ∧ sameSource r d ∧ r.seq ≤ d.seq

end Compaction

inductive Action
  | write (operation : Operation)
  /-- Open the index, reset it if it is `incompatible`, and read a batch. -/
  | beginPass (limit : Nat) (incompatible : Bool)
  /-- Project the next row of the batch. -/
  | project
  | commit
  | checkpoint
  | pruneSuperseded
  /-- Prune a batch of settled sources; which ones is for the query planner to say. -/
  | pruneDeleted (chosen : List Nat)
  | abandon

def step (ex : Extractors) (S : State) : Action → Option State
  | .write operation => some { S with canonical := (atomically (perform ex operation) S.canonical).2 }
  | .beginPass limit incompatible =>
    match S.pass with
    | some _ => none
    | none =>
      let index := if incompatible ∨ S.canonical.outbox.head < S.index.lastIndexedSeq then .empty else S.index
      let batch := max 1 (min limit 50000)
      some { S with
        index := index
        pass := some (.indexing index ((S.canonical.outbox.unread index.lastIndexedSeq).take batch) batch) }
  | .project =>
    match S.pass with
    | some (.indexing working (row :: rest) batch) => some { S with
        pass := some (.indexing
          ⟨follow (sourceRow ex S.canonical) working.documents row, row.seq⟩ rest batch) }
    | _ => none
  | .commit =>
    match S.pass with
    | some (.indexing working [] batch) =>
      some { S with index := working, pass := some (.committed working.lastIndexedSeq batch) }
    | _ => none
  | .checkpoint =>
    match S.pass with
    | some (.committed lastSeq batch) =>
      let consumers := S.consumers.set consumerId lastSeq
      some { S with
        consumers := consumers
        pass := some (.superseding ((consumers.values.min?).getD 0) batch) }
    | _ => none
  | .pruneSuperseded =>
    match S.pass with
    | some (.superseding through batch) => some { S with
        canonical := { S.canonical with
          outbox := S.canonical.outbox.prune (superseded S.canonical.outbox through) }
        pass := some (.deleting through batch) }
    | _ => none
  | .pruneDeleted chosen =>
    match S.pass with
    | some (.deleting through batch) =>
      if chosen.length ≤ batch then some { S with
        canonical := { S.canonical with
          outbox := S.canonical.outbox.prune (forgotten S.canonical.outbox through chosen) }
        pass := none }
      else none
    | _ => none
  | .abandon => S.pass.map fun _ => { S with pass := none }

def State.position (S : State) : Nat :=
  match S.pass with
  | some (.indexing working _ _) => working.lastIndexedSeq
  | _ => S.index.lastIndexedSeq

def State.consumed (S : State) : Prop := S.canonical.outbox.unread S.index.lastIndexedSeq = []

end OpenAgent.Search
