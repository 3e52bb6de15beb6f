import OpenAgent.Search.Convergence

/-!
# Replaying a compacted outbox

Compaction drops, of every source, the rows that a newer consumed row supersedes, and forgets a chosen
source altogether once its last row is a consumed delete. A source is a name within a tenant here,
while a document has the name alone. So the rows of two tenants may speak of one document, and
forgetting the delete that one of them ended with uncovers what the other left behind. Unless that
happens the compacted outbox replays to the same index.
-/

namespace OpenAgent.Search

open Lib List

variable {κ δ : Type} [DecidableEq κ]

/-- `SELECT MIN(last_seq) FROM search_outbox_consumers` -/
def smallest (positions : Dict String Nat) : Nat := (positions.values.min?).getD 0

def dropped (box : Outbox κ Mark) (through : Nat) (chosen : List Nat) (r : OutboxRow κ Mark) : Bool :=
  superseded box through r || forgotten (box.prune (superseded box through)) through chosen r

def compacted (box : Outbox κ Mark) (through : Nat) (chosen : List Nat) : Outbox κ Mark :=
  (box.prune (superseded box through)).prune
    (forgotten (box.prune (superseded box through)) through chosen)

def RemovesBehind (box : Outbox κ Mark) (positions : Dict String Nat) (chosen : List Nat) : Prop :=
  ∀ r ∈ box.rows, r ∉ (compacted box (smallest positions) chosen).rows →
    (∀ p ∈ positions.values, r.seq ≤ p) ∧ r.seq < box.head

def Invisible (canon : κ → Option δ) (box : Outbox κ Mark) (through : Nat) (chosen : List Nat) : Prop :=
  ∀ k, (replay canon (compacted box through chosen)).get? k = (replay canon box).get? k

/-- The last row of a live source deletes it and is dropped, and the last row that stays for that
name, another tenant's, does not delete it. -/
def Uncovers (canon : κ → Option δ) (box : Outbox κ Mark) (through : Nat) (chosen : List Nat) (k : κ) : Prop :=
  (canon k).isSome = true ∧ (∃ r ∈ box.latest k, dropped box through chosen r = true) ∧
    ∃ s ∈ box.rows, s.key = k ∧ s.deletes = false ∧ dropped box through chosen s = false ∧
      ∀ x ∈ box.rows, x.key = k → dropped box through chosen x = false → x.seq ≤ s.seq

variable {box : Outbox κ Mark} {through : Nat} {chosen : List Nat} {positions : Dict String Nat}

theorem mem_compacted {r : OutboxRow κ Mark} :
    r ∈ (compacted box through chosen).rows ↔ r ∈ box.rows ∧ dropped box through chosen r = false := by
  rw [compacted, Outbox.mem_prune, Outbox.mem_prune, dropped, Bool.or_eq_false_iff, and_assoc]

theorem latest_compacted {k : κ} {s : OutboxRow κ Mark} :
    (compacted box through chosen).latest k = some s ↔
      s ∈ box.rows ∧ dropped box through chosen s = false ∧ s.key = k ∧
        ∀ x ∈ box.rows, x.key = k → dropped box through chosen x = false → x.seq ≤ s.seq := by
  rw [Outbox.latest_eq_some_iff, mem_compacted, and_assoc]
  constructor
  · rintro ⟨hs, hkept, hkey, hmax⟩
    exact ⟨hs, hkept, hkey, fun x hx hxkey hxkept => hmax x (mem_compacted.mpr ⟨hx, hxkept⟩) hxkey⟩
  · rintro ⟨hs, hkept, hkey, hmax⟩
    refine ⟨hs, hkept, hkey, fun x hx hxkey => ?_⟩
    obtain ⟨hx, hxkept⟩ := mem_compacted.mp hx
    exact hmax x hx hxkey hxkept

theorem deletes_of_dropped_latest {k : κ} {r : OutboxRow κ Mark} (hr : box.latest k = some r)
    (h : dropped box through chosen r = true) : r.deletes = true := by
  have hkept : superseded box through r = false := superseded_latest hr
  rw [dropped, hkept, Bool.false_or] at h
  obtain ⟨hmem, hkey, hmax⟩ := Outbox.latest_eq_some_iff.mp hr
  have hlatest : (box.prune (superseded box through)).latest k = some r :=
    Outbox.latest_eq_some_iff.mpr
      ⟨Outbox.mem_prune.mpr ⟨hmem, hkept⟩, hkey, fun s hs => hmax s (Outbox.mem_prune.mp hs).1⟩
  exact deletes_of_settled (forgotten_latest hlatest h)

/-! ### What compaction removes -/

theorem le_of_smallest {p : Nat} (hp : p ∈ positions.values) : smallest positions ≤ p := by
  unfold smallest
  cases hmin : positions.values.min? with
  | none => exact Nat.zero_le _
  | some m => exact (List.min?_eq_some_iff.mp hmin).2 p hp

theorem removes_behind (box : Outbox κ Mark) (positions : Dict String Nat) (chosen : List Nat) :
    RemovesBehind box positions chosen := by
  intro r hr hgone
  have hdropped : dropped box (smallest positions) chosen r = true := by
    by_contra hkept
    exact hgone (mem_compacted.mpr ⟨hr, by simpa using hkept⟩)
  rcases (Bool.or_eq_true _ _).mp hdropped with hsuperseded | hforgotten
  · refine ⟨fun p hp => (superseded_le hsuperseded).trans (le_of_smallest hp), ?_⟩
    simp only [superseded, decide_eq_true_eq] at hsuperseded
    obtain ⟨_, newer, hnewer, _, hlt, _⟩ := hsuperseded
    have hle := Outbox.le_head hnewer
    omega
  · refine ⟨fun p hp => (forgotten_le hforgotten).trans (le_of_smallest hp), ?_⟩
    simp only [forgotten, settled, decide_eq_true_eq] at hforgotten
    obtain ⟨d, _, _, ⟨_, _, hbelow, _⟩, _, hle⟩ := hforgotten
    have hhead := Outbox.head_prune_le box (superseded box (smallest positions))
    omega

/-! ### What a replay sees -/

theorem replay_differs_iff (canon : κ → Option δ) (k : κ) :
    (replay canon (compacted box through chosen)).get? k ≠ (replay canon box).get? k ↔
      Uncovers canon box through chosen k := by
  rw [get?_replay, get?_replay]
  constructor
  · intro hne
    cases hlatest : box.latest k with
    | none =>
      have hnone : (compacted box through chosen).latest k = none := by
        cases hs : (compacted box through chosen).latest k with
        | none => rfl
        | some s =>
          obtain ⟨hmem, _, hkey, _⟩ := latest_compacted.mp hs
          have hin : s ∈ box.rows.filter fun r => r.key = k := by simpa using ⟨hmem, hkey⟩
          simp [List.getLast?_eq_none_iff.mp hlatest] at hin
      rw [hnone, hlatest] at hne
      exact absurd rfl hne
    | some r =>
      obtain ⟨hmem, hkey, hmax⟩ := Outbox.latest_eq_some_iff.mp hlatest
      cases hdropped : dropped box through chosen r with
      | false =>
        have hstill : (compacted box through chosen).latest k = some r :=
          latest_compacted.mpr ⟨hmem, hdropped, hkey, fun x hx hxkey _ => hmax x hx hxkey⟩
        rw [hstill, hlatest] at hne
        exact absurd rfl hne
      | true =>
        have hdeletes := deletes_of_dropped_latest hlatest hdropped
        rw [hlatest] at hne
        simp only [hdeletes, if_true] at hne
        cases hs : (compacted box through chosen).latest k with
        | none =>
          rw [hs] at hne
          exact absurd rfl hne
        | some s =>
          rw [hs] at hne
          obtain ⟨hsmem, hskept, hskey, hsmax⟩ := latest_compacted.mp hs
          cases hsdel : s.deletes with
          | true =>
            simp only [hsdel, if_true] at hne
            exact absurd rfl hne
          | false =>
            simp only [hsdel, Bool.false_eq_true, if_false] at hne
            exact ⟨Option.isSome_iff_ne_none.mpr hne, ⟨r, hlatest, hdropped⟩, s, hsmem, hskey,
              hsdel, hskept, hsmax⟩
  · rintro ⟨hlive, ⟨r, hlatest, hdropped⟩, s, hsmem, hskey, hsdel, hskept, hsmax⟩
    have hdeletes := deletes_of_dropped_latest hlatest hdropped
    have hs : (compacted box through chosen).latest k = some s :=
      latest_compacted.mpr ⟨hsmem, hskept, hskey, hsmax⟩
    rw [hs, Option.mem_def.mp hlatest]
    simp only [hsdel, hdeletes, Bool.false_eq_true, if_false, if_true]
    exact Option.isSome_iff_ne_none.mp hlive

/-- Compaction removes consumed rows below the head only, and it is invisible to a replay exactly
when it uncovers no row of another tenant. -/
theorem compaction_is_invisible_iff (canon : κ → Option δ) (box : Outbox κ Mark)
    (positions : Dict String Nat) (chosen : List Nat) :
    RemovesBehind box positions chosen ∧ Invisible canon box (smallest positions) chosen ↔
      ∀ k, ¬ Uncovers canon box (smallest positions) chosen k := by
  constructor
  · rintro ⟨_, hsame⟩ k huncovers
    exact (replay_differs_iff canon k).mpr huncovers (hsame k)
  · intro hcovered
    refine ⟨removes_behind box positions chosen, fun k => ?_⟩
    by_contra hne
    exact hcovered k ((replay_differs_iff canon k).mp hne)

/-! ### The deletions and the replay of a pass -/

theorem run_prunes {ex : Extractors} {S : State} {batch : Nat}
    (hpass : S.pass = some (.superseding through batch)) (hchosen : chosen.length ≤ batch) :
    run (step ex) S [.pruneSuperseded, .pruneDeleted chosen] = some { S with
      canonical := { S.canonical with outbox := compacted S.canonical.outbox through chosen }
      pass := none } := by
  simp only [run, step, hpass, Option.bind_some, if_pos hchosen]
  rfl

theorem run_projects (ex : Extractors) {rows : List (OutboxRow SourceKey Mark)} {S : State}
    {working : Index} {batch : Nat} (hpass : S.pass = some (.indexing working rows batch)) :
    ∃ lastSeq, run (step ex) S (List.replicate rows.length .project) = some { S with
      pass := some (.indexing
        ⟨rows.foldl (follow (sourceRow ex S.canonical)) working.documents, lastSeq⟩ [] batch) } := by
  induction rows generalizing S working with
  | nil =>
    refine ⟨working.lastIndexedSeq, ?_⟩
    simp only [length_nil, replicate_zero, run_nil, foldl_nil, ← hpass]
  | cons row rest ih =>
    obtain ⟨lastSeq, hrest⟩ := ih (S := { S with pass := some (.indexing
      ⟨follow (sourceRow ex S.canonical) working.documents row, row.seq⟩ rest batch) }) rfl
    refine ⟨lastSeq, ?_⟩
    rw [length_cons, replicate_succ]
    refine run_cons.mpr ⟨_, ?_, hrest⟩
    simp only [step, hpass]

theorem run_replays {ex : Extractors} {S : State} {limit : Nat} (hpass : S.pass = none)
    (hall : S.canonical.outbox.rows.length ≤ max 1 (min limit 50000)) :
    ∃ S', run (step ex) S (.beginPass limit true ::
        List.replicate S.canonical.outbox.rows.length .project ++ [.commit]) = some S' ∧
      S'.index.documents = replay (sourceRow ex S.canonical) S.canonical.outbox := by
  have hunread : (S.canonical.outbox.unread Index.empty.lastIndexedSeq).take (max 1 (min limit 50000)) =
      S.canonical.outbox.rows := by
    have heverything : S.canonical.outbox.unread 0 = S.canonical.outbox.rows := by
      rw [Outbox.unread, filter_eq_self]
      intro r hr
      simpa using (S.canonical.outbox.numbered r hr).1
    show (S.canonical.outbox.unread 0).take _ = _
    rw [heverything, take_of_length_le hall]
  obtain ⟨lastSeq, hprojects⟩ := run_projects ex (S := { S with
    index := .empty
    pass := some (.indexing .empty S.canonical.outbox.rows (max 1 (min limit 50000))) }) rfl
  refine ⟨_, run_append.mpr ⟨_, run_cons.mpr ⟨_, ?_, hprojects⟩, rfl⟩, rfl⟩
  simp only [step, hpass, true_or, if_true, hunread]

/-! ### Two tenants, one name -/

namespace Sample

def twoTenants : Outbox String Mark := Outbox.empty.enqueueAll
  [⟨"s", false, "a", 1, 1⟩, ⟨"s", true, "b", 3, 1⟩, ⟨"t", false, "a", 1, 1⟩]

end Sample

/-- Forgetting the delete of one tenant brings back what the other tenant's row says. -/
theorem forgotten_delete_uncovers_another_tenant :
    ¬ ∀ (canon : String → Option String) (box : Outbox String Mark) (positions : Dict String Nat)
      (chosen : List Nat),
      RemovesBehind box positions chosen ∧ Invisible canon box (smallest positions) chosen := by
  intro h
  have hsame := (h some Sample.twoTenants (Dict.empty.set consumerId 3) [2]).2 "s"
  have hcompacted : (replay some (compacted Sample.twoTenants
      (smallest (Dict.empty.set consumerId 3)) [2])).get? "s" = some "s" := by
    rfl
  have hfull : (replay some Sample.twoTenants).get? "s" = none := by
    rfl
  simp [hcompacted, hfull] at hsame

end OpenAgent.Search
