import Mathlib.Data.List.Pairwise
import OpenAgent.Lib.Dict

/-!
# Outboxes

A writer announces in a table of its own which of its sources it has touched, and a reader follows the
table in order and keeps one document for each source. A notice names the source and the version that
is new, and the table takes each notice once, so a writer that repeats a version announces nothing.
The reader asks for the source as it stands when it reads the row, never for what the row said.

Two properties carry the reader. The table tells the truth when the last row of a live source does not
delete it, and a reader has caught up with every source whose rows lie behind its position. A write
keeps both if each source it changes is announced.
-/

namespace Lib

open List

variable {κ μ δ : Type}

structure Notice (κ μ : Type) where
  key : κ
  deletes : Bool
  mark : μ
deriving DecidableEq

structure OutboxRow (κ μ : Type) extends Notice κ μ where
  seq : Nat
deriving DecidableEq

structure Outbox (κ μ : Type) where
  rows : List (OutboxRow κ μ)
  sequence : Nat
  ordered : rows.Pairwise fun a b => a.seq < b.seq
  numbered : ∀ r ∈ rows, 0 < r.seq ∧ r.seq ≤ sequence

namespace Outbox

def empty : Outbox κ μ := ⟨[], 0, .nil, by simp⟩

/-- `SELECT COALESCE(MAX(seq), 0)` -/
def head (box : Outbox κ μ) : Nat := ((box.rows.map OutboxRow.seq).max?).getD 0

/-- The rows a reader at `position` has not read. -/
def unread (box : Outbox κ μ) (position : Nat) : List (OutboxRow κ μ) :=
  box.rows.filter fun r => position < r.seq

/-- `DELETE FROM outbox WHERE p` -/
def prune (box : Outbox κ μ) (p : OutboxRow κ μ → Bool) : Outbox κ μ where
  rows := box.rows.filter fun r => !p r
  sequence := box.sequence
  ordered := box.ordered.filter _
  numbered := fun r hr => box.numbered r (List.mem_of_mem_filter hr)

variable {box : Outbox κ μ} {r : OutboxRow κ μ}

theorem mem_prune {p : OutboxRow κ μ → Bool} :
    r ∈ (box.prune p).rows ↔ r ∈ box.rows ∧ p r = false := by
  simp [prune, List.mem_filter]

theorem mem_unread {position : Nat} :
    r ∈ box.unread position ↔ r ∈ box.rows ∧ position < r.seq := by
  simp [unread, List.mem_filter]

theorem eq_of_seq {s : OutboxRow κ μ} (hr : r ∈ box.rows) (hs : s ∈ box.rows) (hseq : r.seq = s.seq)
    : r = s := by
  by_contra hne
  have hapart : box.rows.Pairwise fun a b => a.seq ≠ b.seq := box.ordered.imp fun h => by omega
  have hsymm : Std.Symm fun a b : OutboxRow κ μ => a.seq ≠ b.seq := ⟨fun _ _ h => h.symm⟩
  exact hapart.forall hr hs hne hseq

theorem unread_ordered (box : Outbox κ μ) (position : Nat) :
    (box.unread position).Pairwise fun a b => a.seq < b.seq := box.ordered.filter _

theorem unread_cons {position : Nat} {rest : List (OutboxRow κ μ)} (h : box.unread position = r :: rest)
    : box.unread r.seq = rest := by
  have hr : position < r.seq := (mem_unread.mp (h ▸ mem_cons_self)).2
  have hrest := (List.pairwise_cons.mp (h ▸ box.unread_ordered position)).1
  calc box.unread r.seq = (box.unread position).filter fun x => r.seq < x.seq := by
        rw [unread, unread, filter_filter]
        apply filter_congr
        intro x _
        rw [Bool.eq_iff_iff, Bool.and_eq_true, decide_eq_true_iff, decide_eq_true_iff]
        omega
    _ = rest := by
        rw [h, filter_cons_of_neg (by simp), filter_eq_self]
        intro x hx
        simpa using hrest x hx

theorem le_head (hr : r ∈ box.rows) : r.seq ≤ box.head := by
  unfold head
  cases hmax : (box.rows.map OutboxRow.seq).max? with
  | none =>
    have hnil := List.map_eq_nil_iff.mp (List.max?_eq_none_iff.mp hmax)
    simp [hnil] at hr
  | some m => exact (List.max?_eq_some_iff.mp hmax).2 _ (mem_map_of_mem hr)

theorem head_prune_le (box : Outbox κ μ) (p : OutboxRow κ μ → Bool) : (box.prune p).head ≤ box.head := by
  unfold head
  cases hmax : ((box.prune p).rows.map OutboxRow.seq).max? with
  | none => exact Nat.zero_le _
  | some m =>
    obtain ⟨r, hr, rfl⟩ := List.mem_map.mp (List.max?_eq_some_iff.mp hmax).1
    exact le_head (mem_prune.mp hr).1

variable [DecidableEq κ]

def latest (box : Outbox κ μ) (k : κ) : Option (OutboxRow κ μ) :=
  (box.rows.filter fun r => r.key = k).getLast?

/-- The last row of `k` is not read yet, and it does not delete. -/
def Awaits (box : Outbox κ μ) (position : Nat) (k : κ) : Prop :=
  ∃ r ∈ box.latest k, r.deletes = false ∧ position < r.seq

instance (box : Outbox κ μ) (position : Nat) (k : κ) : Decidable (box.Awaits position k) :=
  inferInstanceAs (Decidable (∃ r ∈ box.latest k, _))

theorem mem_of_latest {k : κ} (h : box.latest k = some r) :
    r ∈ box.rows ∧ r.key = k := by
  simpa using mem_of_getLast? h

theorem le_latest {k : κ} {s : OutboxRow κ μ} (h : box.latest k = some r) (hs : s ∈ box.rows)
    (hkey : s.key = k) : s.seq ≤ r.seq := by
  obtain ⟨front, hfront⟩ := List.getLast?_eq_some_iff.mp h
  have hsplit : s ∈ front ++ [r] := by
    rw [← hfront]
    simpa using ⟨hs, hkey⟩
  have hordered : (front ++ [r]).Pairwise fun a b => a.seq < b.seq := hfront ▸ box.ordered.filter _
  rcases List.mem_append.mp hsplit with hin | hin
  · have hlt := (List.pairwise_append.mp hordered).2.2 s hin r (by simp)
    omega
  · cases List.mem_singleton.mp hin
    exact Nat.le_refl _

theorem latest_eq_some_iff {k : κ} :
    box.latest k = some r ↔
      r ∈ box.rows ∧ r.key = k ∧ ∀ s ∈ box.rows, s.key = k → s.seq ≤ r.seq := by
  constructor
  · intro h
    obtain ⟨hmem, hkey⟩ := mem_of_latest h
    exact ⟨hmem, hkey, fun s hs hskey => le_latest h hs hskey⟩
  · rintro ⟨hmem, hkey, hmax⟩
    cases hlast : box.latest k with
    | none =>
      have hnil := List.getLast?_eq_none_iff.mp hlast
      have hin : r ∈ box.rows.filter fun x => x.key = k := by simpa using ⟨hmem, hkey⟩
      rw [hnil] at hin
      exact absurd hin (by simp)
    | some x =>
      obtain ⟨hx, hxkey⟩ := mem_of_latest hlast
      have hle := hmax x hx hxkey
      have hge := le_latest hlast hmem hkey
      rw [eq_of_seq hx hmem (by omega)]

/-! ### Writing -/

def Holds (box : Outbox κ μ) (n : Notice κ μ) : Prop := ∃ r ∈ box.rows, r.toNotice = n

/-- A write announces a source when one of its notices is new to the table, or when the last row of
the source still waits to be read and does not delete it. -/
def Announced (box : Outbox κ μ) (ns : List (Notice κ μ)) (position : Nat) (k : κ) : Prop :=
  (∃ n ∈ ns, n.key = k ∧ ¬ box.Holds n) ∨ box.Awaits position k

theorem Announced.of_le {ns : List (Notice κ μ)} {p q : Nat} {k : κ} (h : box.Announced ns q k)
    (hle : p ≤ q) : box.Announced ns p k := by
  rcases h with hnew | ⟨r, hr, hlive, hunread⟩
  · exact .inl hnew
  · exact .inr ⟨r, hr, hlive, Nat.lt_of_le_of_lt hle hunread⟩

variable [DecidableEq μ]

instance (box : Outbox κ μ) (n : Notice κ μ) : Decidable (box.Holds n) :=
  inferInstanceAs (Decidable (∃ r ∈ box.rows, _))

/-- `INSERT OR IGNORE` -/
def enqueue (box : Outbox κ μ) (n : Notice κ μ) : Outbox κ μ :=
  if box.Holds n then box
  else {
    rows := box.rows ++ [{ n with seq := box.sequence + 1 }]
    sequence := box.sequence + 1
    ordered := by
      refine List.pairwise_append.mpr ⟨box.ordered, List.pairwise_singleton _ _, ?_⟩
      intro a ha b hb
      cases List.mem_singleton.mp hb
      exact Nat.lt_succ_of_le (box.numbered a ha).2
    numbered := by
      intro r hr
      rcases List.mem_append.mp hr with hr | hr
      · exact ⟨(box.numbered r hr).1, Nat.le_succ_of_le (box.numbered r hr).2⟩
      · cases List.mem_singleton.mp hr
        exact ⟨Nat.succ_pos _, Nat.le_refl _⟩ }

def enqueueAll (box : Outbox κ μ) (ns : List (Notice κ μ)) : Outbox κ μ := ns.foldl enqueue box

instance (box : Outbox κ μ) (ns : List (Notice κ μ)) (position : Nat) (k : κ) :
    Decidable (box.Announced ns position k) :=
  inferInstanceAs (Decidable ((∃ n ∈ ns, _) ∨ _))

structure Adds (box : Outbox κ μ) (ns : List (Notice κ μ)) (added : List (OutboxRow κ μ))
    (box' : Outbox κ μ) : Prop where
  rows : box'.rows = box.rows ++ added
  behind : ∀ r ∈ added, box.sequence < r.seq
  from_notice : ∀ r ∈ added, r.toNotice ∈ ns
  every_new : ∀ n ∈ ns, ¬ box.Holds n → ∃ r ∈ added, r.toNotice = n
  sequence : box.sequence ≤ box'.sequence

theorem enqueue_adds (box : Outbox κ μ) (n : Notice κ μ) :
    ∃ added, box.Adds [n] added (box.enqueue n) := by
  unfold enqueue
  split
  · rename_i hholds
    refine ⟨[], by simp, by simp, by simp, ?_, Nat.le_refl _⟩
    intro m hm hnew
    cases List.mem_singleton.mp hm
    exact absurd hholds hnew
  · refine ⟨[{ n with seq := box.sequence + 1 }], rfl, by simp, by simp, ?_, Nat.le_succ _⟩
    intro m hm _
    cases List.mem_singleton.mp hm
    exact ⟨_, mem_singleton_self _, rfl⟩

theorem enqueueAll_adds (box : Outbox κ μ) (ns : List (Notice κ μ)) :
    ∃ added, box.Adds ns added (box.enqueueAll ns) := by
  induction ns generalizing box with
  | nil => exact ⟨[], by simp [enqueueAll], by simp, by simp, by simp, Nat.le_refl _⟩
  | cons n rest ih =>
    obtain ⟨first, hfirst⟩ := box.enqueue_adds n
    obtain ⟨later, hlater⟩ := ih (box.enqueue n)
    refine ⟨first ++ later, ?_, ?_, ?_, ?_, ?_⟩
    · show ((box.enqueue n).enqueueAll rest).rows = _
      rw [hlater.rows, hfirst.rows, append_assoc]
    · intro r hr
      rcases List.mem_append.mp hr with hr | hr
      · exact hfirst.behind r hr
      · exact Nat.lt_of_le_of_lt hfirst.sequence (hlater.behind r hr)
    · intro r hr
      rcases List.mem_append.mp hr with hr | hr
      · rw [List.mem_singleton.mp (hfirst.from_notice r hr)]
        exact mem_cons_self
      · exact mem_cons_of_mem _ (hlater.from_notice r hr)
    · intro m hm hnew
      by_cases hagain : (box.enqueue n).Holds m
      · obtain ⟨r, hr, hrm⟩ := hagain
        rw [hfirst.rows] at hr
        rcases List.mem_append.mp hr with hr | hr
        · exact absurd ⟨r, hr, hrm⟩ hnew
        · exact ⟨r, mem_append_left _ hr, hrm⟩
      · rcases List.mem_cons.mp hm with rfl | hm
        · obtain ⟨r, hr, hrm⟩ := hfirst.every_new m (mem_singleton_self _) hnew
          exact ⟨r, mem_append_left _ hr, hrm⟩
        · obtain ⟨r, hr, hrm⟩ := hlater.every_new m hm hagain
          exact ⟨r, mem_append_right _ hr, hrm⟩
    · exact Nat.le_trans hfirst.sequence hlater.sequence

theorem mem_enqueueAll {ns : List (Notice κ μ)} (h : r ∈ (box.enqueueAll ns).rows)
    : r ∈ box.rows ∨ r.toNotice ∈ ns := by
  obtain ⟨added, hadds⟩ := box.enqueueAll_adds ns
  rw [hadds.rows] at h
  exact (List.mem_append.mp h).imp_right (hadds.from_notice r)

theorem unread_enqueueAll (box : Outbox κ μ) (ns : List (Notice κ μ)) (position : Nat) :
    box.unread position <+: (box.enqueueAll ns).unread position := by
  obtain ⟨added, hadds⟩ := box.enqueueAll_adds ns
  rw [unread, unread, hadds.rows, filter_append]
  exact prefix_append _ _

end Outbox

/-! ### Telling the truth and catching up -/

section Follow

variable [DecidableEq κ] {box : Outbox κ μ} {canon canon' : κ → Option δ} {docs : Dict κ δ}
  {position : Nat}

def Tells (box : Outbox κ μ) (canon : κ → Option δ) : Prop :=
  ∀ k d, canon k = some d → ∃ r, box.latest k = some r ∧ r.deletes = false

def CaughtUp (box : Outbox κ μ) (canon : κ → Option δ) (docs : Dict κ δ) (position : Nat) : Prop :=
  ∀ k, (∀ r ∈ box.rows, r.key = k → r.seq ≤ position) → docs.get? k = canon k

/-- Read one row: forget the document of its source, and derive it again from the source as it is
now unless the row deletes. -/
def follow (canon : κ → Option δ) (docs : Dict κ δ) (r : OutboxRow κ μ) : Dict κ δ :=
  if r.deletes then docs.pop r.key
  else
    match canon r.key with
    | some d => (docs.pop r.key).set r.key d
    | none => docs.pop r.key

theorem get?_follow (canon : κ → Option δ) (docs : Dict κ δ) (r : OutboxRow κ μ) (k : κ) :
    (follow canon docs r).get? k =
      if k = r.key then (if r.deletes then none else canon k) else docs.get? k := by
  unfold follow
  by_cases hk : k = r.key
  · subst hk
    cases hdel : r.deletes with
    | true => simp
    | false =>
      cases hcanon : canon r.key with
      | none => simp
      | some d => simp
  · cases hdel : r.deletes with
    | true => simp [Dict.get?_pop, hk]
    | false =>
      cases hcanon : canon r.key with
      | none => simp [Dict.get?_pop, hk]
      | some d => simp [Dict.get?_pop, Dict.get?_set, hk]

def replay (canon : κ → Option δ) (box : Outbox κ μ) : Dict κ δ :=
  box.rows.foldl (follow canon) .empty

theorem get?_foldl_follow (canon : κ → Option δ) (rows : List (OutboxRow κ μ)) (docs : Dict κ δ) (k : κ) :
    (rows.foldl (follow canon) docs).get? k =
      match (rows.filter fun r => r.key = k).getLast? with
      | some r => if r.deletes then none else canon k
      | none => docs.get? k := by
  induction rows generalizing docs with
  | nil => rfl
  | cons r rest ih =>
    rw [foldl_cons, ih]
    by_cases hkey : r.key = k
    · rw [filter_cons_of_pos (by simpa using hkey), getLast?_cons]
      cases hlast : (rest.filter fun r => r.key = k).getLast? with
      | some s => rfl
      | none =>
        show (follow canon docs r).get? k = _
        rw [get?_follow, if_pos hkey.symm]
        rfl
    · rw [filter_cons_of_neg (by simpa using hkey)]
      cases hlast : (rest.filter fun r => r.key = k).getLast? with
      | some s => rfl
      | none =>
        show (follow canon docs r).get? k = _
        rw [get?_follow, if_neg (Ne.symm hkey)]

theorem get?_replay (canon : κ → Option δ) (box : Outbox κ μ) (k : κ) :
    (replay canon box).get? k =
      match box.latest k with
      | some r => if r.deletes then none else canon k
      | none => none := get?_foldl_follow canon box.rows .empty k

theorem CaughtUp.follow {r : OutboxRow κ μ} {rest : List (OutboxRow κ μ)}
    (hcaught : CaughtUp box canon docs position) (htells : Tells box canon)
    (hunread : box.unread position = r :: rest) :
    CaughtUp box canon (follow canon docs r) r.seq := by
  have hr : r ∈ box.rows := (Outbox.mem_unread.mp (hunread ▸ mem_cons_self)).1
  intro k hread
  rw [get?_follow]
  by_cases hk : k = r.key
  · subst hk
    have hlatest : box.latest r.key = some r := Outbox.latest_eq_some_iff.mpr ⟨hr, rfl, hread⟩
    cases hdel : r.deletes with
    | false => simp
    | true =>
      cases hcanon : canon r.key with
      | none => simp
      | some d =>
        obtain ⟨x, hx, hlive⟩ := htells r.key d hcanon
        cases hlatest.symm.trans hx
        simp [hdel] at hlive
  · rw [if_neg hk]
    refine hcaught k fun s hs hskey => ?_
    by_contra hnew
    have hmem : s ∈ r :: rest := hunread ▸ Outbox.mem_unread.mpr ⟨hs, by omega⟩
    have hle := hread s hs hskey
    rcases List.mem_cons.mp hmem with rfl | hrest
    · exact hk hskey.symm
    · have hordered := (List.pairwise_cons.mp (hunread ▸ box.unread_ordered position)).1 s hrest
      omega

theorem caughtUp_empty (htells : Tells box canon) : CaughtUp box canon .empty 0 := by
  intro k hread
  cases hcanon : canon k with
  | none => rfl
  | some d =>
    obtain ⟨r, hr, _⟩ := htells k d hcanon
    obtain ⟨hmem, hkey⟩ := Outbox.mem_of_latest hr
    have hle := hread r hmem hkey
    have hlt := (box.numbered r hmem).1
    omega

theorem CaughtUp.prune {p : OutboxRow κ μ → Bool} (hcaught : CaughtUp box canon docs position)
    (hread : ∀ r ∈ box.rows, p r = true → r.seq ≤ position) :
    CaughtUp (box.prune p) canon docs position := by
  intro k hk
  refine hcaught k fun r hr hkey => ?_
  cases hp : p r with
  | true => exact hread r hr hp
  | false => exact hk r (Outbox.mem_prune.mpr ⟨hr, hp⟩) hkey

theorem Tells.prune {p : OutboxRow κ μ → Bool} (htells : Tells box canon)
    (hlast : ∀ k r, box.latest k = some r → r.deletes = false → p r = false) :
    Tells (box.prune p) canon := by
  intro k d hcanon
  obtain ⟨r, hr, hlive⟩ := htells k d hcanon
  obtain ⟨hmem, hkey, hmax⟩ := Outbox.latest_eq_some_iff.mp hr
  refine ⟨r, Outbox.latest_eq_some_iff.mpr ⟨?_, hkey, ?_⟩, hlive⟩
  · exact Outbox.mem_prune.mpr ⟨hmem, hlast k r hr hlive⟩
  · exact fun s hs => hmax s (Outbox.mem_prune.mp hs).1

variable [DecidableEq μ] {ns : List (Notice κ μ)}

theorem CaughtUp.write (hcaught : CaughtUp box canon docs position)
    (hposition : position ≤ box.sequence)
    (hchanged : ∀ k, canon' k ≠ canon k → box.Announced ns position k) :
    CaughtUp (box.enqueueAll ns) canon' docs position := by
  obtain ⟨added, hadds⟩ := box.enqueueAll_adds ns
  intro k hread
  by_cases hsame : canon' k = canon k
  · rw [hsame]
    refine hcaught k fun r hr => hread r ?_
    rw [hadds.rows]
    exact mem_append_left _ hr
  · rcases hchanged k hsame with ⟨n, hn, hkey, hnew⟩ | ⟨r, hr, _, hunread⟩
    · obtain ⟨r, hr, hrn⟩ := hadds.every_new n hn hnew
      have hbehind := hadds.behind r hr
      have hle := hread r (by rw [hadds.rows]; exact mem_append_right _ hr) (by rw [hrn, hkey])
      omega
    · obtain ⟨hmem, hkey⟩ := Outbox.mem_of_latest hr
      have hle := hread r (by rw [hadds.rows]; exact mem_append_left _ hmem) hkey
      omega

theorem Tells.write (htells : Tells box canon)
    (hdeletes : ∀ n ∈ ns, n.deletes = true → canon' n.key = none)
    (hchanged : ∀ k, canon' k ≠ canon k → box.Announced ns position k) :
    Tells (box.enqueueAll ns) canon' := by
  obtain ⟨added, hadds⟩ := box.enqueueAll_adds ns
  intro k d hcanon
  have hfilter : ((box.enqueueAll ns).rows.filter fun r => r.key = k) =
      (box.rows.filter fun r => r.key = k) ++ added.filter fun r => r.key = k := by
    rw [hadds.rows, filter_append]
  unfold Outbox.latest
  rw [hfilter]
  cases hlast : (added.filter fun r => r.key = k).getLast? with
  | some r =>
    refine ⟨r, by rw [getLast?_append, hlast, Option.some_or], ?_⟩
    obtain ⟨hr, hkey⟩ : r ∈ added ∧ r.key = k := by simpa using mem_of_getLast? hlast
    cases hdel : r.deletes with
    | false => rfl
    | true =>
      have hgone := hdeletes r.toNotice (hadds.from_notice r hr) hdel
      simp [hkey, hcanon] at hgone
  | none =>
    have hnil := List.getLast?_eq_none_iff.mp hlast
    rw [hnil, append_nil]
    by_cases hsame : canon' k = canon k
    · exact htells k d (hsame ▸ hcanon)
    · rcases hchanged k hsame with ⟨n, hn, hkey, hnew⟩ | ⟨r, hr, hlive, _⟩
      · obtain ⟨r, hr, hrn⟩ := hadds.every_new n hn hnew
        have hin : r ∈ added.filter fun r => r.key = k := by
          rw [List.mem_filter, hrn, hkey]
          exact ⟨hr, by simp⟩
        simp [hnil] at hin
      · exact ⟨r, hr, hlive⟩

end Follow

end Lib
