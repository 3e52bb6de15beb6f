import OpenAgent.Compaction.History

/-!
# Compaction loses no turn

Whoever has got hold of a lock object has the one in the table, so at most one party is inside it. A
compaction waits for its summary inside the lock; it began with no turn at work, and a turn goes to work by
leaving that lock. So the history stays what the compaction read, and its save replaces runs by a recap that
stands for them.
-/

namespace OpenAgent.Compaction

open Lib List Bool Option

variable {c : Settings} {s s' : Session}

/-! ### What the runs stand for -/

theorem stands_compacted (runs : List Run) (keep : Nat) :
    (compacted runs keep).flatMap (·.stands) = runs.flatMap (·.stands) := by
  rw [compacted, flatMap_cons, recap, ← flatMap_append, oldRuns, keptRuns, take_append_drop]

/-! ### Who may be where -/

def Party.live (v : Party) : Bool := v.registered && (v.phase.inside?.isSome || v.phase.atWork)

def Phase.early : Phase → Bool
  | .called | .inHand _ | .waiting _ => true
  | _ => false

structure Excl (s : Session) : Prop where
  inside : ∀ (p : Nat) v l, s.parties[p]? = some v → v.phase.inside? = some l →
    ∃ k, s.locks[l]? = some k ∧ k.holder = some p
  same : ∀ (p : Nat) v l, s.parties[p]? = some v → v.phase.lock? = some l → s.lock = some l
  made : ∀ l, s.lock = some l → l < s.locks.length
  early : ∀ (p : Nat) v, s.parties[p]? = some v → v.phase.early = true → v.registered = false
  count : s.parties.countP (·.live) ≤ s.activeTurns
  alone : ∀ (p : Nat) v l snapshot keep, s.parties[p]? = some v → v.phase = .folding l snapshot keep →
    s.runs = snapshot ∧ ∀ (q : Nat) w, s.parties[q]? = some w → w.phase.atWork = false

variable {l p keep : Nat}

theorem lock_of_inside {phase : Phase} (h : phase.inside? = some l) : phase.lock? = some l := by
  cases phase with
  | holding | folding | folded => exact h
  | called | inHand | waiting | working | ended | gone => cases h

variable {v v' : Party}

theorem Excl.one (h : Excl s) {q : Nat} {w : Party} {m : Nat} (hv : s.parties[p]? = some v)
    (hw : s.parties[q]? = some w) (hp : v.phase.inside? = some l) (hq : w.phase.inside? = some m)
    : p = q := by
  have hlock := h.same p v l hv (lock_of_inside hp)
  rw [h.same q w m hw (lock_of_inside hq)] at hlock
  obtain rfl := some.inj hlock
  obtain ⟨k, hk, hholder⟩ := h.inside p v m hv hp
  obtain ⟨k', hk', hholder'⟩ := h.inside q w m hw hq
  rw [hk] at hk'
  cases hk'
  rw [hholder] at hholder'
  exact some.inj hholder'

theorem Excl.put (h : Excl s) (hv : s.parties[p]? = some v) {runs : List Run} {locks : List SessionLock}
    {activeTurns : Nat} {inflight : Bool} {backgroundTask : Option Nat} {appended : List Nat}
    (hlocks : ∀ (q l : Nat) k, q ≠ p → s.locks[l]? = some k → k.holder = some q →
      ∃ k', locks[l]? = some k' ∧ k'.holder = some q) (hlength : locks.length = s.locks.length)
    (hinside : ∀ l, v'.phase.inside? = some l → ∃ k, locks[l]? = some k ∧ k.holder = some p)
    (hsame : ∀ l, v'.phase.lock? = some l → s.lock = some l)
    (hearly : v'.phase.early = true → v'.registered = false)
    (hcount : s.activeTurns + (if v'.live then 1 else 0) ≤ activeTurns + if v.live then 1 else 0)
    (hfold : ∀ l snapshot keep, v'.phase = .folding l snapshot keep → runs = snapshot ∧
      ∀ (q : Nat) w, q ≠ p → s.parties[q]? = some w → w.phase.atWork = false)
    (hquiet : ∀ (q : Nat) w l snapshot keep, q ≠ p → s.parties[q]? = some w →
      w.phase = .folding l snapshot keep → runs = s.runs ∧ v'.phase.atWork = false) :
    Excl {
      runs, lock := s.lock, locks, activeTurns, inflight, backgroundTask, appended
      parties := s.parties.set p v' } := by
  have hset : ∀ (q : Nat) w, (s.parties.set p v')[q]? = some w ↔
      p = q ∧ v' = w ∨ p ≠ q ∧ s.parties[q]? = some w := fun q w => getElem?_set_eq_some hv
  refine ⟨?_, ?_, ?_, ?_, ?_, ?_⟩
  · intro q w l hw hwinside
    rcases (hset q w).mp hw with ⟨rfl, rfl⟩ | ⟨hne, hw⟩
    · exact hinside l hwinside
    · obtain ⟨k, hk, hholder⟩ := h.inside q w l hw hwinside
      exact hlocks q l k (Ne.symm hne) hk hholder
  · intro q w l hw hwlock
    rcases (hset q w).mp hw with ⟨rfl, rfl⟩ | ⟨hne, hw⟩
    · exact hsame l hwlock
    · exact h.same q w l hw hwlock
  · intro l hl
    rw [hlength]
    exact h.made l hl
  · intro q w hw hphase
    rcases (hset q w).mp hw with ⟨rfl, rfl⟩ | ⟨-, hw⟩
    · exact hearly hphase
    · exact h.early q w hw hphase
  · obtain ⟨hlt, hget⟩ := List.getElem?_eq_some_iff.mp hv
    have hbefore := h.count
    have hpos : v.live = true → 0 < s.parties.countP (·.live) := by
      intro hlive
      exact List.countP_pos_iff.mpr ⟨v, mem_of_getElem? hv, hlive⟩
    rw [List.countP_set hlt, hget]
    split at hcount <;> split at hcount <;> simp_all <;> omega
  · intro q w l snapshot keep hw hphase
    rcases (hset q w).mp hw with ⟨rfl, rfl⟩ | ⟨hne, hw⟩
    · obtain ⟨hruns, hothers⟩ := hfold l snapshot keep hphase
      refine ⟨hruns, ?_⟩
      intro r x hx
      rcases (hset r x).mp hx with ⟨rfl, rfl⟩ | ⟨hne, hx⟩
      · rw [hphase]
        rfl
      · exact hothers r x (Ne.symm hne) hx
    · obtain ⟨hruns, hothers⟩ := h.alone q w l snapshot keep hw hphase
      obtain ⟨hkeep, hidle⟩ := hquiet q w l snapshot keep (Ne.symm hne) hw hphase
      refine ⟨hkeep.trans hruns, ?_⟩
      intro r x hx
      rcases (hset r x).mp hx with ⟨rfl, rfl⟩ | ⟨-, hx⟩
      · exact hidle
      · exact hothers r x hx

theorem Excl.not_folding (h : Excl s) {q : Nat} {w : Party} {m : Nat} {snapshot : List Run}
    (hv : s.parties[p]? = some v) (hp : v.phase.inside? = some l) (hne : q ≠ p)
    (hw : s.parties[q]? = some w) :
    w.phase ≠ .folding m snapshot keep := by
  intro hphase
  refine hne (h.one hw hv (l := m) ?_ hp)
  rw [hphase]
  rfl

theorem Excl.move (h : Excl s) (hv : s.parties[p]? = some v) {activeTurns : Nat} {inflight : Bool}
    {backgroundTask : Option Nat} (hinside : ∀ l, v'.phase.inside? = some l → v.phase.inside? = some l)
    (hsame : ∀ l, v'.phase.lock? = some l → s.lock = some l)
    (hearly : v'.phase.early = true → v'.registered = false)
    (hcount : s.activeTurns + (if v'.live then 1 else 0) ≤ activeTurns + if v.live then 1 else 0)
    (hfold : ∀ l snapshot keep, v'.phase = .folding l snapshot keep → s.runs = snapshot ∧
      ∀ (q : Nat) w, q ≠ p → s.parties[q]? = some w → w.phase.atWork = false)
    (hwork : v'.phase.atWork = true → v.phase.atWork = true) :
    Excl { s with activeTurns, inflight, backgroundTask, parties := s.parties.set p v' } := by
  apply h.put hv (fun q l k _ hk hholder => ⟨k, hk, hholder⟩) rfl
    (fun l hl => h.inside p v l hv (hinside l hl)) hsame hearly hcount hfold
  intro q w l snapshot keep _ hw hphase
  refine ⟨rfl, ?_⟩
  apply Bool.eq_false_iff.mpr
  intro hatWork
  have hidle := (h.alone q w l snapshot keep hw hphase).2 p v hv
  simp [hwork hatWork] at hidle

theorem excl_sessionLock (h : Excl s) :
    Excl (sessionLock s).1 ∧ (sessionLock s).1.lock = some (sessionLock s).2 ∧
      (sessionLock s).1.parties = s.parties := by
  rw [sessionLock]
  cases hlock : s.lock with
  | some l => exact ⟨h, hlock, rfl⟩
  | none =>
    have hno : ∀ (p : Nat) v l, s.parties[p]? = some v → v.phase.lock? ≠ some l := by
      intro p v l hv hl
      have := h.same p v l hv hl
      simp [hlock] at this
    refine ⟨⟨?_, ?_, ?_, h.early, h.count, h.alone⟩, rfl, rfl⟩
    · intro p v l hv hl
      exact absurd (lock_of_inside hl) (hno p v l hv)
    · intro p v l hv hl
      exact absurd hl (hno p v l hv)
    · intro l hl
      cases hl
      simp

theorem live_of_unregistered (h : v.registered = false) (phase : Phase) :
    Party.live { v with phase } = false := by
  rw [Party.live, h, Bool.false_and]

theorem excl_take (h : Excl s) (hv : s.parties[p]? = some v) (hlock : s.lock = some l)
    (hregistered : v.registered = false) {k : SessionLock} (hk : s.locks[l]? = some k)
    (hfree : k.holder = none) (waiters : List Nat) :
    Excl ({ s with locks := s.locks.set l { holder := some p, waiters } }.put p { v with phase := .holding l }) := by
  have hset : ∀ (m : Nat) j, (s.locks.set l { holder := some p, waiters })[m]? = some j ↔
      l = m ∧ { holder := some p, waiters } = j ∨ l ≠ m ∧ s.locks[m]? = some j :=
    fun m j => getElem?_set_eq_some hk
  refine h.put hv ?_ length_set ?_ ?_ ?_ ?_ ?_ ?_
  · intro q m j _ hj hholder
    by_cases hm : l = m
    · rw [← hm, hk] at hj
      simp [← some.inj hj, hfree] at hholder
    · exact ⟨j, (hset m j).mpr (.inr ⟨hm, hj⟩), hholder⟩
  · intro m hm
    obtain rfl : l = m := some.inj hm
    exact ⟨_, (hset l _).mpr (.inl ⟨rfl, rfl⟩), rfl⟩
  · intro m hm
    rw [hlock]
    exact hm
  · exact nofun
  · rw [live_of_unregistered hregistered]
    simp
  · exact nofun
  · exact fun q w m snapshot keep _ _ _ => ⟨rfl, rfl⟩

theorem excl_acquire (h : Excl s) (hv : s.parties[p]? = some v) (hlock : s.lock = some l)
    (hregistered : v.registered = false) : Excl (acquire s l p v) := by
  rw [acquire]
  cases hk : s.locks[l]? with
  | none => exact h
  | some k =>
    simp only
    split
    · rename_i hfree
      rw [and_eq_true, isNone_iff_eq_none] at hfree
      exact excl_take h hv hlock hregistered hk hfree.1 k.waiters
    · have hset : ∀ (m : Nat) j, (s.locks.set l { k with waiters := k.waiters ++ [p] })[m]? = some j ↔
          l = m ∧ { k with waiters := k.waiters ++ [p] } = j ∨ l ≠ m ∧ s.locks[m]? = some j :=
        fun m j => getElem?_set_eq_some hk
      refine h.put hv ?_ length_set ?_ ?_ ?_ ?_ ?_ ?_
      · intro q m j _ hj hholder
        by_cases hm : l = m
        · rw [← hm, hk] at hj
          cases hj
          exact ⟨_, (hset m _).mpr (.inl ⟨hm, rfl⟩), hholder⟩
        · exact ⟨j, (hset m j).mpr (.inr ⟨hm, hj⟩), hholder⟩
      · exact nofun
      · intro m hm
        rw [hlock]
        exact hm
      · exact fun _ => hregistered
      · rw [live_of_unregistered hregistered]
        simp
      · exact nofun
      · exact fun q w m snapshot keep _ _ _ => ⟨rfl, rfl⟩

theorem excl_leave (h : Excl s) (hv : s.parties[p]? = some v) (hfree : v'.phase.lock? = none)
    (hearly : v'.phase.early = false) (hlive : v'.live = true → v.live = true)
    (hwork : v'.phase.atWork = true → v.phase.inside? = some l) (inflight : Bool)
    : Excl { leave s l p v' with inflight } := by
  refine h.put hv ?_ (length_modify _ s.locks l) ?_ ?_ ?_ ?_ ?_ ?_
  · intro q m k hne hk hholder
    refine ⟨if l = m then k.drop p else k, getElem?_modify_eq_some.mpr ⟨k, hk, rfl⟩, ?_⟩
    split
    · rw [SessionLock.drop, if_neg]
      · exact hholder
      · rw [hholder]
        exact fun heq => hne (some.inj heq)
    · exact hholder
  · intro m hm
    have := lock_of_inside hm
    simp [hfree] at this
  · intro m hm
    simp [hfree] at hm
  · intro h
    simp [hearly] at h
  · show s.activeTurns + (if v'.live then 1 else 0) ≤ s.activeTurns + if v.live then 1 else 0
    split
    · rename_i hafter
      exact Nat.le_of_eq (by rw [if_pos (hlive hafter)])
    · simp
  · intro m snapshot keep hm
    rw [hm] at hfree
    cases hfree
  · intro q w m snapshot keep hne hw hphase
    refine ⟨rfl, ?_⟩
    apply Bool.eq_false_iff.mpr
    intro hatWork
    exact h.not_folding hv (hwork hatWork) hne hw hphase

theorem over_lock (v : Party) : v.over.phase.lock? = none ∧ v.over.phase.inside? = none ∧
    v.over.phase.early = false ∧ v.over.phase.atWork = false ∧ v.over.live = false := by
  rw [Party.live, Party.over]
  split
  · exact ⟨rfl, rfl, rfl, rfl, and_false _⟩
  · exact ⟨rfl, rfl, rfl, rfl, and_false _⟩

theorem excl_cancelAt (h : Excl s) (p : Nat) : Excl (cancelAt s p) := by
  rw [cancelAt]
  cases hv : s.parties[p]? with
  | none => exact h
  | some v =>
    obtain ⟨hfree, hout, hearly, hidle, hdead⟩ := over_lock v
    have hmove : Excl (s.put p v.over) := by
      apply h.move hv
      · intro l hl
        simp [hout] at hl
      · intro l hl
        simp [hfree] at hl
      · intro hl
        simp [hearly] at hl
      · rw [hdead]
        simp
      · intro l snapshot keep hl
        rw [hl] at hfree
        cases hfree
      · intro hl
        simp [hidle] at hl
    have hleave : ∀ l inflight, Excl { leave s l p v.over with inflight } := by
      intro l inflight
      apply excl_leave h hv hfree hearly
      · intro hlive
        simp [hdead] at hlive
      · intro hatWork
        simp [hidle] at hatWork
    simp only
    split
    · exact hmove
    · exact hmove
    · split
      · exact hleave _ false
      · exact hleave _ s.inflight
    · split
      · exact hleave _ false
      · exact hleave _ s.inflight
    · split
      · exact hleave _ false
      · exact hleave _ s.inflight
    · split
      · exact hleave _ false
      · exact hleave _ s.inflight
    · exact h
    · exact h
    · exact h

theorem cancelAt_lock (s : Session) (p : Nat) : (cancelAt s p).lock = s.lock := by
  rw [cancelAt]
  split
  · rfl
  · split
    all_goals first | rfl | (split <;> rfl)

theorem cancelAt_length (s : Session) (p : Nat) : (cancelAt s p).parties.length = s.parties.length := by
  rw [cancelAt]
  split
  · rfl
  · split
    all_goals first | rfl | exact length_set | (split <;> exact length_set)

theorem excl_preempt (h : Excl s) : Excl (preempt s).1 ∧ (preempt s).1.lock = s.lock ∧
    (preempt s).1.parties.length = s.parties.length := by
  rw [preempt]
  split
  · exact ⟨h, rfl, rfl⟩
  · split
    · exact ⟨h, rfl, rfl⟩
    · split
      · exact ⟨h, rfl, rfl⟩
      · exact ⟨h, rfl, rfl⟩
      · exact ⟨excl_cancelAt h _, cancelAt_lock s _, cancelAt_length s _⟩

theorem excl_join (h : Excl s) (kind : Kind) (inflight : Bool) (backgroundTask : Option Nat) :
    Excl { s with inflight, backgroundTask, parties := s.parties ++ [{ kind }] } := by
  have hnew : ∀ {x : Party → Prop} (p : Nat) v, (s.parties ++ [{ kind := kind }])[p]? = some v →
      (s.parties[p]? = some v → x v) → x { kind := kind } → x v := by
    intro x p v hv hold hnew
    rcases getElem?_append_singleton.mp hv with hv | ⟨-, rfl⟩
    · exact hold hv
    · exact hnew
  refine ⟨?_, ?_, h.made, ?_, ?_, ?_⟩
  · intro p v l hv hinside
    rcases getElem?_append_singleton.mp hv with hv | ⟨-, rfl⟩
    · exact h.inside p v l hv hinside
    · cases hinside
  · intro p v l hv hlock
    rcases getElem?_append_singleton.mp hv with hv | ⟨-, rfl⟩
    · exact h.same p v l hv hlock
    · cases hlock
  · intro p v hv
    exact @hnew (fun v => v.phase.early = true → v.registered = false) p v hv (h.early p v) fun _ => rfl
  · rw [countP_append]
    exact h.count
  · intro p v l snapshot keep hv hphase
    rcases getElem?_append_singleton.mp hv with hv | ⟨-, rfl⟩
    · obtain ⟨hruns, hidle⟩ := h.alone p v l snapshot keep hv hphase
      exact ⟨hruns, fun q w hw => @hnew (fun w => w.phase.atWork = false) q w hw (hidle q w) rfl⟩
    · cases hphase

theorem excl_drop (h : Excl s) (hnone : ∀ (p : Nat) v, s.parties[p]? = some v → v.phase.lock? = none) :
    Excl { s with lock := none } := by
  refine ⟨h.inside, ?_, ?_, h.early, h.count, h.alone⟩
  · intro p v l hv hlock
    simp [hnone p v hv] at hlock
  · exact nofun

/-! ### Steps -/

theorem live_within {v : Party} {phase : Phase} {l m : Nat} (hin : v.phase.inside? = some l)
    (hphase : phase.inside? = some m) : Party.live { v with phase } = v.live := by
  show (v.registered && (phase.inside?.isSome || phase.atWork)) =
    (v.registered && (v.phase.inside?.isSome || v.phase.atWork))
  rw [hin, hphase]
  rfl

theorem excl_within (h : Excl s) (hv : s.parties[p]? = some v) (hin : v.phase.inside? = some l)
    (phase : Phase) (hphase : phase.inside? = some l)
    (hfold : ∀ m snapshot keep, phase = .folding m snapshot keep → s.runs = snapshot ∧
      ∀ (q : Nat) w, q ≠ p → s.parties[q]? = some w → w.phase.atWork = false) :
    Excl (s.put p { v with phase }) := by
  apply h.move hv
  · intro m hm
    rw [show phase.inside? = some m from hm] at hphase
    rw [hin, hphase]
  · intro m hm
    have hlock := lock_of_inside hphase
    rw [show phase.lock? = some m from hm] at hlock
    rw [some.inj hlock]
    exact h.same p v l hv (lock_of_inside hin)
  · intro hearly
    revert hphase hearly
    cases phase <;> simp [Phase.inside?, Phase.early]
  · exact Nat.le_of_eq (by rw [live_within hin hphase])
  · exact hfold
  · intro hatWork
    revert hphase hatWork
    cases phase <;> simp [Phase.inside?, Phase.atWork]

theorem excl_read (h : Excl s) (hv : s.parties[p]? = some v) (hphase : v.phase = .holding l) {should : Bool}
    (hmay : mayCompact c s v should = true)
    (hcond : ∀ w ∈ s.parties, w.phase.atWork = true → v.kind = .background ∧ w.registered = true) :
    Excl (s.put p (readRuns c s l v)) := by
  have hinside : v.phase.inside? = some l := by rw [hphase]; rfl
  have hidle : ∀ (q : Nat) w, s.parties[q]? = some w → w.phase.atWork = false := by
    intro q w hw
    apply Bool.eq_false_iff.mpr
    intro hatWork
    obtain ⟨hkind, hregistered⟩ := hcond w (mem_of_getElem? hw) hatWork
    -- the count of active turns would have kept the pass from compacting
    have hpos : 0 < s.parties.countP (·.live) := by
      apply List.countP_pos_iff.mpr
      refine ⟨w, mem_of_getElem? hw, ?_⟩
      rw [Party.live, hregistered, hatWork, Bool.or_true, Bool.and_true]
    have hcount := h.count
    rw [mayCompact, hkind] at hmay
    simp only [and_eq_true, decide_eq_true_eq] at hmay
    omega
  rw [readRuns]
  split
  · apply excl_within h hv hinside (.folded l) rfl
    exact nofun
  · apply excl_within h hv hinside (.folding l s.runs _) rfl
    intro m snapshot keep hm
    cases hm
    exact ⟨rfl, fun q w _ hw => hidle q w hw⟩

theorem excl_save (h : Excl s) {snapshot : List Run} (hv : s.parties[p]? = some v)
    (hphase : v.phase = .folding l snapshot keep) (through : Bool) :
    Excl ((saveRuns c s snapshot keep through).put p { v with phase := .folded l }) := by
  have hin : v.phase.inside? = some l := by rw [hphase]; rfl
  have hput : ∀ runs, Excl { s with runs, parties := s.parties.set p { v with phase := .folded l } } := by
    intro runs
    apply h.put hv (fun q m k _ hk hholder => ⟨k, hk, hholder⟩) rfl
    · intro m hm
      obtain rfl : l = m := some.inj hm
      exact h.inside p v l hv hin
    · intro m hm
      obtain rfl : l = m := some.inj hm
      exact h.same p v l hv (lock_of_inside hin)
    · exact nofun
    · exact Nat.le_of_eq (by rw [@live_within v (.folded l) l l hin rfl])
    · exact nofun
    · intro q w m snapshot keep hne hw hfolding
      exact absurd hfolding (h.not_folding hv hin hne hw)
  rw [saveRuns]
  split
  · exact hput _
  · exact hput s.runs

theorem excl_store (h : Excl s) {history : List Run} (hv : s.parties[p]? = some v)
    (hphase : v.phase = .working (some history)) (new : Bool) :
    Excl (storeStep s p v history new) := by
  have hwork : v.phase.atWork = true := by rw [hphase]; rfl
  apply h.put hv (fun q m k _ hk hholder => ⟨k, hk, hholder⟩) rfl
  · exact nofun
  · exact nofun
  · exact nofun
  · rw [Party.live, Party.live, hphase]
    exact Nat.le_refl _
  · exact nofun
  · intro q w m snapshot keep _ hw hfolding
    have hidle := (h.alone q w m snapshot keep hw hfolding).2 p v hv
    simp [hwork] at hidle

theorem excl_compactAfterTurn (h : Excl s) : Excl (compactAfterTurn s) := by
  rw [compactAfterTurn]
  split
  · exact h
  · exact excl_join h .background true _

theorem excl_finish (h : Excl s) {history : Option (List Run)} (hv : s.parties[p]? = some v)
    (hphase : v.phase = .working history)
    (hcond : v.registered = true → prunes s = true → ∀ w ∈ s.parties, w.phase.lock? = none)
    (completed : Bool) :
    Excl (if completed then
      compactAfterTurn ((if v.registered then markTurnDone s else s).put p { v with phase := .gone })
      else (if v.registered then markTurnDone s else s).put p { v with phase := .gone }) := by
  have hput : ∀ activeTurns, s.activeTurns ≤ activeTurns + (if v.live then 1 else 0) →
      Excl { s with activeTurns, parties := s.parties.set p { v with phase := .gone } } := by
    intro activeTurns hcount
    apply h.move hv
    · exact nofun
    · exact nofun
    · exact nofun
    · rw [show Party.live { v with phase := .gone } = false from and_false _]
      exact hcount
    · exact nofun
    · exact nofun
  have hdone : Excl ((if v.registered then markTurnDone s else s).put p { v with phase := .gone }) := by
    by_cases hregistered : v.registered = true
    · have hlive : v.live = true := by rw [Party.live, hregistered, hphase]; rfl
      have hfewer := hput (s.activeTurns - 1) (by rw [if_pos hlive]; omega)
      rw [if_pos hregistered, markTurnDone]
      split
      · rename_i hprunes
        apply excl_drop hfewer
        intro q w hw
        rcases (getElem?_set_eq_some hv).mp hw with ⟨-, rfl⟩ | ⟨-, hw⟩
        · rfl
        · exact hcond hregistered hprunes w (mem_of_getElem? hw)
      · exact hfewer
    · rw [if_neg hregistered]
      exact hput s.activeTurns (Nat.le_add_right _ _)
  split
  · exact excl_compactAfterTurn hdone
  · exact hdone

theorem excl_step (hwriter : c.privacyWriter = false) (h : Excl s) {e : CompactionEvent}
    (hv : s.parties[e.party]? = some v) (hcond : exclusive c s e = true)
    (hstep : partyStep c s e.party v e = some s') : Excl s' := by
  cases e with
  | begin kind => cases hstep
  | reach p =>
    simp only [partyStep] at hstep
    split at hstep
    · rename_i hphase
      obtain ⟨hlocked, hlock, hparties⟩ := excl_sessionLock h
      have hregistered : v.registered = false := h.early p v hv (by rw [hphase]; rfl)
      have hv' : (sessionLock s).1.parties[p]? = some v := by rw [hparties]; exact hv
      split at hstep
      · cases hstep
        obtain ⟨hpreempted, hsame, hlength⟩ := excl_preempt hlocked
        have hlt : p < (preempt (sessionLock s).1).1.parties.length := by
          rw [hlength]
          exact (List.getElem?_eq_some_iff.mp hv').1
        apply hpreempted.move (getElem?_eq_getElem hlt)
        · exact nofun
        · intro l hl
          rw [hsame, hlock]
          exact hl
        · exact fun _ => hregistered
        · rw [show Party.live { v with
            phase := .inHand (sessionLock s).2, preempted := (preempt (sessionLock s).1).2 } = false from by
              rw [Party.live]
              exact and_false _]
          simp
        · exact nofun
        · exact nofun
      · cases hstep
        exact excl_acquire hlocked hv' hlock hregistered
    · cases hstep
  | enter p =>
    simp only [partyStep] at hstep
    split at hstep
    · rename_i l hphase
      cases hstep
      exact excl_acquire h hv (h.same p v l hv (by rw [hphase]; rfl)) (h.early p v hv (by rw [hphase]; rfl))
    · cases hstep
  | resume p =>
    simp only [partyStep] at hstep
    split at hstep
    · rename_i l hphase
      split at hstep
      · cases hstep
      · rename_i k hk
        split at hstep
        · rename_i hwoken
          cases hstep
          exact excl_take h hv (h.same p v l hv (by rw [hphase]; rfl)) (h.early p v hv (by rw [hphase]; rfl)) hk
            hwoken.1 k.waiters.tail
        · cases hstep
    · cases hstep
  | register p =>
    simp only [partyStep] at hstep
    split at hstep
    · rename_i l hphase
      split at hstep
      · rename_i hturn
        cases hstep
        apply h.move hv
        · exact fun m hm => hm
        · exact fun m hm => h.same p v m hv hm
        · intro hearly
          have hbefore : v.phase.early = true := hearly
          rw [hphase] at hbefore
          cases hbefore
        · rw [show v.live = false from by rw [Party.live, hturn.2, Bool.false_and]]
          split
          · simp
          · simp
        · intro m snapshot keep hm
          have hbefore : v.phase = .folding m snapshot keep := hm
          simp [hphase] at hbefore
        · exact fun hatWork => hatWork
      · cases hstep
    · cases hstep
  | fail p =>
    simp only [partyStep] at hstep
    split at hstep
    · rename_i l hphase
      split at hstep
      · rename_i hturn
        cases hstep
        apply excl_leave h hv rfl rfl _ _ s.inflight
        · intro hlive
          simp [live_of_unregistered hturn.2] at hlive
        · intro _
          rw [hphase]
          rfl
      · cases hstep
    · cases hstep
  | read p should =>
    simp only [partyStep] at hstep
    split at hstep
    · rename_i l hphase
      split at hstep
      · rename_i hmay
        cases hstep
        apply excl_read h hv hphase hmay
        intro w hw hatWork
        simp only [exclusive, hwriter, Bool.false_or] at hcond
        rw [show CompactionEvent.party (.read p should) = p from rfl] at hv
        simp only [CompactionEvent.party, hv, List.all_eq_true] at hcond
        have hw' := hcond w hw
        rw [hatWork, Bool.not_true, Bool.false_or, Bool.and_eq_true, decide_eq_true_eq] at hw'
        exact hw'
      · cases hstep
    · cases hstep
  | save p through =>
    simp only [partyStep] at hstep
    split at hstep
    · rename_i l snapshot keep hphase
      cases hstep
      exact excl_save h hv hphase through
    · cases hstep
  | abort p =>
    simp only [partyStep] at hstep
    split at hstep
    · rename_i l snapshot keep hphase
      cases hstep
      apply excl_within h hv (by rw [hphase]; rfl) (.folded l) rfl
      exact nofun
    · cases hstep
  | release p =>
    have hleave : ∀ l, v.phase.inside? = some l → releaseStep s l p v = some s' → Excl s' := by
      intro l hin hrelease
      obtain ⟨hfree, -, hearly, hidle, hdead⟩ := over_lock v
      have hover : ∀ inflight, Excl { leave s l p v.over with inflight } := by
        apply excl_leave h hv hfree hearly
        · intro hlive
          simp [hdead] at hlive
        · intro hatWork
          simp [hidle] at hatWork
      rw [releaseStep] at hrelease
      split at hrelease
      · split at hrelease
        · rename_i hregistered
          cases hrelease
          apply excl_leave h hv rfl rfl _ (fun _ => hin) s.inflight
          intro _
          rw [Party.live, hregistered, hin]
          rfl
        · cases hrelease
      · cases hrelease
        exact hover s.inflight
      · cases hrelease
        exact hover false
    simp only [partyStep] at hstep
    split at hstep
    · rename_i l hphase
      exact hleave l (by rw [hphase]; rfl) hstep
    · rename_i l hphase
      exact hleave l (by rw [hphase]; rfl) hstep
    · cases hstep
  | load p =>
    simp only [partyStep] at hstep
    split at hstep
    · rename_i history hphase
      cases hstep
      apply h.move hv
      · exact nofun
      · exact nofun
      · exact nofun
      · rw [Party.live, Party.live, hphase]
        exact Nat.le_refl _
      · exact nofun
      · intro _
        rw [hphase]
        rfl
    · cases hstep
  | store p new =>
    simp only [partyStep] at hstep
    split at hstep
    · rename_i history hphase
      cases hstep
      exact excl_store h hv hphase new
    · cases hstep
  | finish p completed =>
    simp only [partyStep] at hstep
    split at hstep
    · rename_i history hphase
      cases hstep
      apply excl_finish h hv hphase _ completed
      intro hregistered hprunes w hw
      rw [show CompactionEvent.party (.finish p completed) = p from rfl] at hv
      simp only [exclusive, CompactionEvent.party, hv, hwriter, hregistered, hprunes, Bool.not_true,
        Bool.false_or, List.all_eq_true, isNone_iff_eq_none] at hcond
      exact hcond w hw
    · cases hstep
  | callback p =>
    simp only [partyStep] at hstep
    split at hstep
    · rename_i hphase
      cases hstep
      apply h.move hv
      · exact nofun
      · exact nofun
      · exact nofun
      · rw [show Party.live { v with phase := .gone } = false from and_false _]
        simp
      · exact nofun
      · exact nofun
    · cases hstep
  | cancel p =>
    cases hstep
    exact excl_cancelAt h p

/-! ### Runs -/

/-- The history stands for what the turns have appended; and the parties keep apart, where no privacy writer
compares the history before a save. -/
structure Inv (c : Settings) (s : Session) : Prop where
  stands : s.runs.flatMap (·.stands) = s.appended
  excl : c.privacyWriter = false → Excl s

theorem save_over_snapshot (h : Inv c s) {snapshot : List Run} (hv : s.parties[p]? = some v)
    (hphase : v.phase = .folding l snapshot keep) (through : Bool) :
    saveRuns c s snapshot keep through = s ∨
      s.runs = snapshot ∧ saveRuns c s snapshot keep through = { s with runs := compacted snapshot keep } := by
  rw [saveRuns]
  split
  · rename_i hthrough
    refine .inr ⟨?_, rfl⟩
    rw [and_eq_true, or_eq_true, not_eq_true', decide_eq_true_eq] at hthrough
    rcases hthrough.2 with hwriter | hsame
    · exact ((h.excl hwriter).alone p v l snapshot keep hv hphase).1
    · exact hsame
  · exact .inl rfl

theorem cancelAt_runs (s : Session) (p : Nat) :
    (cancelAt s p).runs = s.runs ∧ (cancelAt s p).appended = s.appended := by
  rw [cancelAt]
  split
  · exact ⟨rfl, rfl⟩
  · split
    all_goals first | exact ⟨rfl, rfl⟩ | (split <;> exact ⟨rfl, rfl⟩)

theorem sessionLock_runs (s : Session) :
    (sessionLock s).1.runs = s.runs ∧ (sessionLock s).1.appended = s.appended := by
  rw [sessionLock]
  split
  · exact ⟨rfl, rfl⟩
  · exact ⟨rfl, rfl⟩

theorem preempt_runs (s : Session) : (preempt s).1.runs = s.runs ∧ (preempt s).1.appended = s.appended := by
  rw [preempt]
  split
  · exact ⟨rfl, rfl⟩
  · split
    · exact ⟨rfl, rfl⟩
    · split
      · exact ⟨rfl, rfl⟩
      · exact ⟨rfl, rfl⟩
      · exact cancelAt_runs s _

theorem acquire_runs (s : Session) (l p : Nat) (v : Party) :
    (acquire s l p v).runs = s.runs ∧ (acquire s l p v).appended = s.appended := by
  rw [acquire]
  split
  · exact ⟨rfl, rfl⟩
  · split
    · exact ⟨rfl, rfl⟩
    · exact ⟨rfl, rfl⟩

theorem releaseStep_runs (h : releaseStep s l p v = some s') :
    s'.runs = s.runs ∧ s'.appended = s.appended := by
  rw [releaseStep] at h
  split at h
  · split at h
    · cases h
      exact ⟨rfl, rfl⟩
    · cases h
  · cases h
    exact ⟨rfl, rfl⟩
  · cases h
    exact ⟨rfl, rfl⟩

theorem finish_runs (s : Session) (p : Nat) (v : Party) (completed : Bool) :
    (if completed then
      compactAfterTurn ((if v.registered then markTurnDone s else s).put p { v with phase := .gone })
      else (if v.registered then markTurnDone s else s).put p { v with phase := .gone }).runs = s.runs ∧
    (if completed then
      compactAfterTurn ((if v.registered then markTurnDone s else s).put p { v with phase := .gone })
      else (if v.registered then markTurnDone s else s).put p { v with phase := .gone }).appended =
        s.appended := by
  have hdone : ∀ t : Session, t.runs = s.runs → t.appended = s.appended →
      (compactAfterTurn t).runs = s.runs ∧ (compactAfterTurn t).appended = s.appended := by
    intro t hruns happended
    rw [compactAfterTurn]
    split
    · exact ⟨hruns, happended⟩
    · exact ⟨hruns, happended⟩
  split
  · apply hdone
    · split
      · rfl
      · rfl
    · split
      · rfl
      · rfl
  · split
    · exact ⟨rfl, rfl⟩
    · exact ⟨rfl, rfl⟩

theorem storeStep_stands (new : Bool) (h : s.runs.flatMap (·.stands) = s.appended) :
    (storeStep s p v s.runs new).runs.flatMap (·.stands) = (storeStep s p v s.runs new).appended := by
  rw [storeStep]
  cases new with
  | false => exact h
  | true =>
    show (s.runs ++ [({ stands := [s.appended.length] } : Run)]).flatMap Run.stands =
      s.appended ++ [s.appended.length]
    rw [flatMap_append, h]
    rfl

theorem stands_step (h : Inv c s) {e : CompactionEvent} (hv : s.parties[e.party]? = some v)
    (hcond : exclusive c s e = true) (hstep : partyStep c s e.party v e = some s') :
    s'.runs.flatMap (·.stands) = s'.appended := by
  have hsame : s'.runs = s.runs ∧ s'.appended = s.appended → s'.runs.flatMap (·.stands) = s'.appended := by
    rintro ⟨hruns, happended⟩
    rw [hruns, happended]
    exact h.stands
  cases e with
  | begin kind => cases hstep
  | reach p =>
    simp only [partyStep] at hstep
    split at hstep
    · have hlock := sessionLock_runs s
      split at hstep
      · cases hstep
        have hpreempt := preempt_runs (sessionLock s).1
        exact hsame ⟨hpreempt.1.trans hlock.1, hpreempt.2.trans hlock.2⟩
      · cases hstep
        have hacquire := acquire_runs (sessionLock s).1 (sessionLock s).2 p v
        exact hsame ⟨hacquire.1.trans hlock.1, hacquire.2.trans hlock.2⟩
    · cases hstep
  | enter p =>
    simp only [partyStep] at hstep
    split at hstep
    · cases hstep
      exact hsame (acquire_runs s _ p v)
    · cases hstep
  | resume p =>
    simp only [partyStep] at hstep
    split at hstep
    · split at hstep
      · cases hstep
      · split at hstep
        · cases hstep
          exact hsame ⟨rfl, rfl⟩
        · cases hstep
    · cases hstep
  | register p | fail p | read p should =>
    simp only [partyStep] at hstep
    split at hstep
    · split at hstep
      · cases hstep
        exact hsame ⟨rfl, rfl⟩
      · cases hstep
    · cases hstep
  | save p through =>
    simp only [partyStep] at hstep
    split at hstep
    · rename_i l snapshot keep hphase
      cases hstep
      rcases save_over_snapshot h hv hphase through with hsave | ⟨hruns, hsave⟩
      · rw [hsave]
        exact h.stands
      · rw [hsave]
        show (compacted snapshot keep).flatMap Run.stands = s.appended
        rw [stands_compacted, ← hruns]
        exact h.stands
    · cases hstep
  | abort p | load p | callback p =>
    simp only [partyStep] at hstep
    split at hstep
    · cases hstep
      exact hsame ⟨rfl, rfl⟩
    · cases hstep
  | release p =>
    simp only [partyStep] at hstep
    split at hstep
    · exact hsame (releaseStep_runs hstep)
    · exact hsame (releaseStep_runs hstep)
    · cases hstep
  | store p new =>
    simp only [partyStep] at hstep
    split at hstep
    · rename_i history hphase
      cases hstep
      rw [show CompactionEvent.party (.store p new) = p from rfl] at hv
      simp only [exclusive, CompactionEvent.party, hv, hphase, decide_eq_true_eq] at hcond
      rw [hcond]
      exact storeStep_stands new h.stands
    · cases hstep
  | finish p completed =>
    simp only [partyStep] at hstep
    split at hstep
    · cases hstep
      exact hsame (finish_runs s p v completed)
    · cases hstep
  | cancel p =>
    cases hstep
    exact hsame (cancelAt_runs s p)

theorem inv_step {e : CompactionEvent} (h : Inv c s) (hcond : exclusive c s e = true)
    (hstep : compactionStep c s e = some s') : Inv c s' := by
  have hparty : (s.parties[e.party]?.bind fun v => partyStep c s e.party v e) = some s' → Inv c s' := by
    intro hbind
    obtain ⟨v, hv, hparty⟩ := Option.bind_eq_some_iff.mp hbind
    exact ⟨stands_step h hv hcond hparty, fun hwriter => excl_step hwriter (h.excl hwriter) hv hcond hparty⟩
  cases e with
  | begin kind =>
    rw [compactionStep] at hstep
    split at hstep
    · cases hstep
    · cases hstep
      exact ⟨h.stands, fun hwriter => excl_join (h.excl hwriter) kind s.inflight s.backgroundTask⟩
  | reach | enter | resume | register | fail | read | save | abort | release | load | store | finish | callback
  | cancel => exact hparty hstep

def Session.idle (runs : List Run) : Session := { runs, appended := runs.flatMap (·.stands) }

theorem inv_idle (c : Settings) (runs : List Run) : Inv c (.idle runs) := by
  refine ⟨rfl, fun _ => ⟨?_, ?_, ?_, ?_, Nat.le_refl 0, ?_⟩⟩
  · exact fun _ _ _ h => nomatch h
  · exact fun _ _ _ h => nomatch h
  · exact fun _ h => nomatch h
  · exact fun _ _ h => nomatch h
  · exact fun _ _ _ _ _ h => nomatch h

theorem losesNoTurn_of_inv (h : Inv c s) : LosesNoTurn s := by
  intro run hrun
  rw [← h.stands] at hrun
  exact List.mem_flatMap.mp hrun

theorem savesOverSnapshot_of_inv (h : Inv c s) : SavesOverSnapshot c s := by
  intro p through s' hstep
  obtain ⟨v, hv, hsave⟩ := Option.bind_eq_some_iff.mp hstep
  simp only [partyStep] at hsave
  split at hsave
  · rename_i l snapshot keep hphase
    cases hsave
    rcases save_over_snapshot h hv hphase through with hsame | ⟨hruns, -⟩
    · rw [hsame]
      exact .inl rfl
    · exact .inr ⟨v, l, keep, hv, by rw [hruns]; exact hphase⟩
  · cases hsave

/-- In a run that keeps turns and compactions apart, no turn's run is lost and no save overwrites one. -/
theorem compaction_loses_no_turn {runs : List Run} {events : List CompactionEvent} {t : Session}
    (hcond : Along (compactionStep c) (fun s e => exclusive c s e = true) (.idle runs) events)
    (hrun : run (compactionStep c) (.idle runs) events = some t) : LosesNoTurn t ∧ SavesOverSnapshot c t := by
  have hinv : Inv c t := run_invariant_along (fun _ _ _ => inv_step) (inv_idle c runs) hcond hrun
  exact ⟨losesNoTurn_of_inv hinv, savesOverSnapshot_of_inv hinv⟩

def plainSettings : Settings := { keepRuns := 1, privacyWriter := false }

def startTurn (p : Nat) : List CompactionEvent := [.begin .turn, .reach p, .register p, .release p, .load p]

/-- A pass is preempted by the next turn, and the pass after that turn folds. -/
theorem preempted_pass_folds_later :
    ∃ t, run (compactionStep plainSettings) (.idle [{ stands := [0] }]) (startTurn 0 ++
      [.store 0 true, .finish 0 true, .reach 1, .read 1 true, .begin .turn, .reach 2, .callback 1, .enter 2,
        .register 2, .release 2, .load 2, .store 2 true, .finish 2 true, .reach 3, .read 3 true, .save 3 true,
        .release 3]) = some t ∧
      (LosesNoTurn t ∧ SavesOverSnapshot plainSettings t) ∧
      t.runs = [recap [{ stands := [0] }, { stands := [1] }], { stands := [2] }] := by
  have htrace : (run (compactionStep plainSettings) (.idle [{ stands := [0] }]) (startTurn 0 ++
      [.store 0 true, .finish 0 true, .reach 1, .read 1 true, .begin .turn, .reach 2, .callback 1, .enter 2,
        .register 2, .release 2, .load 2, .store 2 true, .finish 2 true, .reach 3, .read 3 true, .save 3 true,
        .release 3])).map (·.runs) = some [recap [{ stands := [0] }, { stands := [1] }], { stands := [2] }] := by
    rfl
  obtain ⟨t, ht, hruns⟩ := Option.map_eq_some_iff.mp htrace
  exact ⟨t, ht, compaction_loses_no_turn (by decide +kernel) ht, hruns⟩

/-- A compaction by hand reads the history while a turn is at work, and saves after the turn has written. -/
theorem manual_loses_turn :
    ∃ t, run (compactionStep plainSettings) (.idle [{ stands := [0] }]) (startTurn 0 ++
      [.begin .manual, .reach 1, .read 1 true, .store 0 true, .save 1 true]) = some t ∧ ¬ LosesNoTurn t := by
  have htrace : (run (compactionStep plainSettings) (.idle [{ stands := [0] }]) (startTurn 0 ++
      [.begin .manual, .reach 1, .read 1 true, .store 0 true, .save 1 true])).map
        (fun t => (t.runs, t.appended)) = some ([recap [{ stands := [0] }]], [0, 1]) := by
    decide +kernel
  obtain ⟨t, ht, hseen⟩ := Option.map_eq_some_iff.mp htrace
  rw [Prod.mk.injEq] at hseen
  refine ⟨t, ht, ?_⟩
  intro hkept
  obtain ⟨r, hr, hstands⟩ := hkept 1 (by rw [hseen.2]; decide)
  rw [hseen.1, List.mem_singleton] at hr
  rw [hr] at hstands
  revert hstands
  decide

end OpenAgent.Compaction
