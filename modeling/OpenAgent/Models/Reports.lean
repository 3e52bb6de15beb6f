import OpenAgent.Models.Pool

/-!
# Reports that come late

Selections and failure reports come from many calls at once; the lock makes each of them one piece, with
time passing between the two clock reads of a report. A report says what became of a call that was
started earlier, so the account it names may have changed since.
-/

namespace OpenAgent.Models

open Lib List Option

structure Handout where
  account : Nat
  time : Nat
deriving DecidableEq

/-- A pool in use. `rotating` is the lock between the two halves of a report, `handed` the history of the
accounts that were handed out. -/
structure System where
  pool : CredentialPool
  clock : Nat
  rotating : Bool := false
  handed : List Handout := []

inductive Event
  /-- `select` -/
  | select
  /-- The first half of `mark_exhausted_and_rotate`. -/
  | mark (status : Option Nat) (key : Option String)
  /-- The second half of `mark_exhausted_and_rotate`. -/
  | rotate
  /-- A call succeeded; the pool is not told. -/
  | succeeded
  | wait (time : Nat)

def System.selected (s : System) : System :=
  let (pool, handed) := s.pool.selectLocked s.clock
  { s with
    pool
    rotating := false
    handed := s.handed ++ handed.toList.map fun i => ⟨i, s.clock⟩ }

def step (s : System) : Event → Option System
  | .select => if s.rotating then none else some s.selected
  | .mark status key =>
    if s.rotating then none else some { s with pool := s.pool.mark status key s.clock, rotating := true }
  | .rotate => if s.rotating then some s.selected else none
  | .succeeded => some s
  | .wait time => some { s with clock := s.clock + time }

def System.start (credentials : List Credential) (strategy : Strategy) (clock : Nat) : System where
  pool := .ofCredentials credentials strategy
  clock := clock

def System.Dead (s : System) (i : Nat) : Prop :=
  ∃ acc, s.pool.accounts[i]? = some acc ∧ acc.lastStatus = .dead

def System.Cooling (s : System) (i reset : Nat) : Prop :=
  ∃ acc, s.pool.accounts[i]? = some acc ∧ acc.lastStatus = .exhausted ∧ acc.lastErrorResetAt = some reset

/-- What was handed out since a state kept clear of the accounts that were dead in it, and of those that
cooled down in it until their reset time. -/
def KeptOut (m t : System) : Prop :=
  ∀ h ∈ t.handed.drop m.handed.length,
    ¬ m.Dead h.account ∧ ∀ reset, m.Cooling h.account reset → reset ≤ h.time

def keepsDead (s : System) : Event → Bool
  | .mark status key =>
    status.any (· ∈ authStatusCodes) ||
      !((accountOf s.pool.accounts key).bind (s.pool.accounts[·]?)).any fun acc => acc.lastStatus = .dead
  | _ => true

/-! ### A selection -/

theorem selected_spec (s : System) :
    s.selected.clock = s.clock ∧ s.selected.pool.accounts.length = s.pool.accounts.length ∧
      (∀ (i : Nat) acc, s.pool.accounts[i]? = some acc →
        ∃ n, s.selected.pool.accounts[i]? = some { acc.lifted s.clock with requestCount := n }) ∧
      ∃ new : List Handout, s.selected.handed = s.handed ++ new ∧ ∀ h ∈ new, h.time = s.clock ∧
        ∃ acc, s.pool.accounts[h.account]? = some acc ∧ (acc.lifted s.clock).lastStatus = .ok := by
  cases hsel : s.pool.selectLocked s.clock with
  | mk q handed =>
    obtain ⟨hlen, hacc, hhanded, -⟩ := CredentialPool.selectLocked_spec hsel
    rw [System.selected, hsel]
    refine ⟨rfl, hlen, hacc, handed.toList.map fun i => ⟨i, s.clock⟩, rfl, ?_⟩
    intro h hmem
    obtain ⟨i, hi, rfl⟩ := List.mem_map.mp hmem
    exact ⟨rfl, hhanded i (Option.mem_toList.mp hi)⟩

variable {s t : System}

theorem step_cases {e : Event} (h : step s e = some t) :
    t = s.selected ∨
      (∃ status key, e = .mark status key ∧
        t = { s with pool := s.pool.mark status key s.clock, rotating := true }) ∨
      ∃ time, t = { s with clock := s.clock + time } := by
  cases e with
  | select =>
    rw [step] at h
    split at h
    · cases h
    · exact .inl (some.inj h).symm
  | mark status key =>
    rw [step] at h
    split at h
    · cases h
    · exact .inr (.inl ⟨status, key, rfl, (some.inj h).symm⟩)
  | rotate =>
    rw [step] at h
    split at h
    · exact .inl (some.inj h).symm
    · cases h
  | succeeded => exact .inr (.inr ⟨0, (some.inj h).symm⟩)
  | wait time => exact .inr (.inr ⟨time, (some.inj h).symm⟩)

/-! ### An account that is dead -/

theorem dead_step {e : Event} {i : Nat} (hdead : s.Dead i) (hkeep : keepsDead s e = true)
    (h : step s e = some t) :
    t.Dead i ∧ ∃ new : List Handout, t.handed = s.handed ++ new ∧ ∀ h ∈ new, h.account ≠ i := by
  obtain ⟨acc, hacc, hstatus⟩ := hdead
  obtain rfl | ⟨status, key, rfl, rfl⟩ | ⟨time, rfl⟩ := step_cases h
  · have hsame : acc.lifted s.clock = acc := by
      obtain hsame | ⟨hexhausted, -, -⟩ := PooledAccount.lifted_cases s.clock acc
      · exact hsame
      · simp [hexhausted] at hstatus
    obtain ⟨-, -, hkept, new, hnew, hfree⟩ := selected_spec s
    constructor
    · obtain ⟨n, hn⟩ := hkept i acc hacc
      refine ⟨_, hn, ?_⟩
      rw [hsame]
      exact hstatus
    · refine ⟨new, hnew, ?_⟩
      intro h hmem hi
      obtain ⟨-, acc', hacc', hok⟩ := hfree h hmem
      rw [hi, hacc] at hacc'
      cases hacc'
      simp [hsame, hstatus] at hok
  · refine ⟨?_, [], (append_nil _).symm, fun h hmem => absurd hmem not_mem_nil⟩
    rw [System.Dead, CredentialPool.mark, failFirst_spec]
    by_cases hhit : accountOf s.pool.accounts key = some i
    · rw [if_pos hhit, hacc]
      refine ⟨_, rfl, ?_⟩
      rw [keepsDead, hhit, bind_some, hacc] at hkeep
      simp only [any_some, hstatus, decide_true, Bool.not_true, Bool.or_false] at hkeep
      show (acc.failed status s.clock).lastStatus = .dead
      rw [PooledAccount.failed, if_pos hkeep]
    · rw [if_neg hhit]
      exact ⟨acc, hacc, hstatus⟩
  · exact ⟨⟨acc, hacc, hstatus⟩, [], (append_nil _).symm, fun h hmem => absurd hmem not_mem_nil⟩

theorem dead_run {es : List Event} {i : Nat} (hdead : s.Dead i)
    (hkeep : Along step (fun s e => keepsDead s e = true) s es) (h : run step s es = some t) :
    ∃ new : List Handout, t.handed = s.handed ++ new ∧ ∀ h ∈ new, h.account ≠ i := by
  induction es generalizing s with
  | nil =>
    cases h
    exact ⟨[], (append_nil _).symm, fun h hmem => absurd hmem not_mem_nil⟩
  | cons e rest ih =>
    obtain ⟨m, hstep, hrest⟩ := run_cons.mp h
    obtain ⟨hdead', new, hnew, hfree⟩ := dead_step hdead hkeep.1 hstep
    obtain ⟨more, hmore, hfree'⟩ := ih hdead' (hkeep.2 m hstep) hrest
    refine ⟨new ++ more, by rw [hmore, hnew, append_assoc], ?_⟩
    intro h hmem
    rcases List.mem_append.mp hmem with hmem | hmem
    · exact hfree h hmem
    · exact hfree' h hmem

/-! ### An account that cools down -/

def System.Timed (s : System) : Prop :=
  ∀ acc ∈ s.pool.accounts, ∀ reset, acc.lastErrorResetAt = some reset → reset ≤ s.clock + rateLimitCooldown

/-- Until `reset` the account is dead or cools down at least that long. -/
def System.Held (s : System) (i reset : Nat) : Prop :=
  reset ≤ s.clock + rateLimitCooldown ∧
    (reset ≤ s.clock ∨ s.Dead i ∨ ∃ later, reset ≤ later ∧ s.Cooling i later)

theorem timed_step {e : Event} (htimed : s.Timed) (h : step s e = some t) : t.Timed := by
  intro acc hmem reset hreset
  obtain ⟨i, hi⟩ := getElem?_of_mem hmem
  obtain rfl | ⟨status, key, rfl, rfl⟩ | ⟨time, rfl⟩ := step_cases h
  · obtain ⟨hclock, hlen, hkept, -⟩ := selected_spec s
    have hlt : i < s.pool.accounts.length := by
      rw [← hlen]
      exact (List.getElem?_eq_some_iff.mp hi).1
    obtain ⟨n, hn⟩ := hkept i _ (getElem?_eq_getElem hlt)
    rw [hn] at hi
    cases hi
    rw [hclock]
    exact htimed _ (getElem_mem hlt) reset (lifted_reset hreset)
  · rw [CredentialPool.mark, failFirst_spec] at hi
    split at hi
    · obtain ⟨old, hold, rfl⟩ := Option.map_eq_some_iff.mp hi
      obtain ⟨-, hnone⟩ | ⟨-, hsome⟩ := failed_cases status s.clock old
      · simp [hnone] at hreset
      · rw [hsome] at hreset
        exact le_of_eq (some.inj hreset).symm
    · exact htimed acc (mem_of_getElem? hi) reset hreset
  · have hle := htimed acc hmem reset hreset
    show reset ≤ s.clock + time + rateLimitCooldown
    omega

theorem held_step {e : Event} {i reset : Nat} (hheld : s.Held i reset)
    (h : step s e = some t) :
    t.Held i reset ∧ ∃ new : List Handout, t.handed = s.handed ++ new ∧
      ∀ h ∈ new, h.account = i → reset ≤ h.time := by
  obtain ⟨hbound, hheld⟩ := hheld
  obtain rfl | ⟨status, key, rfl, rfl⟩ | ⟨time, rfl⟩ := step_cases h
  · obtain ⟨hclock, -, hkept, new, hnew, hfree⟩ := selected_spec s
    rw [System.Held, hclock]
    by_cases hover : reset ≤ s.clock
    · refine ⟨⟨hbound, .inl hover⟩, new, hnew, ?_⟩
      intro h hmem _
      rw [(hfree h hmem).1]
      exact hover
    · have hstays : ∃ acc, s.pool.accounts[i]? = some acc ∧ acc.lifted s.clock = acc ∧
          (acc.lastStatus = .dead ∨ ∃ later, reset ≤ later ∧ acc.lastStatus = .exhausted ∧
            acc.lastErrorResetAt = some later) := by
        obtain hle | ⟨acc, hacc, hdead⟩ | ⟨later, hlater, acc, hacc, hstatus, hreset⟩ := hheld
        · exact absurd hle hover
        · refine ⟨acc, hacc, ?_, .inl hdead⟩
          obtain hsame | ⟨hexhausted, -, -⟩ := PooledAccount.lifted_cases s.clock acc
          · exact hsame
          · simp [hexhausted] at hdead
        · refine ⟨acc, hacc, ?_, .inr ⟨later, hlater, hstatus, hreset⟩⟩
          obtain hsame | ⟨-, ⟨ended, hended, hle⟩, -⟩ := PooledAccount.lifted_cases s.clock acc
          · exact hsame
          · rw [hended] at hreset
            cases hreset
            omega
      obtain ⟨acc, hacc, hsame, hstatus⟩ := hstays
      obtain ⟨n, hn⟩ := hkept i acc hacc
      rw [hsame] at hn
      refine ⟨⟨hbound, .inr ?_⟩, new, hnew, ?_⟩
      · obtain hdead | ⟨later, hlater, hexhausted, hreset⟩ := hstatus
        · exact .inl ⟨_, hn, hdead⟩
        · exact .inr ⟨later, hlater, _, hn, hexhausted, hreset⟩
      · intro h hmem hi
        obtain ⟨-, acc', hacc', hok⟩ := hfree h hmem
        rw [hi, hacc] at hacc'
        cases hacc'
        rw [hsame] at hok
        obtain hdead | ⟨_, _, hexhausted, _⟩ := hstatus
        · simp [hdead] at hok
        · simp [hexhausted] at hok
  · refine ⟨⟨hbound, ?_⟩, [], (append_nil _).symm, fun h hmem => absurd hmem not_mem_nil⟩
    obtain hover | hheld := hheld
    · exact .inl hover
    · right
      by_cases hhit : accountOf s.pool.accounts key = some i
      · have hacc : ∃ acc, s.pool.accounts[i]? = some acc := by
          obtain ⟨acc, hacc, -⟩ | ⟨-, -, acc, hacc, -, -⟩ := hheld
          · exact ⟨acc, hacc⟩
          · exact ⟨acc, hacc⟩
        obtain ⟨acc, hacc⟩ := hacc
        have hfailed : (s.pool.mark status key s.clock).accounts[i]? = some (acc.failed status s.clock) := by
          rw [CredentialPool.mark, failFirst_spec, if_pos hhit, hacc, map_some]
        obtain ⟨hdead, -⟩ | ⟨hexhausted, hreset⟩ := failed_cases status s.clock acc
        · exact .inl ⟨_, hfailed, hdead⟩
        · exact .inr ⟨s.clock + rateLimitCooldown, hbound, _, hfailed, hexhausted, hreset⟩
      · have hkept : (s.pool.mark status key s.clock).accounts[i]? = s.pool.accounts[i]? := by
          rw [CredentialPool.mark, failFirst_spec, if_neg hhit]
        simp only [System.Dead, System.Cooling, hkept]
        exact hheld
  · refine ⟨⟨?_, ?_⟩, [], (append_nil _).symm, fun h hmem => absurd hmem not_mem_nil⟩
    · show reset ≤ s.clock + time + rateLimitCooldown
      omega
    · obtain hover | hheld := hheld
      · exact .inl (Nat.le_trans hover (Nat.le_add_right _ _))
      · exact .inr hheld

theorem held_run {es : List Event} {i reset : Nat} (hheld : s.Held i reset)
    (h : run step s es = some t) :
    ∃ new : List Handout, t.handed = s.handed ++ new ∧ ∀ h ∈ new, h.account = i → reset ≤ h.time := by
  induction es generalizing s with
  | nil =>
    cases h
    exact ⟨[], (append_nil _).symm, fun h hmem => absurd hmem not_mem_nil⟩
  | cons e rest ih =>
    obtain ⟨m, hstep, hrest⟩ := run_cons.mp h
    obtain ⟨hheld', new, hnew, hlate⟩ := held_step hheld hstep
    obtain ⟨more, hmore, hlate'⟩ := ih hheld' hrest
    refine ⟨new ++ more, by rw [hmore, hnew, append_assoc], ?_⟩
    intro h hmem hi
    rcases List.mem_append.mp hmem with hmem | hmem
    · exact hlate h hmem hi
    · exact hlate' h hmem hi

theorem timed_start (credentials : List Credential) (strategy : Strategy) (clock : Nat) :
    (System.start credentials strategy clock).Timed := by
  intro acc hmem reset hreset
  obtain ⟨c, -, rfl⟩ := List.mem_map.mp hmem
  cases hreset

/-- In a run without late reports about dead accounts, an account that is dead is handed out no more, and
one that cools down is not handed out before its reset time. -/
theorem failed_account_is_kept_out {credentials : List Credential} {strategy : Strategy} {clock : Nat}
    {front back : List Event} {m t : System}
    (hkeep : Along step (fun s e => keepsDead s e = true) (.start credentials strategy clock) (front ++ back))
    (hfront : run step (.start credentials strategy clock) front = some m)
    (hback : run step m back = some t) : KeptOut m t := by
  have htimed : m.Timed := run_invariant (fun _ _ _ => timed_step) (timed_start credentials strategy clock) hfront
  intro h hmem
  constructor
  · intro hdead
    obtain ⟨new, hnew, hapart⟩ := dead_run hdead ((along_append.mp hkeep).2 m hfront) hback
    rw [hnew, List.drop_left] at hmem
    exact hapart h hmem rfl
  · intro reset hcooling
    have hheld : m.Held h.account reset := by
      obtain ⟨acc, hacc, -, hreset⟩ := id hcooling
      refine ⟨htimed acc (List.mem_of_getElem? hacc) reset hreset, .inr (.inr ⟨reset, le_refl _, hcooling⟩)⟩
    obtain ⟨new, hnew, hlate⟩ := held_run hheld hback
    rw [hnew, List.drop_left] at hmem
    exact hlate h hmem rfl

/-- Two calls fail with an authentication error and a rate limit; the first account stays out for good,
the second comes back an hour later. -/
theorem cooled_account_returns :
    ∃ m t, run step (.start [⟨"a", none, "", 0⟩, ⟨"b", none, "", 0⟩] .fillFirst 0)
        [.select, .mark (some 401) (some "a"), .rotate, .mark (some 429) (some "b")] = some m ∧
      run step m [.rotate, .wait rateLimitCooldown, .select] = some t ∧ KeptOut m t := by
  have hsome : ((run step (.start [⟨"a", none, "", 0⟩, ⟨"b", none, "", 0⟩] .fillFirst 0)
      [.select, .mark (some 401) (some "a"), .rotate, .mark (some 429) (some "b")]).bind fun m =>
        (run step m [.rotate, .wait rateLimitCooldown, .select]).map fun t => (m, t)).isSome = true := by
    rfl
  obtain ⟨⟨m, t⟩, hpair⟩ := Option.isSome_iff_exists.mp hsome
  obtain ⟨m', hm, hrest⟩ := Option.bind_eq_some_iff.mp hpair
  obtain ⟨t', ht, heq⟩ := Option.map_eq_some_iff.mp hrest
  obtain ⟨rfl, rfl⟩ := Prod.mk.inj heq
  exact ⟨m', t', hm, ht, failed_account_is_kept_out (by decide) hm ht⟩

/-- A rate limit that is reported late turns a dead account into one that cools down, and an hour later it
is handed out again. -/
theorem late_report_revives_dead_account :
    ∃ m t, run step (.start [⟨"a", none, "", 0⟩, ⟨"b", none, "", 0⟩] .fillFirst 0)
        [.select, .select, .mark (some 401) (some "a"), .rotate] = some m ∧
      run step m [.mark (some 429) (some "a"), .rotate, .wait rateLimitCooldown, .select] = some t ∧
      ¬ KeptOut m t := by
  have htrace : ((run step (.start [⟨"a", none, "", 0⟩, ⟨"b", none, "", 0⟩] .fillFirst 0)
      [.select, .select, .mark (some 401) (some "a"), .rotate]).bind fun m =>
        (run step m [.mark (some 429) (some "a"), .rotate, .wait rateLimitCooldown, .select]).map
          fun t => (m, t)).map (fun mt => (mt.1.pool.accounts.map (·.lastStatus),
            mt.2.handed.drop mt.1.handed.length)) =
      some ([.dead, .ok], [⟨1, 0⟩, ⟨0, rateLimitCooldown⟩]) := by
    rfl
  obtain ⟨⟨m, t⟩, hpair, htrace⟩ := Option.map_eq_some_iff.mp htrace
  obtain ⟨m', hm, hrest⟩ := Option.bind_eq_some_iff.mp hpair
  obtain ⟨t', ht, heq⟩ := Option.map_eq_some_iff.mp hrest
  obtain ⟨rfl, rfl⟩ := Prod.mk.inj heq
  obtain ⟨hstatus, hhanded⟩ := Prod.mk.inj htrace
  refine ⟨m', t', hm, ht, fun hkept => ?_⟩
  obtain ⟨hdead, -⟩ := hkept ⟨0, rateLimitCooldown⟩ (by rw [hhanded]; exact List.mem_cons_of_mem _ List.mem_cons_self)
  have hfirst : (m'.pool.accounts[0]?).map (·.lastStatus) = some .dead := by
    rw [← List.getElem?_map, hstatus]
    rfl
  obtain ⟨acc, hacc, hacc'⟩ := Option.map_eq_some_iff.mp hfirst
  exact hdead ⟨acc, hacc, hacc'⟩

end OpenAgent.Models
