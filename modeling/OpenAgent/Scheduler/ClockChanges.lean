import OpenAgent.Scheduler.Expressions
import Mathlib.Order.Lattice

/-!
# Schedules and the changes of a clock

A wall clock has an offset at every instant, and a reading that it shows more than once has the offset of
its first pass. A fixed time is due on first passes only, so the scan for it goes past the second passes in
a row and gives up after too many of them. What is due is found unless that happens.
-/

namespace OpenAgent.Scheduler

/-- What `zoneinfo` knows of a zone: the offset at an instant, and the offset of a reading with `fold=0`. At
the instant that these make of a reading that exists, the clock shows that reading. -/
structure WallClock where
  offset : Int → Int
  firstPass : Int → Int
  resolves : ∀ t, t + offset t - firstPass (t + offset t) +
    offset (t + offset t - firstPass (t + offset t)) = t + offset t

def WallClock.reading (clock : WallClock) (t : Int) : Int := t + clock.offset t

/-- The instant at which the clock shows for the first time what it shows at `t`. -/
def WallClock.first (clock : WallClock) (t : Int) : Int := clock.reading t - clock.firstPass (clock.reading t)

def WallClock.isRepeatedWallClock (clock : WallClock) (moment : Int) : Bool :=
  clock.firstPass (clock.reading moment) ≠ clock.offset moment

/-- The libraries, with zones that are wall clocks and a cron that goes in order through every instant whose
reading fits the expression. -/
structure ClockedCalendar (Zone : Type) extends Calendar Zone where
  clock : Zone → WallClock
  fits : String → Int → Bool
  repeated_clock : ∀ zone t, repeated zone t = (clock zone).isRepeatedWallClock t
  next_some : ∀ {expr zone base t}, next expr (some zone) base = some t → base < t ∧
    fits expr ((clock zone).reading t) = true ∧
      ∀ u, base < u → u < t → fits expr ((clock zone).reading u) = false
  next_none : ∀ {expr zone base}, next expr (some zone) base = none →
    ∀ u, base < u → fits expr ((clock zone).reading u) = false

namespace ClockedCalendar

variable {Zone : Type} (cal : ClockedCalendar Zone) (expr : String) (zone : Zone)

def matchesAt (t : Int) : Bool := cal.fits expr ((cal.clock zone).reading t)

/-- The schedule is due: not again for a reading that a fixed time has had. -/
def due (t : Int) : Bool :=
  cal.matchesAt expr zone t && !(cal.collapsesRepeatedHour expr && (cal.clock zone).isRepeatedWallClock t)

/-- How many of the `n` instants after `base` match. -/
def matchesAmong : Nat → Int → Nat
  | 0, _ => 0
  | n + 1, base => (cal.matchesAt expr zone (base + 1)).toNat + matchesAmong n (base + 1)

def matchesBetween (base t : Int) : Nat := cal.matchesAmong expr zone (t - base - 1).toNat base

/-- `t` is due next after `base`, and the scan gets there with fewer than `n` candidates before it. -/
structure DueNext (n : Nat) (base t : Int) : Prop where
  later : base < t
  due : cal.due expr zone t = true
  none_between : ∀ u, base < u → u < t → cal.due expr zone u = false
  within : cal.matchesBetween expr zone base t < n

/-- The fires after `base`, each searched from the one before. -/
def fire (timezone : Option String) : Nat → Int → Option Int
  | 0, base => cal.nextRunForExpression expr base timezone
  | n + 1, base => (cal.nextRunForExpression expr base timezone).bind (fire timezone n)

/-- The fires come in order; a fixed time has every reading once that fits and whose first pass is yet to
come; a cadence has every instant that matches. -/
structure SurvivesClockChanges (timezone : Option String) (base : Int) : Prop where
  increasing : ∀ n t u, cal.fire expr timezone n base = some t →
    cal.fire expr timezone (n + 1) base = some u → base < t ∧ t < u
  once : cal.collapsesRepeatedHour expr = true → ∀ m n t u, cal.fire expr timezone m base = some t →
    cal.fire expr timezone n base = some u → (cal.clock zone).reading t = (cal.clock zone).reading u → t = u
  fixed : cal.collapsesRepeatedHour expr = true → ∀ t, cal.matchesAt expr zone t = true →
    base < (cal.clock zone).first t → ∃ n u, cal.fire expr timezone n base = some u ∧
      (cal.clock zone).reading u = (cal.clock zone).reading t
  cadence : cal.collapsesRepeatedHour expr = false → ∀ t, base < t → cal.matchesAt expr zone t = true →
    ∃ n, cal.fire expr timezone n base = some t

/-- From no instant on do so many second passes come in a row that the scan ends before what is due. -/
def FewRepeats (base : Int) : Prop :=
  ∀ c u, base ≤ c → c < u → cal.due expr zone u = true → (∀ v, c < v → v < u → cal.due expr zone v = false) →
    cal.matchesBetween expr zone c u < dstScanLimit

variable {cal expr zone} {timezone : Option String} {base c t u : Int} {n : Nat}

theorem matchesAt_of_due (h : cal.due expr zone t = true) : cal.matchesAt expr zone t = true :=
  (Bool.and_eq_true_iff.mp h).1

theorem DueNext.unique {m : Nat} (h : cal.DueNext expr zone m base t) (h' : cal.DueNext expr zone n base u) :
    t = u := by
  rcases lt_trichotomy t u with hlt | heq | hgt
  · have hnone := h'.none_between t h.later hlt
    simp [h.due] at hnone
  · exact heq
  · have hnone := h.none_between u h'.later hgt
    simp [h'.due] at hnone

/-! ### The scan -/

theorem matchesAmong_add (m n : Nat) (base : Int) : cal.matchesAmong expr zone (m + n) base =
    cal.matchesAmong expr zone m base + cal.matchesAmong expr zone n (base + m) := by
  induction m generalizing base with
  | zero => simp [matchesAmong]
  | succ m ih =>
    rw [Nat.succ_add, matchesAmong, matchesAmong, ih, Nat.add_assoc,
      show base + 1 + (m : Int) = base + (m + 1 : Nat) by omega]

theorem matchesAmong_none (h : ∀ u, base < u → u ≤ base + n → cal.matchesAt expr zone u = false) :
    cal.matchesAmong expr zone n base = 0 := by
  induction n generalizing base with
  | zero => rfl
  | succ n ih =>
    rw [matchesAmong, h (base + 1) (by omega) (by omega), ih fun u hbase hu => h u (by omega) (by omega)]
    rfl

theorem matchesBetween_split (hbase : base < c) (hlt : c < t) : cal.matchesBetween expr zone base t =
    cal.matchesBetween expr zone base c + ((cal.matchesAt expr zone c).toNat + cal.matchesBetween expr zone c t) := by
  rw [matchesBetween, show (t - base - 1).toNat = (c - base - 1).toNat + ((t - c - 1).toNat + 1) by omega,
    matchesAmong_add, matchesAmong, show base + ((c - base - 1).toNat : Int) + 1 = c by omega]
  rfl

theorem matchesBetween_first (hnext : cal.next expr (some zone) base = some c) :
    cal.matchesBetween expr zone base c = 0 :=
  matchesAmong_none fun u hbase hu => (cal.next_some hnext).2.2 u hbase (by have := (cal.next_some hnext).1; omega)

theorem matchesBetween_next (hnext : cal.next expr (some zone) base = some c) (hlt : c < t) :
    cal.matchesBetween expr zone base t = cal.matchesBetween expr zone c t + 1 := by
  obtain ⟨hlater, hfits, -⟩ := cal.next_some hnext
  rw [matchesBetween_split hlater hlt, matchesBetween_first hnext, show cal.matchesAt expr zone c = true from hfits,
    Nat.zero_add, Nat.add_comm]
  rfl

theorem matchesBetween_le (hbc : base ≤ c) (hlt : c < t) :
    cal.matchesBetween expr zone c t ≤ cal.matchesBetween expr zone base t := by
  rcases hbc.eq_or_lt with rfl | hbc
  · exact le_rfl
  · rw [matchesBetween_split hbc hlt]
    omega

theorem le_of_matchesAt (hnext : cal.next expr (some zone) base = some c) (hlater : base < t)
    (hmatch : cal.matchesAt expr zone t = true) : c ≤ t := by
  by_contra hlt
  simp [matchesAt, (cal.next_some hnext).2.2 t hlater (not_le.mp hlt)] at hmatch

theorem scan_eq_some : cal.scan expr zone (cal.collapsesRepeatedHour expr) n base = some t ↔
    cal.DueNext expr zone n base t := by
  induction n generalizing base with
  | zero =>
    constructor
    · simp [Calendar.scan]
    · exact fun h => absurd h.within (Nat.not_lt_zero _)
  | succ n ih =>
    rw [Calendar.scan]
    cases hnext : cal.next expr (some zone) base with
    | none =>
      constructor
      · simp
      · intro h
        have hmatch := matchesAt_of_due h.due
        simp [matchesAt, cal.next_none hnext t h.later] at hmatch
    | some c =>
      obtain ⟨hlater, hfits, hfirst⟩ := cal.next_some hnext
      dsimp only
      rw [cal.repeated_clock]
      split
      · rename_i hrepeated
        have hnotdue : cal.due expr zone c = false := by rw [due, hrepeated, Bool.not_true, Bool.and_false]
        rw [ih]
        constructor
        · intro h
          refine ⟨hlater.trans h.later, h.due, ?_, ?_⟩
          · intro u hbase hu
            rcases lt_trichotomy u c with hbefore | rfl | hafter
            · rw [due, matchesAt, hfirst u hbase hbefore, Bool.false_and]
            · exact hnotdue
            · exact h.none_between u hafter hu
          · rw [matchesBetween_next hnext h.later]
            exact Nat.succ_lt_succ h.within
        · intro h
          have hct : c < t := by
            refine lt_of_le_of_ne (le_of_matchesAt hnext h.later (matchesAt_of_due h.due)) ?_
            rintro rfl
            simp [h.due] at hnotdue
          have hwithin := h.within
          rw [matchesBetween_next hnext hct] at hwithin
          exact ⟨hct, h.due, fun u hu => h.none_between u (hlater.trans hu), Nat.lt_of_succ_lt_succ hwithin⟩
      · rename_i hkept
        have hdue : cal.due expr zone c = true := by
          rw [due, matchesAt, hfits, Bool.true_and, Bool.not_eq_true']
          exact Bool.eq_false_iff.mpr hkept
        have hnext' : cal.DueNext expr zone (n + 1) base c := by
          refine ⟨hlater, hdue, ?_, ?_⟩
          · intro u hbase hu
            rw [due, matchesAt, hfirst u hbase hu, Bool.false_and]
          · rw [matchesBetween_first hnext]
            exact Nat.succ_pos n
        constructor
        · intro h
          cases h
          exact hnext'
        · intro h
          rw [hnext'.unique h]

theorem exists_first_due (hlater : base < t) (hdue : cal.due expr zone t = true) :
    ∃ u, (base < u ∧ cal.due expr zone u = true) ∧ ∀ v, base < v → v < u → cal.due expr zone v = false := by
  induction hk : (t - base).toNat using Nat.strong_induction_on generalizing t with
  | _ k ih =>
    by_cases hearlier : ∃ v, base < v ∧ v < t ∧ cal.due expr zone v = true
    · obtain ⟨v, hbase, hvt, hv⟩ := hearlier
      exact ih (v - base).toNat (by omega) hbase hv rfl
    · refine ⟨t, ⟨hlater, hdue⟩, ?_⟩
      intro v hbase hvt
      rw [← Bool.not_eq_true]
      exact fun hv => hearlier ⟨v, hbase, hvt, hv⟩

/-! ### The fires -/

section

variable (hrecurring : isOneShotExpression expr = false)
  (hzone : cal.resolveTimezone timezone = some (some zone))

include hrecurring hzone

theorem nextRun_eq_some : cal.nextRunForExpression expr base timezone = some t ↔
    cal.DueNext expr zone dstScanLimit base t := by
  rw [Calendar.nextRunForExpression, hrecurring, if_neg Bool.false_ne_true, hzone]
  exact scan_eq_some

theorem fire_dueNext (h : cal.fire expr timezone n base = some t) :
    ∃ b, base ≤ b ∧ (b = base ∨ cal.due expr zone b = true) ∧ cal.DueNext expr zone dstScanLimit b t := by
  induction n generalizing base with
  | zero => exact ⟨base, le_rfl, .inl rfl, (nextRun_eq_some hrecurring hzone).mp h⟩
  | succ n ih =>
    obtain ⟨b, hb, hrest⟩ := Option.bind_eq_some_iff.mp h
    have hnext := (nextRun_eq_some hrecurring hzone).mp hb
    obtain ⟨c, hle, hc, hdue⟩ := ih hrest
    refine ⟨c, hnext.later.le.trans hle, .inr ?_, hdue⟩
    rcases hc with rfl | hc
    · exact hnext.due
    · exact hc

theorem fire_due (h : cal.fire expr timezone n base = some t) : base < t ∧ cal.due expr zone t = true := by
  obtain ⟨b, hle, -, hdue⟩ := fire_dueNext hrecurring hzone h
  exact ⟨hle.trans_lt hdue.later, hdue.due⟩

omit hzone in
theorem fire_later (h : cal.fire expr timezone n base = some t)
    (h' : cal.fire expr timezone (n + 1) base = some u) : t < u := by
  induction n generalizing base with
  | zero =>
    rw [fire, show cal.nextRunForExpression expr base timezone = some t from h] at h'
    exact nextRun_later hrecurring h'
  | succ n ih =>
    obtain ⟨b, hb, hrest⟩ := Option.bind_eq_some_iff.mp h
    rw [fire, hb] at h'
    exact ih hrest h'

/-- By induction on the time that is left: what is due first is found, and the rest is due after it. -/
theorem exists_fire (hfew : cal.FewRepeats expr zone base) (hlater : base < t)
    (hdue : cal.due expr zone t = true) : ∃ n, cal.fire expr timezone n base = some t := by
  induction hk : (t - base).toNat using Nat.strong_induction_on generalizing base with
  | _ k ih =>
    obtain ⟨u, ⟨hbase, hdue'⟩, hfirst⟩ := exists_first_due hlater hdue
    have hle : u ≤ t := by
      by_contra hut
      simp [hfirst t hlater (not_le.mp hut)] at hdue
    have hnext : cal.nextRunForExpression expr base timezone = some u :=
      (nextRun_eq_some hrecurring hzone).mpr ⟨hbase, hdue', hfirst, hfew base u le_rfl hbase hdue' hfirst⟩
    rcases hle.eq_or_lt with rfl | hlt
    · exact ⟨0, hnext⟩
    · have hfew' : cal.FewRepeats expr zone u := fun c v hc => hfew c v (hbase.le.trans hc)
      obtain ⟨n, hn⟩ := ih (t - u).toNat (by omega) hfew' hlt rfl
      exact ⟨n + 1, by rw [fire, hnext]; exact hn⟩

end

/-! ### Clock changes -/

theorem isRepeated_iff {clock : WallClock} : clock.isRepeatedWallClock t = false ↔ clock.first t = t := by
  rw [WallClock.isRepeatedWallClock, decide_eq_false_iff_not, not_not, WallClock.first, WallClock.reading]
  omega

theorem reading_first (clock : WallClock) (t : Int) : clock.reading (clock.first t) = clock.reading t :=
  clock.resolves t

theorem first_first (clock : WallClock) (t : Int) : clock.first (clock.first t) = clock.first t := by
  rw [WallClock.first, reading_first, WallClock.first]

theorem first_of_due (hfixed : cal.collapsesRepeatedHour expr = true) (h : cal.due expr zone t = true) :
    (cal.clock zone).first t = t := by
  rw [due, hfixed, Bool.true_and, Bool.and_eq_true, Bool.not_eq_true'] at h
  exact isRepeated_iff.mp h.2

theorem due_first (hmatch : cal.matchesAt expr zone t = true) :
    cal.due expr zone ((cal.clock zone).first t) = true := by
  have hfits : cal.matchesAt expr zone ((cal.clock zone).first t) = true := by
    rw [matchesAt, reading_first]
    exact hmatch
  rw [due, hfits, isRepeated_iff.mpr (first_first _ t), Bool.and_false]
  rfl

theorem due_of_cadence (hcadence : cal.collapsesRepeatedHour expr = false) :
    cal.due expr zone t = cal.matchesAt expr zone t := by
  rw [due, hcadence, Bool.false_and, Bool.not_false, Bool.and_true]

/-- A schedule survives the changes of its clock if and only if there are never too many second passes in a
row before what is due. -/
theorem survives_iff_fewRepeats (cal : ClockedCalendar Zone) (expr : String) (zone : Zone)
    (timezone : Option String) (base : Int) (hrecurring : isOneShotExpression expr = false)
    (hzone : cal.resolveTimezone timezone = some (some zone)) :
    cal.SurvivesClockChanges expr zone timezone base ↔ cal.FewRepeats expr zone base := by
  constructor
  · intro h c u hc hlt hdue hnone
    have hfire : ∃ n, cal.fire expr timezone n base = some u := by
      cases hfixed : cal.collapsesRepeatedHour expr with
      | true =>
        have hfirst := first_of_due hfixed hdue
        obtain ⟨n, v, hv, hreading⟩ := h.fixed hfixed u (matchesAt_of_due hdue) (hfirst.symm ▸ hc.trans_lt hlt)
        have hfirst' := first_of_due hfixed (fire_due hrecurring hzone hv).2
        rw [WallClock.first, hreading] at hfirst'
        exact ⟨n, (hfirst'.symm.trans hfirst) ▸ hv⟩
      | false => exact h.cadence hfixed u (hc.trans_lt hlt) (matchesAt_of_due hdue)
    obtain ⟨n, hn⟩ := hfire
    obtain ⟨b, -, hb, hnext⟩ := fire_dueNext hrecurring hzone hn
    have hbc : b ≤ c := by
      rcases hb with rfl | hb
      · exact hc
      · by_contra hcb
        simp [hnone b (not_le.mp hcb) hnext.later] at hb
    exact (matchesBetween_le hbc hlt).trans_lt hnext.within
  · intro hfew
    refine ⟨?_, ?_, ?_, ?_⟩
    · exact fun n t u ht hu => ⟨(fire_due hrecurring hzone ht).1, fire_later hrecurring ht hu⟩
    · intro hfixed m n t u ht hu hreading
      have htfirst := first_of_due hfixed (fire_due hrecurring hzone ht).2
      have hufirst := first_of_due hfixed (fire_due hrecurring hzone hu).2
      rw [← htfirst, ← hufirst, WallClock.first, WallClock.first, hreading]
    · intro hfixed t hmatch hlater
      obtain ⟨n, hn⟩ := exists_fire hrecurring hzone hfew hlater (due_first hmatch)
      exact ⟨n, _, hn, reading_first _ t⟩
    · intro hcadence t hlater hmatch
      exact exists_fire hrecurring hzone hfew hlater (by rw [due_of_cadence hcadence, hmatch])

/-! ### A clock that goes back two hours -/

/-- `Antarctica/Troll`, on the day it goes back from three o'clock to one. -/
def troll : WallClock where
  offset t := if t < 3600 then 7200 else 0
  firstPass reading := if reading < 10800 then 7200 else 0
  resolves t := by grind

/-- `0 1,2 * * * *`: every second of two minutes of the day. -/
def eachSecond (reading : Int) : Bool := reading / 60 % 60 = 0 ∧ (reading / 3600 % 24 = 1 ∨ reading / 3600 % 24 = 2)

def firstAfter (fits : Int → Bool) : Nat → Int → Option Int
  | 0, _ => none
  | n + 1, base => if fits (base + 1) then some (base + 1) else firstAfter fits n (base + 1)

theorem firstAfter_some {fits : Int → Bool} (h : firstAfter fits n base = some t) :
    base < t ∧ fits t = true ∧ ∀ u, base < u → u < t → fits u = false := by
  induction n generalizing base with
  | zero => cases h
  | succ n ih =>
    rw [firstAfter] at h
    split at h
    · rename_i hfits
      cases h
      exact ⟨by omega, hfits, fun u hbase hu => by omega⟩
    · rename_i hnot
      obtain ⟨hlater, hfits, hfirst⟩ := ih h
      refine ⟨by omega, hfits, ?_⟩
      intro u hbase hu
      rcases eq_or_ne u (base + 1) with rfl | hne
      · exact Bool.eq_false_iff.mpr hnot
      · exact hfirst u (by omega) hu

theorem firstAfter_none {fits : Int → Bool} (h : firstAfter fits n base = none) (hlater : base < t)
    (hle : t ≤ base + n) : fits t = false := by
  induction n generalizing base with
  | zero => omega
  | succ n ih =>
    rw [firstAfter] at h
    split at h
    · cases h
    · rename_i hnot
      rcases eq_or_ne t (base + 1) with rfl | hne
      · exact Bool.eq_false_iff.mpr hnot
      · exact ih h (by omega) (by omega)

def fourDays : Nat := 345600

theorem reading_troll (t : Int) : troll.reading t = t + if t < 3600 then 7200 else 0 := rfl

theorem eachSecond_soon (base : Int) :
    ∃ t, base < t ∧ t ≤ base + fourDays ∧ eachSecond (troll.reading t) = true := by
  rcases lt_or_ge base (-86400) with hbefore | hafter
  · refine ⟨(base / 86400 + 2) * 86400 - 3600, by omega, by rw [fourDays]; omega, ?_⟩
    rw [reading_troll, if_pos (by omega), eachSecond, decide_eq_true_eq]
    omega
  · refine ⟨(base / 86400 + 2) * 86400 + 3600, by omega, by rw [fourDays]; omega, ?_⟩
    rw [reading_troll, if_neg (by omega), eachSecond, decide_eq_true_eq]
    omega

def trollCalendar : ClockedCalendar Unit where
  zoneInfo name := if name = "Antarctica/Troll" then some () else none
  strip := id
  readFloat _ := none
  expanded _ := some [["0"], ["1", "2"], ["*"], ["*"], ["*"], ["*"]]
  repeated _ := troll.isRepeatedWallClock
  next _ _ := firstAfter (fun t => eachSecond (troll.reading t)) fourDays
  next_later h := (firstAfter_some h).1
  clock _ := troll
  fits _ := eachSecond
  repeated_clock _ _ := rfl
  next_some h := firstAfter_some h
  next_none {_ _ base} h := by
    obtain ⟨t, hlater, hle, hfits⟩ := eachSecond_soon base
    simp [firstAfter_none h hlater hle] at hfits

theorem survives_iff_fewRepeats_troll :
    trollCalendar.SurvivesClockChanges "0 1,2 * * * *" () (some "Antarctica/Troll") 59 ↔
      trollCalendar.FewRepeats "0 1,2 * * * *" () 59 :=
  survives_iff_fewRepeats trollCalendar "0 1,2 * * * *" () (some "Antarctica/Troll") 59 (by decide) (by decide)

/-- After the first pass of both hours the scan gives up among the seconds of the second pass. -/
theorem scan_gives_up : ∃ (cal : ClockedCalendar Unit) (expr : String) (timezone : Option String) (base : Int),
    isOneShotExpression expr = false ∧ cal.resolveTimezone timezone = some (some ()) ∧
      ¬ cal.SurvivesClockChanges expr () timezone base := by
  refine ⟨trollCalendar, "0 1,2 * * * *", some "Antarctica/Troll", 59, by decide, by decide, ?_⟩
  intro h
  have hnone : trollCalendar.nextRunForExpression "0 1,2 * * * *" 59 (some "Antarctica/Troll") = none := by
    decide +kernel
  obtain ⟨n, u, hfire, -⟩ := h.fixed rfl 90000 (by decide) (by decide)
  cases n with
  | zero => cases hnone.symm.trans hfire
  | succ n =>
    simp [fire, hnone] at hfire

end ClockedCalendar

end OpenAgent.Scheduler
