import OpenAgent.Scheduler.ClockChanges

/-!
# The windows of a budget

A window goes from the first reading of its hour, day or month to the first reading of the next. The bounds of
the windows divide time where the clock enters every window once. A reading that the clock shows twice has
`fold=1` in its second pass, which the start of the window keeps and a sum drops.
-/

namespace OpenAgent.Budget

open Scheduler (WallClock)

/-- What `zoneinfo` knows of a zone, in microseconds: with `fold=1` a reading that is shown twice means its second
pass. -/
structure Zone extends WallClock where
  secondPass : Int → Int
  second : ∀ t, toWallClock.isRepeatedWallClock t = true → secondPass (toWallClock.reading t) = offset t

namespace Zone

variable (zone : Zone)

def timestamp (reading : Int) (fold : Bool) : Int :=
  reading - if fold then zone.secondPass reading else zone.firstPass reading

def fold (t : Int) : Bool := zone.isRepeatedWallClock t

end Zone

def hourLength : Int := 3600 * 1000000

def dayLength : Int := 24 * hourLength

/-- The number of the day that a month begins with; the months are counted from the year 0 on, the days from the
epoch. -/
def firstDay (month : Int) : Int :=
  -- a year that begins in March ends with the day that a leap year adds
  let year := (month - 2) / 12
  let since := (month - 2) % 12
  365 * year + year / 4 - year / 100 + year / 400 + (153 * since + 2) / 5 - 719468

/-- The month of a day: the estimate from the mean length of a year is never early and at most one late. -/
def monthOf (day : Int) : Int :=
  let late := (day + 719528) * 4800 / 146097 + 1
  if firstDay late ≤ day then late else if firstDay (late - 1) ≤ day then late - 1 else late - 2

theorem day_lt (day : Int) : day < firstDay ((day + 719528) * 4800 / 146097 + 2) := by
  generalize hlate : (day + 719528) * 4800 / 146097 = late
  rw [firstDay]
  generalize hyear : (late + 2 - 2) / 12 = year
  generalize hsince : (late + 2 - 2) % 12 = since
  have hleap : (97 * year - 1200) / 400 ≤ year / 4 - year / 100 + year / 400 := by omega
  omega

theorem le_day (day : Int) : firstDay ((day + 719528) * 4800 / 146097 - 1) ≤ day := by
  generalize hlate : (day + 719528) * 4800 / 146097 = late
  rw [firstDay]
  generalize hyear : (late - 1 - 2) / 12 = year
  generalize hsince : (late - 1 - 2) % 12 = since
  have hleap : year / 4 - year / 100 + year / 400 ≤ (97 * year + 1200) / 400 := by omega
  omega

theorem monthOf_spec (day : Int) : firstDay (monthOf day) ≤ day ∧ day < firstDay (monthOf day + 1) := by
  have hlt := day_lt day
  have hle := le_day day
  rw [monthOf]
  generalize (day + 719528) * 4800 / 146097 = late at *
  split
  · rename_i hlate
    exact ⟨hlate, by rwa [show late + 1 + 1 = late + 2 by omega]⟩
  · rename_i hearly
    split
    · rename_i hestimate
      exact ⟨hestimate, by rw [show late + 1 - 1 + 1 = late + 1 by omega]; omega⟩
    · rename_i hearlier
      rw [show late + 1 - 2 = late - 1 by omega]
      exact ⟨hle, by rw [show late - 1 + 1 = late + 1 - 1 by omega]; omega⟩

inductive WindowKind
  | hour | day | month
deriving DecidableEq

namespace WindowKind

/-- `dt.replace(…)` -/
def start (kind : WindowKind) (reading : Int) : Int :=
  match kind with
  | .hour => reading / hourLength * hourLength
  | .day => reading / dayLength * dayLength
  | .month => firstDay (monthOf (reading / dayLength)) * dayLength

/-- The first reading of the window after the one that begins with `start`. -/
def next (kind : WindowKind) (start : Int) : Int :=
  match kind with
  | .hour => start + hourLength
  | .day => start + dayLength
  | .month => firstDay (monthOf (start / dayLength) + 1) * dayLength

/-- The first readings that are made with the fold of a reading in the window. -/
def folded (kind : WindowKind) (reading : Int) : List Int :=
  match kind with
  | .hour | .day => [kind.start reading]
  | .month => [kind.start reading, kind.next (kind.start reading)]

end WindowKind

/-- `_window_bounds` -/
def windowBounds (kind : WindowKind) (now : Int) (zone : Zone) : Int × Int :=
  let start := kind.start (zone.reading now)
  let fold := zone.fold now
  -- `replace` keeps the fold, a sum does not
  (zone.timestamp start fold, zone.timestamp (kind.next start) (fold && kind = .month))

/-- The window of `t` has it, and every instant in it has the same window. -/
def Partitions (kind : WindowKind) (zone : Zone) (t : Int) : Prop :=
  (windowBounds kind t zone).1 ≤ t ∧ t < (windowBounds kind t zone).2 ∧
    ∀ u, (windowBounds kind t zone).1 ≤ u → u < (windowBounds kind t zone).2 →
      windowBounds kind u zone = windowBounds kind t zone

/-- From the instant on that `fold=0` makes of the first reading of a window, and not before, the clock shows this
window or a later one; and in a second pass the two folds of a window's first reading are one instant. -/
structure EntersOnce (kind : WindowKind) (zone : Zone) : Prop where
  start : ∀ t u, kind.start (zone.reading t) ≤ kind.start (zone.reading u) ↔
    zone.timestamp (kind.start (zone.reading t)) false ≤ u
  next : ∀ t u, kind.start (zone.reading t) < kind.start (zone.reading u) ↔
    zone.timestamp (kind.next (kind.start (zone.reading t))) false ≤ u
  folds : ∀ t, zone.fold t = true → ∀ reading ∈ kind.folded (zone.reading t),
    zone.timestamp reading true = zone.timestamp reading false

variable {kind : WindowKind} {zone : Zone}

theorem EntersOnce.bounds (h : EntersOnce kind zone) (t : Int) : windowBounds kind t zone =
    (zone.timestamp (kind.start (zone.reading t)) false,
      zone.timestamp (kind.next (kind.start (zone.reading t))) false) := by
  rw [windowBounds]
  cases hfold : zone.fold t with
  | false => rw [Bool.false_and]
  | true =>
    have hfolds := h.folds t hfold
    cases kind with
    | hour | day => exact Prod.ext (hfolds _ List.mem_cons_self) rfl
    | month => exact Prod.ext (hfolds _ List.mem_cons_self) (hfolds _ (.tail _ List.mem_cons_self))

/-- Nor do the bounds divide time where the two folds of the first reading of an hour or a day differ. -/
theorem folds_of_partitions {t : Int} (hkind : kind ≠ .month) (h : ∀ t, Partitions kind zone t)
    (hfold : zone.fold t = true) (hearlier : zone.first t ≤ t) :
    zone.timestamp (kind.start (zone.reading t)) true = zone.timestamp (kind.start (zone.reading t)) false := by
  have hreading : zone.reading (zone.first t) = zone.reading t := zone.resolves t
  have hfirst : zone.fold (zone.first t) = false := by
    have hoffset : zone.first t + zone.offset (zone.first t) = zone.reading t := hreading
    rw [WallClock.first] at hoffset
    rw [Zone.fold, WallClock.isRepeatedWallClock, decide_eq_false_iff_not, not_not, hreading, WallClock.first]
    omega
  have hsum : (decide (kind = .month)) = false := decide_eq_false hkind
  obtain ⟨-, hend, -⟩ := h t
  obtain ⟨hstart, -, hsame⟩ := h (zone.first t)
  rw [windowBounds, hfold, hsum] at hend
  rw [windowBounds, hfirst, hreading] at hstart hsame
  have heq := hsame t (hstart.trans hearlier) hend
  rw [windowBounds, hfold] at heq
  exact congrArg Prod.fst heq

/-! ### A zone without changes, and the hour that comes twice in another -/

end OpenAgent.Budget
