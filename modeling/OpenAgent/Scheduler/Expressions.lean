import Mathlib.Init

/-!
# Schedule expressions

A schedule is a cron expression, read in UTC or in a time zone, or a single instant. Instants are whole
numbers of some fixed fraction of a second. What cron and the time zones themselves say is left open; of
cron only this much is known: the occurrence after an instant is later than the instant.
-/

namespace OpenAgent.Scheduler

variable {Zone : Type}

/-- The libraries that schedules rest on. `next expr zone base` is the first occurrence after `base`, and
`none` where the library raises; asked again, it goes on from the occurrence it gave. `repeated` tells
the second pass of a wall-clock reading that a zone has twice. -/
structure Calendar (Zone : Type) where
  zoneInfo : String → Option Zone
  strip : String → String
  readFloat : String → Option Int
  expanded : String → Option (List (List String))
  repeated : Zone → Int → Bool
  next : String → Option Zone → Int → Option Int
  next_later : ∀ {expr zone base t}, next expr zone base = some t → base < t

/-- `ONE_SHOT_PREFIX` -/
def oneShotPrefix : String := "@once:"

def isOneShotExpression (expr : String) : Bool := oneShotPrefix.toList.isPrefixOf expr.toList

def Calendar.parseOneShotExpression (cal : Calendar Zone) (expr : String) : Option Int :=
  if isOneShotExpression expr then
    cal.readFloat (String.ofList (expr.toList.drop oneShotPrefix.toList.length))
  else none

/-- `resolve_timezone`; the inner `none` is UTC. -/
def Calendar.resolveTimezone (cal : Calendar Zone) : Option String → Option (Option Zone)
  | none => some none
  | some name => if cal.strip name = "" then some none else (cal.zoneInfo (cal.strip name)).map some

/-- `_collapses_repeated_hour`: one minute and named hours. -/
def Calendar.collapsesRepeatedHour (cal : Calendar Zone) (expr : String) : Bool :=
  match cal.expanded expr with
  | some (minutes :: hours :: _) => decide (minutes ≠ ["*"] ∧ minutes.length = 1) && decide (hours ≠ ["*"])
  | _ => false

/-- `_DST_SCAN_LIMIT` -/
def dstScanLimit : Nat := 64

/-- The loop of `_next_run_in_zone` with `n` candidates left. -/
def Calendar.scan (cal : Calendar Zone) (expr : String) (zone : Zone) (collapse : Bool) :
    Nat → Int → Option Int
  | 0, _ => none
  | n + 1, base =>
    match cal.next expr (some zone) base with
    | none => none
    | some candidate =>
      if collapse && cal.repeated zone candidate then cal.scan expr zone collapse n candidate
      else some candidate

def Calendar.nextRunInZone (cal : Calendar Zone) (expr : String) (base : Int) (zone : Zone) : Option Int :=
  cal.scan expr zone (cal.collapsesRepeatedHour expr) dstScanLimit base

def Calendar.nextRunForExpression (cal : Calendar Zone) (expr : String) (base : Int)
    (timezone : Option String) : Option Int :=
  if isOneShotExpression expr then cal.parseOneShotExpression expr
  else
    match cal.resolveTimezone timezone with
    | none => none
    | some none => cal.next expr none base
    | some (some zone) => cal.nextRunInZone expr base zone

variable {cal : Calendar Zone}

theorem scan_later {expr : String} {zone : Zone} {collapse : Bool} {n : Nat} {base t : Int}
    (h : cal.scan expr zone collapse n base = some t) : base < t := by
  induction n generalizing base with
  | zero => cases h
  | succ n ih =>
    rw [Calendar.scan] at h
    cases hnext : cal.next expr (some zone) base with
    | none =>
      simp [hnext] at h
    | some candidate =>
      have hlater := cal.next_later hnext
      simp only [hnext] at h
      split at h
      · have hrest := ih h
        omega
      · cases h
        exact hlater

theorem nextRun_later {expr : String} {base t : Int} {timezone : Option String}
    (hrecurring : isOneShotExpression expr = false)
    (h : cal.nextRunForExpression expr base timezone = some t) : base < t := by
  rw [Calendar.nextRunForExpression, hrecurring, if_neg (by decide)] at h
  split at h
  · cases h
  · exact cal.next_later h
  · exact scan_later h

end OpenAgent.Scheduler
