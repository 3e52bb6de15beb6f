import OpenAgent.Deliveries.System

/-!
# Failed prompt turns

A failure leaves a prompt turn in one of two ways: the turn raises, or it returns a result that is marked
as failed. Both are classified, but only the second route adds the mark by which a sweep finds a
transient failure again. A permanent failure is never taken for one, on either route, because the mark
itself names a token of transience.
-/

namespace OpenAgent.Deliveries

open Lib List

inductive FailureKind
  | transient | permanent
deriving DecidableEq

inductive ErrorClass
  | timeout | modelRateLimit | other
deriving DecidableEq

/-- An exception other than a cancellation. `statusCode` is its attribute `status_code`, if it has one, and
`text` is `str(e)`; the name of its class has no blank in it. -/
structure TurnException where
  errorClass : ErrorClass := .other
  typeName : String
  typeName_plain : ' ' ∉ typeName.toList
  statusCode : Option Int := none
  text : String

/-- What `_classify_delivery_failure` accepts. -/
inductive Fault
  | cancelled
  | exception (e : TurnException)
  | output (text : String)

/-- `_TRANSIENT_TOKENS` -/
def transientTokens : List String :=
  ["rate limit", "ratelimit", "rate_limit", "429", "529", "503", "quota", "throttl", "overloaded",
    "too many requests", "temporarily unavailable", "service unavailable", "capacity", "timed out",
    "timeout", "exit code 75", "exit_code 75", "code 75", "no available", "noavailableaccount",
    "no_enabled_model", "no model is currently enabled", "closedresourceerror", "brokenresourceerror",
    "endofstream", "connection closed", "failed in transport", "transport failure"]

def classifyText (L : LowerCase) (text : String) : FailureKind :=
  if transientTokens.any fun token => L.has token text then .transient else .permanent

/-- `_classify_delivery_failure` -/
def classifyDeliveryFailure (L : LowerCase) : Fault → FailureKind
  | .cancelled => .transient
  | .exception e =>
    if e.errorClass = .timeout then .transient
    else if e.statusCode ∈ [some 429, some 529, some 503] then .transient
    else if e.errorClass = .modelRateLimit then .transient
    else classifyText L e.text
  | .output text => classifyText L text

/-- How a prompt turn fails: it raises, or it returns a result that is marked as failed, with the error
and the text of the result. A cancellation is a barge-in, not a failure. -/
inductive TurnFailure
  | raised (e : TurnException)
  | reported (error : Option String) (text : String)

/-- `str(e) or f"{type(e).__name__} (no message)"` -/
def TurnException.detail (e : TurnException) : String :=
  if e.text = "" then e.typeName ++ " (no message)" else e.text

/-- `getattr(result, "error", None) or "unknown error"` -/
def reportedDetail (error : Option String) : String :=
  match error with
  | some detail => if detail = "" then "unknown error" else detail
  | none => "unknown error"

def TurnFailure.kind (L : LowerCase) : TurnFailure → FailureKind
  | .raised e => classifyDeliveryFailure L (.exception e)
  | .reported error _ => classifyDeliveryFailure L (.output (reportedDetail error))

/-- The end of `_dispatch_prompt` for a result that is marked as failed. -/
def dispatchPromptFailed (config : Config) (L : LowerCase) (error : Option String) (text : String) :
    Result :=
  let detail := reportedDetail error
  let failureDetail :=
    if classifyDeliveryFailure L (.output detail) = .transient then retryableTurnMark ++ ": " ++ detail
    else detail
  { status := some .failed
    output := some (config.retainOutput text)
    error := some (some (clip 2000 failureDetail)) }

/-- How `_execute_event` finishes the dispatch of a turn that failed. -/
def TurnFailure.outcome (config : Config) (L : LowerCase) : TurnFailure → Outcome
  | .raised e => .raised e.detail
  | .reported error text => .returned (dispatchPromptFailed config L error text)

/-- The delivery after a turn that failed at `now`. -/
def Delivery.afterFailure (config : Config) (L : LowerCase) (row : Delivery) (now : Int)
    (failure : TurnFailure) : Delivery :=
  row.update ((failure.outcome config L).update config now)

def TurnFailure.Replayable (L : LowerCase) : TurnFailure → Prop
  | .raised e => classifyDeliveryFailure L (.exception e) = .permanent ∨
    like retryableTurnMark (clip 2000 e.detail) = true
  | .reported _ _ => True

variable {config : Config} {L : LowerCase} {row : Delivery} {now : Int} {failure : TurnFailure}

/-! ### What the row says afterwards -/

def TurnFailure.recorded (L : LowerCase) : TurnFailure → String
  | .raised e => clip 2000 e.detail
  | .reported error _ =>
    let detail := reportedDetail error
    clip 2000 (if classifyText L detail = .transient then retryableTurnMark ++ ": " ++ detail else detail)

theorem afterFailure_columns (config : Config) (L : LowerCase) (row : Delivery) (now : Int)
    (failure : TurnFailure) :
    let after := row.afterFailure config L now failure
    after.status = .failed ∧ after.error = some (failure.recorded L) ∧ after.finishedAt = some now ∧
      after.reenqueueCount = row.reenqueueCount := by
  cases failure with
  | raised e => exact ⟨rfl, rfl, rfl, rfl⟩
  | reported error text => exact ⟨rfl, rfl, rfl, rfl⟩

/-- A sweep gives the row of a failed turn back once the delay has passed, if and only if the row holds
the mark. -/
theorem reapStale_afterFailure (config : Config) (L : LowerCase) (now : Int) (failure : TurnFailure)
    (sweep : Sweep) {later : Int} {limit : Nat} (hbudget : row.reenqueueCount < limit) :
    (row.afterFailure config L now failure).reapStale sweep limit later =
      if sweep.enabled = true ∧ sweep.reenqueueTransient = true ∧
        like retryableTurnMark (failure.recorded L) = true ∧ now ≤ later - max 0 sweep.retryDelaySeconds
      then (row.afterFailure config L now failure).requeue "no model capacity"
      else row.afterFailure config L now failure := by
  obtain ⟨hstatus, herror, hfinished, hcount⟩ := afterFailure_columns config L row now failure
  have hretry : (row.afterFailure config L now failure).retryable sweep later = true ↔
      like retryableTurnMark (failure.recorded L) = true ∧
        now ≤ later - max 0 sweep.retryDelaySeconds := by
    simp [Delivery.retryable, Delivery.failedWith, hstatus, herror, hfinished]
  rw [reapStale_of_not_inFlight sweep limit later (not_inFlight_of_failed hstatus),
    Delivery.retryTransient, hcount]
  simp only [hretry, hbudget, and_true]
  by_cases henabled : sweep.enabled = true ∧ sweep.reenqueueTransient = true
  · rw [if_pos henabled]
    simp only [henabled.1, henabled.2, true_and]
  · rw [if_neg henabled, if_neg]
    rintro ⟨hon, htransient, -⟩
    exact henabled ⟨hon, htransient⟩

/-! ### The mark and the classifier -/

theorem classifyText_of_marked {text : String} {n : Nat}
    (h : like retryableTurnMark (clip n text) = true) : classifyText L text = .transient := by
  have hascii : ((retryableTurnMark.toList.map Char.toLower).all fun c => decide (c.toNat < 128)) =
      true := by
    decide +kernel
  have htoken : "capacity".toList <:+: retryableTurnMark.toList.map Char.toLower :=
    occurs_iff.mp (by decide +kernel)
  have hhas : L.has "capacity" text = true := L.has_of_like hascii htoken h
  have hany : (transientTokens.any fun token => L.has token text) = true :=
    List.any_eq_true.mpr ⟨"capacity", by decide, hhas⟩
  rw [classifyText, if_pos hany]

theorem classifyText_of_permanent {e : TurnException}
    (h : classifyDeliveryFailure L (.exception e) = .permanent) : classifyText L e.text = .permanent := by
  simp only [classifyDeliveryFailure] at h
  split at h
  · cases h
  · split at h
    · cases h
    · split at h
      · cases h
      · exact h

/-- The name of an exception's class and `(no message)` have fewer blanks than the mark. -/
theorem not_marked_no_message (e : TurnException) (n : Nat) :
    like retryableTurnMark (clip n (e.typeName ++ " (no message)")) = false := by
  cases hmarked : like retryableTurnMark (clip n (e.typeName ++ " (no message)")) with
  | false => rfl
  | true =>
    exfalso
    have hblanks := count_blank_of_like hmarked
    have hmark : retryableTurnMark.toList.count ' ' = 5 := by decide +kernel
    have hname : e.typeName.toList.count ' ' = 0 := List.count_eq_zero.mpr e.typeName_plain
    have hmessage : " (no message)".toList.count ' ' = 2 := by decide +kernel
    have hclip : ((e.typeName ++ " (no message)").toList.take n).count ' ' ≤
        (e.typeName ++ " (no message)").toList.count ' ' :=
      (take_sublist _ _).count_le ' '
    rw [String.toList_append, count_append, hname, hmessage] at hclip
    rw [toList_clip, String.toList_append, hmark] at hblanks
    omega

theorem not_marked_of_permanent (h : failure.kind L = .permanent) :
    like retryableTurnMark (failure.recorded L) = false := by
  have hplain : ∀ text, classifyText L text = .permanent →
      like retryableTurnMark (clip 2000 text) = false := by
    intro text hpermanent
    cases hmarked : like retryableTurnMark (clip 2000 text) with
    | false => rfl
    | true =>
      simp [classifyText_of_marked hmarked] at hpermanent
  cases failure with
  | raised e =>
    have htext := classifyText_of_permanent h
    show like retryableTurnMark (clip 2000 e.detail) = false
    rw [TurnException.detail]
    split
    · exact not_marked_no_message e 2000
    · exact hplain e.text htext
  | reported error text =>
    have hkind : classifyText L (reportedDetail error) = .permanent := h
    show like retryableTurnMark (clip 2000 (if classifyText L (reportedDetail error) = .transient
      then retryableTurnMark ++ ": " ++ reportedDetail error else reportedDetail error)) = false
    rw [hkind, if_neg (by decide)]
    exact hplain _ hkind

theorem marked_of_prefixed (detail : String) :
    like retryableTurnMark (clip 2000 (retryableTurnMark ++ ": " ++ detail)) = true := by
  rw [like_iff]
  refine ⟨retryableTurnMark.toList, ?_, rfl⟩
  have hlength : retryableTurnMark.toList.length ≤ 2000 := by decide +kernel
  rw [toList_clip, String.toList_append, String.toList_append, append_assoc, take_append,
    take_of_length_le hlength]
  exact (prefix_append ..).isInfix

theorem marked_iff_of_transient (h : failure.kind L = .transient) :
    like retryableTurnMark (failure.recorded L) = true ↔ failure.Replayable L := by
  cases failure with
  | raised e =>
    have hkind : classifyDeliveryFailure L (.exception e) = .transient := h
    simp only [TurnFailure.Replayable, hkind, reduceCtorEq, false_or]
    rfl
  | reported error text =>
    have hkind : classifyText L (reportedDetail error) = .transient := h
    simp only [TurnFailure.Replayable, iff_true]
    show like retryableTurnMark (clip 2000 (if classifyText L (reportedDetail error) = .transient
      then retryableTurnMark ++ ": " ++ reportedDetail error else reportedDetail error)) = true
    rw [if_pos hkind]
    exact marked_of_prefixed _

theorem kind_cases (L : LowerCase) (failure : TurnFailure) :
    failure.kind L = .transient ∨ failure.kind L = .permanent := by
  cases failure.kind L with
  | transient => exact .inl rfl
  | permanent => exact .inr rfl

theorem replayable_of_permanent (h : failure.kind L = .permanent) : failure.Replayable L := by
  cases failure with
  | raised e => exact .inl h
  | reported error text => trivial

/-! ### Replay of failures -/

def ReplayedAsClassified (config : Config) (L : LowerCase) (row : Delivery) (now : Int)
    (failure : TurnFailure) : Prop :=
  let after := row.afterFailure config L now failure
  (failure.kind L = .transient → ∀ (sweep : Sweep) later, sweep.enabled = true →
    sweep.reenqueueTransient = true → now + max 0 sweep.retryDelaySeconds ≤ later →
      after.reapStale sweep config.limit later = after.requeue "no model capacity") ∧
  (failure.kind L = .permanent → ∀ (sweep : Sweep) later,
    after.reapStale sweep config.limit later = after)

theorem requeue_ne (row : Delivery) (cause : String) : row.requeue cause ≠ row := by
  intro hsame
  have hcount : row.reenqueueCount + 1 = row.reenqueueCount :=
    congrArg Delivery.reenqueueCount hsame
  omega

/-- Below the replay limit a failed turn is replayed as it is classified, unless the turn raised a
transient failure whose text does not happen to hold the mark. -/
theorem replayed_as_classified_iff (config : Config) (L : LowerCase) (row : Delivery) (now : Int)
    (failure : TurnFailure) (hbudget : row.reenqueueCount < config.limit) :
    ReplayedAsClassified config L row now failure ↔ failure.Replayable L := by
  constructor
  · rintro ⟨htransient, -⟩
    rcases kind_cases L failure with hkind | hkind
    · rw [← marked_iff_of_transient hkind]
      have hlater : now + max 0 ({} : Sweep).retryDelaySeconds ≤ now + 300 := by
        show now + max 0 300 ≤ now + 300
        omega
      have hback := htransient hkind {} (now + 300) rfl rfl hlater
      rw [reapStale_afterFailure config L now failure {} hbudget] at hback
      by_contra hmarked
      rw [if_neg fun hc => hmarked hc.2.2.1] at hback
      exact requeue_ne _ _ hback.symm
    · exact replayable_of_permanent hkind
  · intro hreplayable
    refine ⟨fun hkind sweep later henabled htransient hlater => ?_, fun hkind sweep later => ?_⟩
    · have hmarked := (marked_iff_of_transient hkind).mpr hreplayable
      have hdelay : now ≤ later - max 0 sweep.retryDelaySeconds := by omega
      rw [reapStale_afterFailure config L now failure sweep hbudget,
        if_pos ⟨henabled, htransient, hmarked, hdelay⟩]
    · have hmarked := not_marked_of_permanent hkind
      rw [reapStale_afterFailure config L now failure sweep hbudget, if_neg]
      rintro ⟨-, -, hfound, -⟩
      simp [hmarked] at hfound

def runningDelivery : Delivery := { eventId := "event", status := .running, startedAt := 0, claimedAt := some 0 }

theorem reported_failure_is_replayed :
    ReplayedAsClassified {} .asciiOnly runningDelivery 60 (.reported (some "HTTP 429") "") :=
  (replayed_as_classified_iff {} .asciiOnly runningDelivery 60 (.reported (some "HTTP 429") "")
    (by decide)).mpr trivial

/-- What `asyncio.wait_for` raises when the wall-clock cap of a turn passes. -/
def wallClockTimeout : TurnException where
  errorClass := .timeout
  typeName := "TimeoutError"
  typeName_plain := by decide
  text := ""

/-- A turn that runs into its wall-clock cap fails transiently and is never given back by a sweep. -/
theorem timeout_is_never_replayed :
    (TurnFailure.raised wallClockTimeout).kind .asciiOnly = .transient ∧
      ∀ (sweep : Sweep) later,
        let after := runningDelivery.afterFailure {} .asciiOnly 600 (.raised wallClockTimeout)
        after.reapStale sweep (Config.limit {}) later = after := by
  refine ⟨rfl, fun sweep later => ?_⟩
  have hmarked : like retryableTurnMark ((TurnFailure.raised wallClockTimeout).recorded .asciiOnly) =
      false := by
    decide +kernel
  have hbudget : runningDelivery.reenqueueCount < Config.limit {} := by decide
  show (runningDelivery.afterFailure {} .asciiOnly 600 (.raised wallClockTimeout)).reapStale sweep
    (Config.limit {}) later = _
  rw [reapStale_afterFailure {} .asciiOnly 600 (.raised wallClockTimeout) sweep hbudget, hmarked,
    if_neg fun hc => nomatch hc.2.2.1]

end OpenAgent.Deliveries
