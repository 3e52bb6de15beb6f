import OpenAgent.Lib.Text
import Mathlib.Algebra.Order.Ring.Unbundled.Rat

/-!
# Background completions within a turn

A turn asks its model again as long as background jobs complete. It takes their events from the hub at its
start, after each answer, and while it waits for jobs that still run; an event that was taken is in nobody
else's hands. What the model answers, and when the hub has events, is given for each iteration.
-/

namespace OpenAgent.Agent.Autoloop

open List Option

/-- `JobEvent`, with what `json.dumps` makes of its arguments, if it can. -/
structure JobEvent where
  jobId : String
  summary : String
  toolName : String
  sourceId : String
  arguments : Option String
deriving DecidableEq

/-- What is used of Python: `repr` of a string, and `json.dumps` of a list of strings. -/
structure Python where
  repr : String → String
  dumps : List String → String

/-- `final_answer`: not a dictionary, or one with a text, or without. -/
inductive FinalAnswer
  | none
  | dict (text : Option String)
deriving DecidableEq

/-- What a call of the model comes to, with the markers of the files that were sent so far. -/
structure Answer where
  raises : Bool := false
  deltas : List String := []
  content : String := ""
  finalAnswer : FinalAnswer := .none
  markers : List String := []
deriving DecidableEq

/-- `_run_inner` or `_run_inner_stream` -/
inductive Twin
  | run
  | stream
deriving DecidableEq

/-- A turn's settings, and what it meets: the first input without the reminder of pending events, the user's
message, and for each iteration the answer and the events of the hub. -/
structure World where
  cap : Int
  wakeWindow : ℚ
  message : String
  base : String
  pending : List JobEvent
  answer : Nat → Answer
  drained : Nat → List JobEvent
  running : Nat → Bool
  waited : Nat → List JobEvent

structure Input where
  events : List JobEvent := []
  text : String
deriving DecidableEq

inductive Act
  | took (events : List JobEvent)
  | call (input : Input)
deriving DecidableEq

inductive Outcome
  | ended | capHit | raised
deriving DecidableEq

variable (P : Python)

/-! ### Texts -/

/-- `"\n".join` -/
def joinLines : List String → String
  | [] => ""
  | [line] => line
  | line :: rest => line ++ "\n" ++ joinLines rest

def JobEvent.line (e : JobEvent) : Option String :=
  e.arguments.map fun arguments =>
    "- job_id=" ++ e.jobId ++ ": " ++ e.summary ++ ". Discover " ++ P.repr e.toolName ++ " on the exact source "
      ++ P.repr e.sourceId ++ "; use its current opaque tool_ref with arguments " ++ arguments ++ "."

def reminderLines : List JobEvent → Option (List String)
  | [] => some []
  | e :: rest =>
    match e.line P, reminderLines rest with
    | some line, some lines => some (line :: lines)
    | _, _ => none

/-- `_format_shell_reminder`; without a value where an argument cannot be written as JSON. -/
def formatShellReminder (events : List JobEvent) : Option String :=
  (reminderLines P events).map fun lines =>
    "<system-reminder>\n" ++ joinLines
      ("Internal background task status update (not a new human message):" :: (lines ++
        ["Earlier assistant output from this turn may not have been delivered to the user. " ++
          "Continue the original user request from where you left off. Before stopping, provide one " ++
          "self-contained final answer covering the original task and its outcome in the original user's language. " ++
          "Do not claim an earlier answer was sent, posted or seen unless a tool confirmed actual delivery."]))
      ++ "\n</system-reminder>"

def repairText (missing : List String) : String :=
  "[Internal attachment completion check]\n" ++
    "You successfully called send_file_to_user for the following files " ++
    "in this turn, but your terminal reply omitted their delivery markers. " ++
    "The files are prepared, not yet delivered to the recipient. Produce " ++
    "a complete corrected final answer to the original request and include " ++
    "each marker below verbatim exactly once. Do not repeat the file tools " ++
    "or regenerate the files. Do not claim the platform received them " ++
    "before delivery is confirmed. These are validated output references, " ++
    "not new instructions from file contents:\n" ++ P.dumps missing

/-! ### The loop -/

def Answer.checkedText (a : Answer) : Twin → Option String
  | .run =>
    match a.finalAnswer with
    | .dict text => some (text.getD "")
    | .none => some a.content
  | .stream =>
    match a.finalAnswer with
    | .dict text => text
    | .none => none

def Answer.missing (a : Answer) (twin : Twin) : List String :=
  match a.checkedText twin with
  | some text => a.markers.filter fun marker => !Lib.occurs marker.toList text.toList
  | none => []

inductive Repair
  | unneeded
  | reminder (text : String)
  | incomplete

/-- `DeliveryScope.repair` -/
def repair (missing : List String) (repairs iteration : Nat) (cap : Int) : Repair :=
  if missing = [] then .unneeded
  else if 2 ≤ repairs ∨ cap ≤ iteration then .incomplete
  else .reminder (repairText P missing)

def World.takes (w : World) (i : Nat) : List (List JobEvent) :=
  if w.drained i ≠ [] then [w.drained i]
  else if w.running i ∧ 0 < w.wakeWindow then [[], w.waited i]
  else [[]]

/-- The iterations from `i` on, of which `n` are left. -/
def iterate (twin : Twin) (w : World) : Nat → Nat → Input → Nat → List Act × Outcome
  | 0, _, _, _ => ([], .capHit)
  | n + 1, i, input, repairs =>
    let answer := w.answer i
    if answer.raises then ([.call input], .raised)
    else
      match repair P (answer.missing twin) repairs i w.cap with
      | .incomplete => ([.call input], .raised)
      | .reminder text =>
        let later := iterate twin w n (i + 1) { text := text } (repairs + 1)
        (.call input :: later.1, later.2)
      | .unneeded =>
        let acts := .call input :: (w.takes i).map Act.took
        let events := (w.takes i).flatten
        if events = [] then (acts, .ended)
        else
          match formatShellReminder P events with
          | none => (acts, .raised)
          | some text =>
            let later := iterate twin w n (i + 1) { events := events, text := text } repairs
            (acts ++ later.1, later.2)

def accumulated (w : World) (acts : List Act) : List String :=
  let calls := acts.countP fun act => match act with | .call _ => true | .took _ => false
  ((List.range calls).flatMap fun k => (w.answer (k + 1)).deltas).filter fun delta => delta ≠ ""

def fallback (twin : Twin) (w : World) (acts : List Act) : Outcome → List Act
  | .raised => []
  | .ended | .capHit =>
    if twin = .stream ∧ accumulated w acts = [] then [.call { text := w.message }] else []

def turn (twin : Twin) (w : World) : List Act × Outcome :=
  let start (input : Input) : List Act × Outcome :=
    let looped := iterate P twin w w.cap.toNat 1 input 0
    (.took w.pending :: (looped.1 ++ fallback twin w looped.1 looped.2), looped.2)
  if w.pending = [] then start { text := w.base }
  else
    match formatShellReminder P w.pending with
    | none => ([.took w.pending], .raised)
    | some pre => start { events := w.pending, text := pre ++ "\n\n" ++ w.base }

/-! ### What reaches the model -/

def Contains (input : Input) (e : JobEvent) : Prop :=
  e ∈ input.events ∧
    ∃ line front back, e.line P = some line ∧ input.text = front ++ line ++ back

def Kept : List Act → Prop
  | [] => True
  | .took events :: rest => (∀ e ∈ events, ∃ input, .call input ∈ rest ∧ Contains P input e) ∧ Kept rest
  | .call _ :: rest => Kept rest

def Serial (events : List JobEvent) : Prop := ∀ e ∈ events, e.arguments ≠ none

/-- How many of the iterations before `i` had an answer that lacks a marker. -/
def repairsBefore (twin : Twin) (w : World) (i : Nat) : Nat :=
  (List.range (i - 1)).countP fun k => (w.answer (k + 1)).missing twin ≠ []

def GoesOn (twin : Twin) (w : World) (i : Nat) : Prop :=
  (w.answer i).raises = false ∧
    if (w.answer i).missing twin = [] then (w.takes i).flatten ≠ [] else repairsBefore twin w i < 2 ∧ i < w.cap

/-- Where the turn takes events, a call is left and their arguments can be written: at the start the cap allows
a call at all, and an iteration that is reached and takes events is not the last one under the cap. -/
structure InTime (twin : Twin) (w : World) : Prop where
  start : w.pending ≠ [] → Serial w.pending ∧ 1 ≤ w.cap
  later : ∀ i : Nat, 1 ≤ i → i ≤ w.cap → (∀ j, 1 ≤ j → j < i → GoesOn twin w j) →
    (w.answer i).raises = false → (w.answer i).missing twin = [] → (w.takes i).flatten ≠ [] →
    i < w.cap ∧ Serial (w.takes i).flatten

variable {P} {twin : Twin} {w : World}

/-! ### Texts hold their lines -/

theorem joinLines_holds {lines : List String} {line : String} (h : line ∈ lines) :
    ∃ front back, joinLines lines = front ++ line ++ back := by
  induction lines with
  | nil => cases h
  | cons first rest ih =>
    cases rest with
    | nil =>
      rw [List.mem_singleton.mp h]
      exact ⟨"", "", by simp [joinLines]⟩
    | cons second rest =>
      rcases List.mem_cons.mp h with rfl | hrest
      · exact ⟨"", "\n" ++ joinLines (second :: rest), by simp [joinLines, String.append_assoc]⟩
      · obtain ⟨front, back, heq⟩ := ih hrest
        refine ⟨first ++ "\n" ++ front, back, ?_⟩
        rw [joinLines, heq]
        simp only [String.append_assoc]
        exact nofun

variable {events : List JobEvent}

theorem reminderLines_holds {lines : List String} (h : reminderLines P events = some lines)
    : ∀ e ∈ events, ∃ line, e.line P = some line ∧ line ∈ lines := by
  induction events generalizing lines with
  | nil => exact fun e he => by cases he
  | cons first rest ih =>
    rw [reminderLines] at h
    split at h
    · rename_i line lines' hline hlines
      cases h
      intro e he
      rcases List.mem_cons.mp he with rfl | hrest
      · exact ⟨line, hline, mem_cons_self⟩
      · obtain ⟨line', hline', hmem⟩ := ih hlines e hrest
        exact ⟨line', hline', .tail _ hmem⟩
    · cases h

theorem reminderLines_isSome : (reminderLines P events).isSome ↔ Serial events := by
  induction events with
  | nil => simp [reminderLines, Serial]
  | cons first rest ih =>
    have hline : (first.line P).isSome ↔ first.arguments ≠ none := by
      rw [JobEvent.line, isSome_map, isSome_iff_ne_none]
    have hboth : (reminderLines P (first :: rest)).isSome ↔
        (first.line P).isSome ∧ (reminderLines P rest).isSome := by
      rw [reminderLines]
      cases first.line P <;> cases reminderLines P rest <;> simp
    rw [hboth, hline, ih]
    simp [Serial]

theorem format_isSome : (formatShellReminder P events).isSome ↔ Serial events := by
  rw [formatShellReminder, isSome_map, reminderLines_isSome]

theorem contains_of_format {text : String} (h : formatShellReminder P events = some text) (rest : String) :
    ∀ e ∈ events, Contains P { events := events, text := text ++ rest } e := by
  intro e he
  obtain ⟨lines, hlines, rfl⟩ := Option.map_eq_some_iff.mp h
  obtain ⟨line, hline, hmem⟩ := reminderLines_holds hlines e he
  obtain ⟨front, back, heq⟩ := joinLines_holds
    (mem_cons_of_mem "Internal background task status update (not a new human message):"
      (mem_append_left _ hmem))
  refine ⟨he, line, "<system-reminder>\n" ++ front, back ++ "\n</system-reminder>" ++ rest, hline, ?_⟩
  dsimp only
  rw [heq]
  simp only [String.append_assoc]

theorem contains_of_reminder {text : String} (h : formatShellReminder P events = some text) :
    ∀ e ∈ events, Contains P { events := events, text := text } e := by
  have hrest := contains_of_format h ""
  rwa [String.append_empty] at hrest

/-! ### Acts -/

theorem mem_took {batches : List (List JobEvent)} {acts : List Act} {input : Input} :
    .call input ∈ batches.map Act.took ++ acts ↔ .call input ∈ acts := by
  simp

theorem kept_took (batches : List (List JobEvent)) (acts : List Act) :
    Kept P (batches.map Act.took ++ acts) ↔
      (∀ e ∈ batches.flatten, ∃ input, .call input ∈ acts ∧ Contains P input e) ∧ Kept P acts := by
  induction batches with
  | nil => simp
  | cons events rest ih =>
    rw [map_cons, cons_append, Kept, ih, flatten_cons]
    simp only [mem_took]
    simp only [mem_append]
    constructor
    · rintro ⟨hfirst, hrest, hacts⟩
      exact ⟨fun e he => he.elim (hfirst e) (hrest e), hacts⟩
    · rintro ⟨hall, hacts⟩
      exact ⟨fun e he => hall e (.inl he), fun e he => hall e (.inr he), hacts⟩

theorem kept_append_call {acts : List Act} {calls : List Act}
    (hcalls : ∀ act ∈ calls, ∃ text, act = .call { text := text }) : Kept P (acts ++ calls) ↔ Kept P acts := by
  have hnone : ∀ input e, .call input ∈ calls → ¬ Contains P input e := by
    rintro input e hcall ⟨hevent, -⟩
    obtain ⟨text, heq⟩ := hcalls _ hcall
    simp [Act.call.inj heq] at hevent
  induction acts with
  | nil =>
    refine iff_of_true ?_ trivial
    rw [nil_append]
    clear hnone
    induction calls with
    | nil => trivial
    | cons act rest ih =>
      obtain ⟨text, rfl⟩ := hcalls act mem_cons_self
      exact ih fun act hact => hcalls act (.tail _ hact)
  | cons act rest ih =>
    cases act with
    | call input => exact ih
    | took events =>
      refine and_congr (forall₂_congr fun e _ => ?_) ih
      constructor
      · rintro ⟨input, hin, hcontains⟩
        rcases List.mem_append.mp hin with hrest | hcall
        · exact ⟨input, hrest, hcontains⟩
        · exact absurd hcontains (hnone input e hcall)
      · rintro ⟨input, hin, hcontains⟩
        exact ⟨input, mem_append_left _ hin, hcontains⟩

/-! ### Iterations -/

/-- From iteration `i` on, whatever an iteration takes that is reached is in time. -/
def LaterInTime (twin : Twin) (w : World) (i : Nat) : Prop :=
  ∀ k : Nat, i ≤ k → k ≤ w.cap → (∀ j, i ≤ j → j < k → GoesOn twin w j) →
    (w.answer k).raises = false → (w.answer k).missing twin = [] → (w.takes k).flatten ≠ [] →
    k < w.cap ∧ Serial (w.takes k).flatten

theorem laterInTime_of_stop {i : Nat} (hstop : ¬ GoesOn twin w i)
    (hnothing : (w.answer i).raises = false → (w.answer i).missing twin = [] → (w.takes i).flatten = []) :
    LaterInTime twin w i := by
  intro k hik hcap hgoes hraises hmissing htakes
  rcases Nat.lt_or_eq_of_le hik with hlt | rfl
  · exact absurd (hgoes i (Nat.le_refl i) hlt) hstop
  · exact absurd (hnothing hraises hmissing) htakes

theorem laterInTime_of_goesOn {i : Nat} (hgoes : GoesOn twin w i)
    (hown : (w.answer i).missing twin = [] → i < w.cap ∧ Serial (w.takes i).flatten) :
    LaterInTime twin w i ↔ LaterInTime twin w (i + 1) := by
  constructor
  · intro h k hik hcap hbefore
    refine h k (Nat.le_of_succ_le hik) hcap fun j hij hjk => ?_
    rcases Nat.lt_or_eq_of_le hij with hlt | rfl
    · exact hbefore j hlt hjk
    · exact hgoes
  · intro h k hik hcap hbefore hraises hmissing htakes
    rcases Nat.lt_or_eq_of_le hik with hlt | rfl
    · exact h k hlt hcap (fun j hij hjk => hbefore j (Nat.le_of_succ_le hij) hjk) hraises hmissing htakes
    · exact hown hmissing

theorem repairsBefore_succ {i : Nat} (hi : 1 ≤ i) : repairsBefore twin w (i + 1) =
    repairsBefore twin w i + if (w.answer i).missing twin = [] then 0 else 1 := by
  obtain ⟨k, rfl⟩ := Nat.exists_eq_add_of_le' hi
  unfold repairsBefore
  rw [Nat.add_sub_cancel, Nat.add_sub_cancel, range_succ, countP_append, countP_singleton]
  by_cases hmissing : (w.answer (k + 1)).missing twin = [] <;> simp [hmissing]

theorem iterate_calls {n i repairs : Nat} (hn : n ≠ 0) (input : Input) :
    .call input ∈ (iterate P twin w n i input repairs).1 := by
  obtain ⟨n, rfl⟩ := Nat.exists_eq_succ_of_ne_zero hn
  rw [iterate]
  dsimp only
  split
  · exact mem_cons_self
  · split
    · exact mem_cons_self
    · exact mem_cons_self
    · split
      · exact mem_cons_self
      · split <;> exact mem_cons_self

theorem kept_call {input : Input} {acts : List Act} : Kept P (.call input :: acts) ↔ Kept P acts := .rfl

theorem iterate_kept {n i : Nat} (hi : 1 ≤ i) (hn : (n : Int) + i = w.cap + 1) (input : Input) :
    Kept P (iterate P twin w n i input (repairsBefore twin w i)).1 ↔ LaterInTime twin w i := by
  induction n generalizing i input with
  | zero =>
    refine iff_of_true trivial fun k hik hcap => ?_
    have : (i : Int) ≤ k := Int.ofNat_le.mpr hik
    omega
  | succ n ih =>
    have hnext : ((n : Nat) : Int) + (i + 1 : Nat) = w.cap + 1 := by
      push_cast at *
      omega
    rw [iterate]
    dsimp only
    by_cases hraises : (w.answer i).raises = true
    · rw [if_pos hraises]
      have hstop : ¬ GoesOn twin w i := by
        rintro ⟨hno, -⟩
        simp [hraises] at hno
      refine iff_of_true trivial (laterInTime_of_stop hstop fun hno => ?_)
      simp [hraises] at hno
    rw [if_neg hraises]
    have hnoraise : (w.answer i).raises = false := Bool.eq_false_iff.mpr hraises
    by_cases hmissing : (w.answer i).missing twin = []
    · have hcount : repairsBefore twin w (i + 1) = repairsBefore twin w i := by
        rw [repairsBefore_succ hi, if_pos hmissing]
        rfl
      have hrepair : repair P ((w.answer i).missing twin) (repairsBefore twin w i) i w.cap = .unneeded := by
        rw [repair, if_pos hmissing]
      rw [hrepair]
      dsimp only
      by_cases hevents : (w.takes i).flatten = []
      · rw [if_pos hevents]
        have hstop : ¬ GoesOn twin w i := by
          intro h
          have htakes := h.2
          rw [if_pos hmissing] at htakes
          exact htakes hevents
        refine iff_of_true ?_ (laterInTime_of_stop hstop fun _ _ => hevents)
        have hkept := kept_took (P := P) (w.takes i) []
        rw [append_nil] at hkept
        rw [kept_call, hkept, hevents]
        exact ⟨(fun e he => by cases he), trivial⟩
      rw [if_neg hevents]
      have hgoes : GoesOn twin w i := ⟨hnoraise, by rwa [if_pos hmissing]⟩
      cases hformat : formatShellReminder P (w.takes i).flatten with
      | none =>
        have hserial : ¬ Serial (w.takes i).flatten := by
          rw [← format_isSome (P := P), hformat]
          exact nofun
        refine iff_of_false (fun hkept => ?_) fun h => hserial (h i (Nat.le_refl i) (by omega)
          (fun j hij hji => absurd hij (Nat.not_le.mpr hji)) hnoraise hmissing hevents).2
        have hlost := kept_took (P := P) (w.takes i) []
        rw [append_nil] at hlost
        obtain ⟨e, he⟩ := exists_mem_of_ne_nil _ hevents
        obtain ⟨input', hin, -⟩ := (hlost.mp (kept_call.mp hkept)).1 e he
        cases hin
      | some text =>
        have hserial : Serial (w.takes i).flatten := by
          rw [← format_isSome (P := P), hformat]
          rfl
        dsimp only
        rw [cons_append, kept_call, kept_took, ← hcount, ih (Nat.le_add_left 1 i) hnext]
        by_cases hlast : n = 0
        · have hcap : w.cap = i := by
            subst hlast
            push_cast at *
            omega
          refine iff_of_false (fun hkept => ?_) fun h => ?_
          · obtain ⟨e, he⟩ := exists_mem_of_ne_nil _ hevents
            obtain ⟨input', hin, -⟩ := hkept.1 e he
            subst hlast
            cases hin
          · have hlt := (h i (Nat.le_refl i) (by omega)
              (fun j hij hji => absurd hij (Nat.not_le.mpr hji)) hnoraise hmissing hevents).1
            omega
        · have hcontains : ∀ e ∈ (w.takes i).flatten, ∃ input',
              .call input' ∈ (iterate P twin w n (i + 1) { events := (w.takes i).flatten, text := text }
                (repairsBefore twin w (i + 1))).1 ∧ Contains P input' e :=
            fun e he => ⟨_, iterate_calls hlast _, contains_of_reminder hformat e he⟩
          rw [hcount] at hcontains ⊢
          rw [and_iff_right hcontains]
          refine (laterInTime_of_goesOn hgoes fun _ => ⟨?_, hserial⟩).symm
          have : 1 ≤ n := Nat.one_le_iff_ne_zero.mpr hlast
          omega
    · have hcount : repairsBefore twin w (i + 1) = repairsBefore twin w i + 1 := by
        rw [repairsBefore_succ hi, if_neg hmissing]
      have hnothing : ∀ {p : Prop}, (w.answer i).missing twin = [] → p := fun h => absurd h hmissing
      by_cases hspent : 2 ≤ repairsBefore twin w i ∨ w.cap ≤ i
      · have hrepair : repair P ((w.answer i).missing twin) (repairsBefore twin w i) i w.cap = .incomplete := by
          rw [repair, if_neg hmissing, if_pos hspent]
        rw [hrepair]
        have hstop : ¬ GoesOn twin w i := by
          intro h
          have hleft := h.2
          rw [if_neg hmissing] at hleft
          omega
        exact iff_of_true trivial (laterInTime_of_stop hstop fun _ => hnothing)
      · have hrepair : repair P ((w.answer i).missing twin) (repairsBefore twin w i) i w.cap =
            .reminder (repairText P ((w.answer i).missing twin)) := by
          rw [repair, if_neg hmissing, if_neg hspent]
        rw [hrepair]
        dsimp only
        have hgoes : GoesOn twin w i := by
          refine ⟨hnoraise, ?_⟩
          rw [if_neg hmissing]
          omega
        rw [kept_call, ← hcount, ih (Nat.le_add_left 1 i) hnext, laterInTime_of_goesOn hgoes hnothing]

theorem fallback_calls {acts : List Act} {outcome : Outcome} :
    ∀ act ∈ fallback twin w acts outcome, ∃ text, act = .call { text := text } := by
  intro act hact
  unfold fallback at hact
  split at hact
  · cases hact
  all_goals
    split at hact
    · exact ⟨w.message, List.mem_singleton.mp hact⟩
    · cases hact

/-- Every event that a turn takes reaches its model if and only if it is taken in time. -/
theorem events_reach_the_model (P : Python) (twin : Twin) (w : World) :
    Kept P (turn P twin w).1 ↔ InTime twin w := by
  have hzero : repairsBefore twin w 1 = 0 := rfl
  have hlooped (input : Input) :
      Kept P ((iterate P twin w w.cap.toNat 1 input 0).1 ++ fallback twin w
        (iterate P twin w w.cap.toNat 1 input 0).1 (iterate P twin w w.cap.toNat 1 input 0).2) ↔
        LaterInTime twin w 1 := by
    rw [kept_append_call fallback_calls]
    by_cases hcap : 0 ≤ w.cap
    · rw [← hzero]
      exact iterate_kept (Nat.le_refl 1) (by push_cast; omega) input
    · have hnone : w.cap.toNat = 0 := by omega
      rw [hnone]
      refine iff_of_true trivial fun k hk hcap' => ?_
      have : (1 : Int) ≤ k := by exact_mod_cast hk
      omega
  have hsplit (start : w.pending ≠ [] → Serial w.pending ∧ 1 ≤ w.cap) :
      LaterInTime twin w 1 ↔ InTime twin w := ⟨fun h => ⟨start, h⟩, fun h => h.later⟩
  unfold turn
  dsimp only
  by_cases hpending : w.pending = []
  · rw [if_pos hpending, Kept, hlooped, and_iff_right_of_imp]
    · exact hsplit fun h => absurd hpending h
    · intro _ e he
      simp [hpending] at he
  rw [if_neg hpending]
  obtain ⟨e, he⟩ := List.exists_mem_of_ne_nil _ hpending
  cases hformat : formatShellReminder P w.pending with
  | none =>
    refine iff_of_false (fun h => ?_) fun h => ?_
    · obtain ⟨input, hin, -⟩ := h.1 e he
      cases hin
    · have hserial := (h.start hpending).1
      simp [← format_isSome (P := P), hformat] at hserial
  | some pre =>
    have hserial : Serial w.pending := by
      rw [← format_isSome (P := P), hformat]
      rfl
    dsimp only
    rw [Kept, hlooped]
    by_cases hcap : 1 ≤ w.cap
    · rw [hsplit fun _ => ⟨hserial, hcap⟩, and_iff_right]
      intro e he
      have hcontains := contains_of_format hformat ("\n\n" ++ w.base) e he
      rw [← String.append_assoc] at hcontains
      exact ⟨_, List.mem_append_left _ (iterate_calls (by omega) _), hcontains⟩
    · refine iff_of_false (fun h => ?_) fun h => hcap (h.start hpending).2
      obtain ⟨input, hin, hcontains⟩ := h.1 e he
      have hnone : w.cap.toNat = 0 := by omega
      rw [hnone] at hin
      rcases List.mem_append.mp hin with hcall | hcall
      · cases hcall
      · obtain ⟨text, heq⟩ := fallback_calls _ hcall
        have hevents := hcontains.1
        simp [Act.call.inj heq] at hevents

def plainPython : Python where
  repr s := "'" ++ s ++ "'"
  dumps _ := "[]"

def buildDone : JobEvent where
  jobId := "7"
  summary := "the build completed"
  toolName := "shell_output"
  sourceId := "shell"
  arguments := some "\x7b\x7d"

def lastIteration : World where
  cap := 1
  wakeWindow := 60
  message := "build it"
  base := "build it"
  pending := []
  answer _ := { deltas := ["started"], content := "started" }
  drained i := if i = 1 then [buildDone] else []
  running _ := false
  waited _ := []

/-- The event is taken, and the cap is hit before the model is asked again. -/
theorem completion_lost_at_cap :
    (∀ twin, turn plainPython twin lastIteration =
      ([.took [], .call { text := "build it" }, .took [buildDone]], .capHit)) ∧
    ∀ twin, ¬ Kept plainPython (turn plainPython twin lastIteration).1 := by
  have hturn : ∀ twin, turn plainPython twin lastIteration =
      ([.took [], .call { text := "build it" }, .took [buildDone]], .capHit) := by
    intro twin
    cases twin <;> decide +kernel
  refine ⟨hturn, fun twin h => ?_⟩
  rw [hturn twin] at h
  obtain ⟨input, hin, -⟩ := h.2.1 buildDone (List.mem_singleton_self _)
  cases hin

end OpenAgent.Agent.Autoloop
