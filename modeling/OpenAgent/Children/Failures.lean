import OpenAgent.Children.Turns

/-!
# Failures of child sessions

What a task does to the marker is a list of writes, and only the last one counts. A child under a chain cap
is bracketed by two clears, so it hides what its parent's turn had marked before; a child without one leaves
its own writes to its parent, and is never reported as failed itself.
-/

namespace OpenAgent.Children

open Lib

inductive Write
  | mark | clear
deriving DecidableEq

/-- What `_run` writes to the marker, if the child's turn makes these writes in its task. -/
def Call.runWrites (call : Call) (turn : Turn) (writes : List Write) : List Write :=
  match call.mode with
  | .streamed | .plain => writes
  | .publicRun false => []
  | .publicRun true => if turn.ending.isAnswer && writes.getLast? != some .mark then [] else [.mark]

def Call.returns (call : Call) (turn : Turn) : Bool :=
  match call.mode with
  | .streamed | .plain => turn.ending.text.isSome
  | .publicRun accepted => accepted

/-- What `run_child_session` writes to the marker. -/
def Call.writes (limit : Int) (call : Call) (turn : Turn) (writes : List Write) : List Write :=
  if call.capped limit then
    [.clear] ++ call.runWrites turn writes ++ (if call.returns turn then [.clear] else [])
  else call.runWrites turn writes

def Turn.writes (limit : Int) : Turn → List Write
  | .ends _ (.died _) => [.mark]
  | .ends _ _ => []
  | .mark sameTask _ rest => (if sameTask then [.mark] else []) ++ rest.writes limit
  | .spawn sameTask call child rest =>
    (if sameTask then call.writes limit child (child.writes limit) else []) ++ rest.writes limit

def Turn.leavesMark (limit : Int) (turn : Turn) : Prop := (turn.writes limit).getLast? = some .mark

def Call.Reports (limit : Int) (call : Call) (turn : Turn) : Prop :=
  call.capped limit = true ∧ (turn.ending.isAnswer = false ∨ turn.leavesMark limit)

/-- A failed turn has the chain cap on it. If it comes to an answer, its last write to the marker is a mark
exactly if it marked itself. -/
def Call.Faithful (limit : Int) (call : Call) (turn : Turn) : Prop :=
  (turn.failed = true → call.capped limit = true) ∧
    (call.capped limit = true → turn.ending.isAnswer = true → (turn.leavesMark limit ↔ turn.failed = true))

/-- Who awaits a child: any caller, the delivery of an event, or an `ai-prompt` block. -/
inductive Consumer
  | caller
  | event (config : Deliveries.Config) (L : LowerCase) (row : Deliveries.Delivery) (now : Int)
  | node (strip : String → String) (cfg : AiPromptConfig)

def Consumer.spawns : Consumer → Bool
  | .caller | .event .. => true
  | .node _ cfg => decide (cfg.prompt ≠ "") && cfg.authorized

def Consumer.isNode : Consumer → Bool
  | .node .. => true
  | .caller | .event .. => false

def Consumer.Succeeds (result : ChildSessionResult) : Consumer → Prop
  | .caller => False
  | .event config L row now =>
    (row.update ((Deliveries.Outcome.returned (dispatchPrompt config L result)).update config now)).status
      = .success
  | .node strip cfg => (runNode (hAiPrompt strip cfg fun _ => some result)).status = .success

/-- `failed` is set exactly for a turn that was marked as failed, and whoever awaits a child that has it
set is not recorded as successful. -/
def Consumer.Told (consumer : Consumer) (limit : Int) (call : Call) (turn : Turn)
    (marker : Option String) : Prop :=
  consumer.spawns = true → ∀ result, runChildSession limit call turn marker = some result →
    (result.failed = true ↔ turn.failed = true) ∧ (result.failed = true → ¬ consumer.Succeeds result)

/-! ### Marks -/

theorem clip_ne_empty {n : Nat} {text : String} (hn : 0 < n) (h : text ≠ "") : clip n text ≠ "" := by
  intro hclip
  have hnil : text.toList.take n = [] := by
    have := congrArg String.toList hclip
    simpa [clip] using this
  rcases List.take_eq_nil_iff.mp hnil with hzero | hempty
  · omega
  · exact h (String.toList_eq_nil_iff.mp hempty)

theorem markRunFailure_ne_empty (detail : String) : markRunFailure detail ≠ "" := by
  apply clip_ne_empty (by omega)
  split
  · decide
  · assumption

theorem TurnError.mark_ne_empty (e : TurnError) : e.mark ≠ "" := by
  apply clip_ne_empty (by omega)
  intro h
  have := congrArg String.toList h
  simp at this

/-! ### The marker after some writes -/

/-- What the marker `m` becomes by these writes. -/
def Left (writes : List Write) (m m' : Option String) : Prop :=
  match writes.getLast? with
  | none => m' = m
  | some .mark => ∃ detail, detail ≠ "" ∧ m' = some detail
  | some .clear => m' = none

theorem Left.refl (m : Option String) : Left [] m m := rfl

theorem Left.mark {m : Option String} {detail : String} (h : detail ≠ "") :
    Left [.mark] m (some detail) := ⟨detail, h, rfl⟩

theorem Left.clear (m : Option String) : Left [.clear] m none := rfl

theorem Left.append {writes more : List Write} {m m' m'' : Option String} (h : Left writes m m')
    (hmore : Left more m' m'') : Left (writes ++ more) m m'' := by
  unfold Left at *
  rw [List.getLast?_append]
  cases hlast : more.getLast? with
  | none =>
    rw [hlast] at hmore
    rw [hmore]
    exact h
  | some write =>
    rw [hlast] at hmore
    cases write <;> exact hmore

theorem Left.isSome {writes : List Write} {m' : Option String} (h : Left writes none m') :
    m'.isSome = true ↔ writes.getLast? = some .mark := by
  unfold Left at h
  cases hlast : writes.getLast? with
  | none => simp_all
  | some write =>
    rw [hlast] at h
    cases write with
    | mark =>
      obtain ⟨detail, -, rfl⟩ := h
      simp
    | clear => simp [h]

theorem Left.getD_eq {writes : List Write} {m' : Option String} (h : Left writes none m') :
    m'.getD "" = "" ↔ ¬ writes.getLast? = some .mark := by
  unfold Left at h
  cases hlast : writes.getLast? with
  | none => simp_all
  | some write =>
    rw [hlast] at h
    cases write with
    | mark =>
      obtain ⟨detail, hdetail, rfl⟩ := h
      simpa using hdetail
    | clear => simp [h]

/-! ### One child -/

variable {limit : Int} {call : Call} {turn : Turn} {writes : List Write}
  {after : Option String → Option String}

theorem Turn.execute_status (turn : Turn) {m : Option String} (h : Left writes none m) :
    (turn.execute m).status = "success" ↔
      turn.ending.isAnswer = true ∧ ¬ writes.getLast? = some .mark := by
  unfold Turn.execute
  cases turn.ending with
  | answered text =>
    by_cases hm : m.getD "" = ""
    · simp [hm, Ending.isAnswer, h.getD_eq.mp hm]
    · have hmark := not_not.mp (mt h.getD_eq.mpr hm)
      simp [hm, Ending.isAnswer, hmark]
  | died | raised | cancelled => simp [Ending.isAnswer]

theorem Call.run_left (call : Call) (turn : Turn) (h : ∀ m, Left writes m (after m)) (m : Option String) :
    Left (call.runWrites turn writes) m (call.run turn after m).2 := by
  unfold Call.runWrites Call.run
  cases call.mode with
  | streamed | plain => exact h m
  | publicRun accepted =>
    cases accepted with
    | false => exact Left.refl m
    | true =>
      have hstatus := turn.execute_status (h none)
      by_cases hok : (turn.execute (after none)).status = "success"
      · obtain ⟨hanswer, hlast⟩ := hstatus.mp hok
        simp [hok, hanswer, hlast, Left.refl]
      · have hnot : ¬ (turn.ending.isAnswer && writes.getLast? != some .mark) = true := by
          intro hcond
          exact hok (hstatus.mpr (by simpa using hcond))
        simp only [hnot, ne_eq, hok, not_false_eq_true, if_true]
        exact Left.mark (markRunFailure_ne_empty _)

theorem Call.run_returns (call : Call) (turn : Turn) (after : Option String → Option String)
    (m : Option String) : (call.run turn after m).1.isSome = call.returns turn := by
  unfold Call.run Call.returns
  cases call.mode with
  | streamed => simp [Turn.streamedText]
  | plain => rfl
  | publicRun accepted => cases accepted <;> rfl

theorem Call.perform_left (h : ∀ m, Left writes m (after m)) (m : Option String) :
    Left (call.writes limit turn writes) m (call.perform limit turn after m).2 := by
  have hrun := call.run_left turn h
  unfold Call.writes Call.perform
  by_cases hcap : call.capped limit = true
  · rw [if_pos hcap, if_pos hcap]
    have hreturns := call.run_returns turn after none
    have hbegun := (Left.clear m).append (hrun none)
    cases hresult : call.run turn after none with
    | mk text marker =>
      rw [hresult] at hreturns hbegun
      cases text with
      | some text =>
        rw [← hreturns]
        exact hbegun.append (Left.clear marker)
      | none =>
        rw [← hreturns]
        simpa using hbegun
  · rw [if_neg hcap, if_neg hcap]
    have hdone := hrun m
    cases hresult : call.run turn after m with
    | mk text marker =>
      rw [hresult] at hdone
      cases text <;> exact hdone

theorem Turn.after_left (turn : Turn) (limit : Int) (m : Option String) :
    Left (turn.writes limit) m (turn.after limit m) := by
  induction turn generalizing m with
  | ends deltas ending =>
    cases ending with
    | died e => exact Left.mark e.mark_ne_empty
    | answered | raised | cancelled => exact Left.refl m
  | mark sameTask detail rest ih =>
    cases sameTask with
    | true => exact (Left.mark (markRunFailure_ne_empty detail)).append (ih _)
    | false => exact ih m
  | spawn sameTask call child rest ihchild ih =>
    cases sameTask with
    | true => exact (Call.perform_left ihchild m).append (ih _)
    | false => exact ih m

/-! ### What a result says -/

theorem Turn.failed_of_not_answer (h : turn.ending.isAnswer = false) : turn.failed = true := by
  induction turn with
  | ends deltas ending => simpa [Turn.failed, Turn.ending] using h
  | mark => rfl
  | spawn sameTask call child rest _ ih => exact ih h

theorem Turn.leavesMark_of_died {e : TurnError} (h : turn.ending = .died e) : turn.leavesMark limit := by
  unfold Turn.leavesMark
  induction turn with
  | ends deltas ending =>
    obtain rfl : ending = .died e := h
    rfl
  | mark sameTask detail rest ih =>
    rw [Turn.writes, List.getLast?_append, ih h]
    rfl
  | spawn sameTask call child rest _ ih =>
    rw [Turn.writes, List.getLast?_append, ih h]
    rfl

theorem Call.runWrites_last (h : call.returns turn = true) :
    (call.runWrites turn (turn.writes limit)).getLast? = some .mark ↔
      turn.ending.isAnswer = false ∨ turn.leavesMark limit := by
  unfold Call.runWrites Call.returns at *
  cases hmode : call.mode with
  | streamed | plain =>
    rw [hmode] at h
    constructor
    · exact Or.inr
    · intro hor
      rcases hor with hnone | hleft
      · cases hending : turn.ending with
        | answered text => simp [hending, Ending.isAnswer] at hnone
        | died e => exact Turn.leavesMark_of_died hending
        | raised | cancelled => simp [hending, Ending.text] at h
      · exact hleft
  | publicRun accepted =>
    rw [hmode] at h
    obtain rfl : accepted = true := h
    simp only [Turn.leavesMark]
    by_cases hlast : (turn.writes limit).getLast? = some .mark
    · simp [hlast]
    · by_cases hanswer : turn.ending.isAnswer = true
      · simp [hlast, hanswer]
      · simp [hanswer]

variable {result : ChildSessionResult}

/-- A result has `failed` set exactly if the chain cap applies and the turn reports its failure by it. -/
theorem runChildSession_spec {marker : Option String}
    (h : runChildSession limit call turn marker = some result) :
    call.returns turn = true ∧ (result.failed = true ↔ call.Reports limit turn) := by
  unfold runChildSession Call.perform at h
  unfold Call.Reports
  by_cases hcap : call.capped limit = true
  · rw [if_pos hcap] at h
    have hreturns := call.run_returns turn (turn.after limit) none
    have hleft := call.run_left turn (fun m => turn.after_left limit m) none
    cases hrun : call.run turn (turn.after limit) none with
    | mk text failure =>
      rw [hrun] at h hreturns hleft
      cases text with
      | none => cases h
      | some text =>
        cases h
        refine ⟨hreturns.symm, ?_⟩
        rw [hleft.isSome, Call.runWrites_last hreturns.symm]
        simp [hcap]
  · rw [if_neg hcap] at h
    have hreturns := call.run_returns turn (turn.after limit) marker
    cases hrun : call.run turn (turn.after limit) marker with
    | mk text failure =>
      rw [hrun] at h hreturns
      cases text with
      | none => cases h
      | some text =>
        cases h
        exact ⟨hreturns.symm, by simp [hcap]⟩

theorem runChildSession_exists (marker : Option String) (h : call.returns turn = true) :
    ∃ result, runChildSession limit call turn marker = some result := by
  unfold runChildSession Call.perform
  split
  · have hreturns := call.run_returns turn (turn.after limit) none
    cases hrun : call.run turn (turn.after limit) none with
    | mk text failure =>
      rw [hrun, h] at hreturns
      obtain ⟨text, rfl⟩ := Option.isSome_iff_exists.mp hreturns
      exact ⟨_, rfl⟩
  · have hreturns := call.run_returns turn (turn.after limit) marker
    cases hrun : call.run turn (turn.after limit) marker with
    | mk text failure =>
      rw [hrun, h] at hreturns
      obtain ⟨text, rfl⟩ := Option.isSome_iff_exists.mp hreturns
      exact ⟨_, rfl⟩

theorem Call.reports_iff : (call.Reports limit turn ↔ turn.failed = true) ↔ call.Faithful limit turn := by
  unfold Call.Reports Call.Faithful
  cases hcap : call.capped limit with
  | false => simp
  | true =>
    cases hanswer : turn.ending.isAnswer with
    | true => simp
    | false => simp [Turn.failed_of_not_answer hanswer]

/-! ### Who awaits a child that failed -/

/-- A delivery never takes a child that has `failed` set for a success. -/
theorem event_not_success (config : Deliveries.Config) (L : LowerCase) (row : Deliveries.Delivery)
    (now : Int) (h : result.failed = true) :
    ¬ (Consumer.event config L row now).Succeeds result := by
  simp only [Consumer.Succeeds, dispatchPrompt, h, if_true]
  exact nofun

theorem node_success {strip : String → String} {cfg : AiPromptConfig}
    (h : (Consumer.node strip cfg).spawns = true) (result : ChildSessionResult) :
    (Consumer.node strip cfg).Succeeds result := by
  simp only [Consumer.spawns, Bool.and_eq_true, decide_eq_true_eq] at h
  simp [Consumer.Succeeds, hAiPrompt, h.1, h.2, runNode]

theorem Consumer.not_succeeds_iff {consumer : Consumer} (hspawns : consumer.spawns = true)
    (h : result.failed = true) :
    ¬ consumer.Succeeds result ↔ consumer.isNode = false := by
  cases consumer with
  | caller => exact ⟨fun _ => rfl, fun _ => id⟩
  | event config L row now => exact ⟨fun _ => rfl, fun _ => event_not_success config L row now h⟩
  | node strip cfg =>
    constructor
    · exact fun hnot => absurd (node_success hspawns result) hnot
    · exact nofun

/-- For every spawn, whatever its turn does and whatever the marker was before, what is told about the child
is right exactly if the call is faithful to the turn, and no block awaits a child that is reported as
failed. Only a call that returns tells anything. -/
theorem told_iff (consumer : Consumer) (limit : Int) (call : Call) (turn : Turn)
    (marker : Option String) : consumer.Told limit call turn marker ↔
      (consumer.spawns = true → call.returns turn = true → call.Faithful limit turn ∧
        (consumer.isNode = true → ¬ call.Reports limit turn)) := by
  unfold Consumer.Told
  refine imp_congr_right fun hspawns => ?_
  constructor
  · intro htold hreturns
    obtain ⟨result, hresult⟩ := runChildSession_exists marker hreturns
    have hspec := (runChildSession_spec hresult).2
    obtain ⟨hright, hawaits⟩ := htold result hresult
    refine ⟨Call.reports_iff.mp (hspec.symm.trans hright), fun hnode hreports => ?_⟩
    have hset := hspec.mpr hreports
    have hother := (Consumer.not_succeeds_iff hspawns hset).mp (hawaits hset)
    simp [hnode] at hother
  · intro hcond result hresult
    obtain ⟨hreturns, hspec⟩ := runChildSession_spec hresult
    obtain ⟨hfaithful, hnode⟩ := hcond hreturns
    refine ⟨hspec.trans (Call.reports_iff.mpr hfaithful), fun hset => ?_⟩
    rw [Consumer.not_succeeds_iff hspawns hset]
    exact Bool.eq_false_iff.mpr fun hisNode => hnode hisNode (hspec.mp hset)

/-- A child that dies is reported as one that answered if no chain cap applies, or if it marked itself and
then ran another child; a block that awaits it succeeds even if it is reported. -/
theorem failures_hidden :
    ¬ Consumer.caller.Told 0 ⟨some "chat", .plain⟩
      (.ends [] (.died ⟨"RuntimeError", "No available accounts.", "RuntimeError()", false⟩)) none ∧
    ¬ Consumer.caller.Told 8 ⟨some "chat", .streamed⟩
      (.mark true "router: no_enabled_model"
        (.spawn true ⟨some "chat", .plain⟩ (.ends [] (.answered "done")) (.ends [] (.answered "sorry")))) none ∧
    ¬ (Consumer.node id ⟨"Summarise", none, true⟩).Told 8 ⟨some "run", .streamed⟩
      (.ends [] (.died ⟨"RuntimeError", "No available accounts.", "RuntimeError()", false⟩)) none := by
  refine ⟨fun h => ?_, fun h => ?_, fun h => ?_⟩
  · exact absurd ((h rfl _ rfl).1.mpr rfl) (by decide)
  · exact absurd ((h rfl _ rfl).1.mpr rfl) (by decide)
  · exact (h rfl _ rfl).2 rfl rfl

end OpenAgent.Children
