import Mathlib.Data.List.Nodup
import Mathlib.Data.List.Sort
import OpenAgent.Budget.Guard

/-!
# Alerts on budget thresholds

A refresh evaluates the enabled rules one by one and emits an alert for each threshold that a rule has reached.
What a rule has emitted in a window is remembered under the window's start, and forgotten by the first refresh
whose snapshot has no evaluation of the rule in a window that starts there.
-/

namespace OpenAgent.Budget

open List

/-- A row of `budgets`; of its thresholds, one that is no number is `none`. -/
structure Rule where
  id : String
  scopeKind : String
  scopeValue : String
  metric : String
  window : String
  amount : Rat
  alertThresholds : List (Option Rat)

/-- What a refresh meets: the enabled rules, whose ids are the table's primary key, unless listing them fails; the
bounds of the window kinds at its time; and each rule's spend, unless measuring it fails. -/
structure Refresh where
  rules : Option (List Rule)
  bounds : String → Int × Int
  spend : Rule → Option Rat
  distinct : ∀ rows, rules = some rows → (rows.map (·.id)).Nodup

/-- `_evaluate`; also `none` where it raises, since the refresh goes on to the next rule either way. -/
def evaluate (bounds : String → Int × Int) (spend : Rule → Option Rat) (rule : Rule) : Option RuleState := do
  let kind ← ScopeKind.read rule.scopeKind.toList
  if rule.window ∈ ["hour", "day", "month"] ∧ rule.metric ∈ ["cost_usd", "tokens"] ∧ 0 < rule.amount then
    let spent ← spend rule
    let thresholds ← rule.alertThresholds.mapM id
    some {
      ruleId := rule.id
      scope := ⟨kind, rule.scopeValue⟩
      thresholds := thresholds.filter fun t => decide (0 < t ∧ t < 1)
      windowStart := (bounds rule.window).1
      windowEnd := (bounds rule.window).2
      ratio := spent / rule.amount
      isOver := decide (rule.amount ≤ spent) }
  else none

/-- The rules' evaluations at a refresh that could list them. -/
def Refresh.states (r : Refresh) (rows : List Rule) : List RuleState :=
  rows.filterMap (evaluate r.bounds r.spend)

/-- An alert of a rule: the window it is about and the threshold. -/
structure Alert where
  ruleId : String
  windowStart : Int
  windowEnd : Int
  threshold : Rat
  deriving DecidableEq

/-- The guard's snapshot, its `_alerts_fired`, and the alerts emitted so far, the last one first. -/
structure Guard where
  snapshot : List RuleState
  fired : String → Int → List Rat
  alerts : List Alert

def Guard.init : Guard := ⟨[], fun _ _ => [], []⟩

/-- The thresholds of an evaluation in their order: its rule's and the cap. -/
def RuleState.steps (st : RuleState) : List Rat := (1 :: st.thresholds).dedup.insertionSort (· ≤ ·)

def RuleState.reached (st : RuleState) (t : Rat) : Bool := decide (t ≤ st.ratio + 1 / 1000000000)

def RuleState.alert (st : RuleState) (t : Rat) : Alert := ⟨st.ruleId, st.windowStart, st.windowEnd, t⟩

/-- One turn of the loop of `_maybe_fire_alerts`. -/
def Guard.fireOne (st : RuleState) (g : Guard) (t : Rat) : Guard :=
  if st.reached t ∧ t ∉ g.fired st.ruleId st.windowStart then
    { g with
      fired := fun id start =>
        if id = st.ruleId ∧ start = st.windowStart then t :: g.fired id start else g.fired id start
      alerts := st.alert t :: g.alerts }
  else g

/-- `_maybe_fire_alerts` -/
def Guard.maybeFireAlerts (g : Guard) (st : RuleState) : Guard := st.steps.foldl (Guard.fireOne st) g

/-- `_prune_alert_state`: a rule keeps what it has fired in the window of its last row in the snapshot. -/
def Guard.pruneAlertState (g : Guard) (snapshot : List RuleState) : Guard :=
  { g with
    fired := fun id start =>
      if (snapshot.reverse.find? (·.ruleId = id)).map (·.windowStart) = some start then g.fired id start else [] }

/-- `refresh` -/
def Guard.refresh (g : Guard) (r : Refresh) : Guard :=
  match r.rules with
  | none => g
  | some rows =>
    let states := r.states rows
    { states.foldl Guard.maybeFireAlerts g with snapshot := states }.pruneAlertState states

/-- The guard after some refreshes, the last one first. -/
def Guard.after : List Refresh → Guard
  | [] => .init
  | r :: passes => (Guard.after passes).refresh r

/-! ### What the alerts are about -/

/-- A refresh finds a threshold of a rule's window reached. -/
def Refresh.Reaches (r : Refresh) (a : Alert) : Prop :=
  ∃ rows, r.rules = some rows ∧ ∃ st ∈ r.states rows, ∃ t ∈ st.steps, st.reached t = true ∧ st.alert t = a

/-- A refresh has no evaluation of the rule in a window that starts there. -/
def Refresh.Misses (r : Refresh) (id : String) (start : Int) : Prop :=
  ∃ rows, r.rules = some rows ∧ ∀ st ∈ r.states rows, st.ruleId = id → st.windowStart ≠ start

/-- Since the rule was last evaluated in no window that starts there, a refresh found the threshold reached. -/
def Remembered (id : String) (start : Int) (t : Rat) : List Refresh → Prop
  | [] => False
  | r :: passes =>
    (∃ finish, r.Reaches ⟨id, start, finish, t⟩) ∨ ¬ r.Misses id start ∧ Remembered id start t passes

/-- No alert was emitted twice, and one was for whatever some refresh found reached. -/
structure Once (passes : List Refresh) : Prop where
  nodup : (Guard.after passes).alerts.Nodup
  emitted : ∀ r ∈ passes, ∀ a, r.Reaches a → a ∈ (Guard.after passes).alerts

/-- From one guard to the other, the alerts that were found are remembered, and those not remembered before are
emitted. -/
structure Fires (g g' : Guard) (found : Alert → Prop) : Prop where
  fired : ∀ id start t, t ∈ g'.fired id start ↔ t ∈ g.fired id start ∨ ∃ finish, found ⟨id, start, finish, t⟩
  alerts : ∃ news, g'.alerts = news ++ g.alerts ∧ news.Nodup ∧
    ∀ a, a ∈ news ↔ found a ∧ a.threshold ∉ g.fired a.ruleId a.windowStart

variable {g g' g'' : Guard} {found later : Alert → Prop}

theorem Fires.none (hfound : ∀ a, ¬ found a) : Fires g g found where
  fired id start t := by simp [hfound]
  alerts := ⟨[], by simp [hfound]⟩

theorem Fires.fireOne (st : RuleState) (t : Rat) :
    Fires g (g.fireOne st t) fun a => st.reached t = true ∧ st.alert t = a := by
  unfold Guard.fireOne
  split
  · rename_i hnew
    constructor
    · intro id start u
      dsimp only
      split
      · rename_i hkey
        simp only [mem_cons, RuleState.alert, Alert.mk.injEq, hnew.1, true_and, hkey, exists_eq_left', or_comm,
          eq_comm (a := u)]
      · rename_i hkey
        have hother : ∀ finish, st.alert t ≠ ⟨id, start, finish, u⟩ := by
          rintro finish halert
          cases halert
          exact hkey ⟨rfl, rfl⟩
        simp [hother]
    · refine ⟨[st.alert t], rfl, nodup_singleton _, fun a => ?_⟩
      rw [mem_singleton]
      constructor
      · rintro rfl
        exact ⟨⟨hnew.1, rfl⟩, hnew.2⟩
      · exact fun h => h.1.2.symm
  · rename_i hold
    constructor
    · intro id start u
      refine ⟨.inl, fun h => h.elim (fun h => h) ?_⟩
      rintro ⟨finish, hreached, halert⟩
      cases halert
      exact not_not.mp fun hfired => hold ⟨hreached, hfired⟩
    · refine ⟨[], rfl, nodup_nil, fun a => ⟨fun h => absurd h not_mem_nil, ?_⟩⟩
      rintro ⟨⟨hreached, rfl⟩, hfired⟩
      exact absurd ⟨hreached, hfired⟩ hold

/-- Finding things one after the other is finding them all, as long as what is found twice is the same alert. -/
theorem Fires.trans (hfirst : Fires g g' found) (hthen : Fires g' g'' later)
    (hsame : ∀ id start t finish finish', found ⟨id, start, finish, t⟩ → later ⟨id, start, finish', t⟩ →
      finish = finish') : Fires g g'' fun a => found a ∨ later a := by
  constructor
  · intro id start t
    rw [hthen.fired, hfirst.fired, or_assoc, exists_or]
  · obtain ⟨news, hnews, hnodup, hmem⟩ := hfirst.alerts
    obtain ⟨news', hnews', hnodup', hmem'⟩ := hthen.alerts
    refine ⟨news' ++ news, by rw [hnews', hnews, append_assoc], ?_, fun a => ?_⟩
    · refine List.Nodup.append hnodup' hnodup fun a hlater hfirst' => ?_
      refine ((hmem' a).mp hlater).2 ((hfirst.fired _ _ _).mpr (.inr ⟨a.windowEnd, ?_⟩))
      exact ((hmem a).mp hfirst').1
    · rw [mem_append, hmem, hmem', hfirst.fired, not_or]
      constructor
      · rintro (⟨hlater, hfired, -⟩ | ⟨hfound, hfired⟩)
        · exact ⟨.inr hlater, hfired⟩
        · exact ⟨.inl hfound, hfired⟩
      · rintro ⟨hfound | hlater, hfired⟩
        · exact .inr ⟨hfound, hfired⟩
        · by_cases hbefore : ∃ finish, found ⟨a.ruleId, a.windowStart, finish, a.threshold⟩
          · obtain ⟨finish, hfound⟩ := hbefore
            obtain rfl := hsame _ _ _ _ _ hfound hlater
            exact .inr ⟨hfound, hfired⟩
          · exact .inl ⟨hlater, hfired, hbefore⟩

/-- A loop finds what its turns find. -/
theorem Fires.foldl {β : Type} {step : Guard → β → Guard} {finds : β → Alert → Prop}
    (hstep : ∀ g b, Fires g (step g b) (finds b)) (bs : List β)
    (hsame : ∀ b ∈ bs, ∀ b' ∈ bs, ∀ id start t finish finish', finds b ⟨id, start, finish, t⟩ →
      finds b' ⟨id, start, finish', t⟩ → finish = finish') (g : Guard) :
    Fires g (bs.foldl step g) fun a => ∃ b ∈ bs, finds b a := by
  induction bs generalizing g with
  | nil => exact .none (by simp)
  | cons b bs ih =>
    have hrest := ih (fun b hb b' hb' => hsame b (.tail _ hb) b' (.tail _ hb')) (step g b)
    have hall := (hstep g b).trans hrest fun id start t finish finish' hfound ⟨b', hb', hlater⟩ =>
      hsame b mem_cons_self b' (.tail _ hb') id start t finish finish' hfound hlater
    simpa only [foldl_cons, exists_mem_cons_iff] using hall

theorem Fires.maybeFireAlerts (st : RuleState) :
    Fires g (g.maybeFireAlerts st) fun a => ∃ t ∈ st.steps, st.reached t = true ∧ st.alert t = a := by
  apply Fires.foldl (fun g t => Fires.fireOne st t)
  rintro t - u - id start v finish finish' ⟨-, halert⟩ ⟨-, halert'⟩
  exact (congrArg Alert.windowEnd halert).symm.trans (congrArg Alert.windowEnd halert')

theorem evaluate_ruleId {bounds : String → Int × Int} {spend : Rule → Option Rat} {rule : Rule} {st : RuleState}
    (h : evaluate bounds spend rule = some st) : st.ruleId = rule.id := by
  unfold evaluate at h
  simp only [Option.bind_eq_bind, Option.bind_eq_some_iff, Option.ite_none_right_eq_some] at h
  obtain ⟨_, _, _, _, _, _, _, hst⟩ := h
  cases hst
  rfl

variable {r : Refresh} {rows : List Rule}

theorem Refresh.distinct_states (hrows : r.rules = some rows) : ((r.states rows).map (·.ruleId)).Nodup := by
  have hids : ∀ rows : List Rule, ((r.states rows).map (·.ruleId)).Sublist (rows.map (·.id)) := by
    intro rows
    unfold Refresh.states
    induction rows with
    | nil => exact .refl _
    | cons rule rows ih =>
      rw [filterMap_cons, map_cons]
      split
      · exact ih.cons _
      · rename_i st hst
        rw [map_cons, evaluate_ruleId hst]
        exact ih.cons_cons _
  exact (r.distinct rows hrows).sublist (hids rows)

theorem Refresh.same_state (hrows : r.rules = some rows) {st st' : RuleState} (hst : st ∈ r.states rows)
    (hst' : st' ∈ r.states rows) (hid : st.ruleId = st'.ruleId) : st = st' :=
  inj_on_of_nodup_map (r.distinct_states hrows) hst hst' hid

theorem Refresh.fires_states (hrows : r.rules = some rows) :
    Fires g ((r.states rows).foldl Guard.maybeFireAlerts g) r.Reaches := by
  have hall := Fires.foldl (fun g st => Fires.maybeFireAlerts st) (r.states rows) (fun st hst st' hst' => by
    rintro id start t finish finish' ⟨u, -, -, halert⟩ ⟨u', -, -, halert'⟩
    have hid : st.ruleId = st'.ruleId := (congrArg Alert.ruleId halert).trans (congrArg Alert.ruleId halert').symm
    have hfinish : st.windowEnd = finish := congrArg Alert.windowEnd halert
    rw [← hfinish, r.same_state hrows hst hst' hid]
    exact congrArg Alert.windowEnd halert') g
  have hreaches : r.Reaches = fun a =>
      ∃ st ∈ r.states rows, ∃ t ∈ st.steps, st.reached t = true ∧ st.alert t = a := by
    funext a
    simp [Refresh.Reaches, hrows]
  rw [hreaches]
  exact hall

/-- What the pruning keeps is what the refresh does not miss. -/
theorem Refresh.kept_iff (hrows : r.rules = some rows) (id : String) (start : Int) :
    ((r.states rows).reverse.find? (·.ruleId = id)).map (·.windowStart) = some start ↔ ¬ r.Misses id start := by
  have hmisses : ¬ r.Misses id start ↔ ∃ st ∈ r.states rows, st.ruleId = id ∧ st.windowStart = start := by
    simp [Refresh.Misses, hrows]
  rw [hmisses, Option.map_eq_some_iff]
  constructor
  · rintro ⟨st, hfind, hstart⟩
    refine ⟨st, List.mem_reverse.mp (mem_of_find?_eq_some hfind), ?_, hstart⟩
    simpa using find?_some hfind
  · rintro ⟨st, hst, hid, hstart⟩
    have hsome : ((r.states rows).reverse.find? (·.ruleId = id)).isSome := by
      rw [find?_isSome]
      exact ⟨st, List.mem_reverse.mpr hst, decide_eq_true hid⟩
    obtain ⟨found, hfind⟩ := Option.isSome_iff_exists.mp hsome
    have hfound : found.ruleId = id := by simpa using find?_some hfind
    have hsame := r.same_state hrows (List.mem_reverse.mp (mem_of_find?_eq_some hfind)) hst (hfound.trans hid.symm)
    exact ⟨found, hfind, by rw [hsame, hstart]⟩

/-- What one refresh does to the alerts. -/
theorem Guard.alerts_refresh (g : Guard) (r : Refresh) :
    ∃ news, (g.refresh r).alerts = news ++ g.alerts ∧ news.Nodup ∧
      ∀ a, a ∈ news ↔ r.Reaches a ∧ a.threshold ∉ g.fired a.ruleId a.windowStart := by
  unfold Guard.refresh
  split
  · rename_i hrows
    exact ⟨[], rfl, nodup_nil, fun a => by simp [Refresh.Reaches, hrows]⟩
  · rename_i rows hrows
    exact (r.fires_states hrows).alerts

/-- And to what is remembered. -/
theorem Guard.fired_refresh (g : Guard) (r : Refresh) (id : String) (start : Int) (t : Rat) :
    t ∈ (g.refresh r).fired id start ↔
      (∃ finish, r.Reaches ⟨id, start, finish, t⟩) ∨ ¬ r.Misses id start ∧ t ∈ g.fired id start := by
  unfold Guard.refresh
  split
  · rename_i hrows
    simp [Refresh.Reaches, Refresh.Misses, hrows]
  · rename_i rows hrows
    have hseen : (∃ finish, r.Reaches ⟨id, start, finish, t⟩) → ¬ r.Misses id start := by
      rintro ⟨finish, rows', hrows', st, hst, u, -, -, halert⟩ ⟨rows'', hrows'', hmiss⟩
      cases halert
      rw [hrows'] at hrows''
      cases hrows''
      exact hmiss st hst rfl rfl
    simp only [Guard.pruneAlertState]
    split
    · rename_i hkept
      rw [r.kept_iff hrows] at hkept
      rw [(r.fires_states hrows).fired]
      simp only [hkept, not_false_eq_true, true_and, or_comm]
    · rename_i hmissed
      rw [r.kept_iff hrows] at hmissed
      refine iff_of_false not_mem_nil (not_or.mpr ⟨fun h => hmissed (hseen h), fun h => hmissed h.1⟩)

/-- The guard remembers what the refreshes say. -/
theorem Guard.fired_after (passes : List Refresh) (id : String) (start : Int) (t : Rat) :
    t ∈ (Guard.after passes).fired id start ↔ Remembered id start t passes := by
  induction passes with
  | nil => simp [Guard.after, Guard.init, Remembered]
  | cons r passes ih => rw [Guard.after, Guard.fired_refresh, ih, Remembered]

/-- Every alert was found by some refresh. -/
theorem Guard.reached_of_alert {passes : List Refresh} {a : Alert} (ha : a ∈ (Guard.after passes).alerts) :
    ∃ r ∈ passes, r.Reaches a := by
  induction passes with
  | nil => cases ha
  | cons r passes ih =>
    obtain ⟨news, hnews, -, hmem⟩ := (Guard.after passes).alerts_refresh r
    rw [Guard.after, hnews, mem_append] at ha
    rcases ha with hnew | hold
    · exact ⟨r, mem_cons_self, ((hmem a).mp hnew).1⟩
    · obtain ⟨p, hp, hreached⟩ := ih hold
      exact ⟨p, .tail _ hp, hreached⟩

/-- One refresh keeps the alerts right exactly if the guard remembers those reached before and no others. -/
theorem once_cons_iff {passes : List Refresh} (h : Once passes) :
    Once (r :: passes) ↔ ∀ a, r.Reaches a →
      (Remembered a.ruleId a.windowStart a.threshold passes ↔ ∃ p ∈ passes, p.Reaches a) := by
  obtain ⟨news, hnews, hnodup, hmem⟩ := (Guard.after passes).alerts_refresh r
  constructor
  · intro hnext a hreached
    rw [← Guard.fired_after]
    constructor
    · intro hfired
      have hemitted := hnext.emitted r mem_cons_self a hreached
      rw [Guard.after, hnews, mem_append] at hemitted
      rcases hemitted with hnew | hold
      · exact absurd hfired ((hmem a).mp hnew).2
      · exact Guard.reached_of_alert hold
    · rintro ⟨p, hp, hbefore⟩
      by_contra hfired
      have hdisjoint := disjoint_of_nodup_append (hnews ▸ hnext.nodup :)
      exact hdisjoint ((hmem a).mpr ⟨hreached, hfired⟩) (h.emitted p hp a hbefore)
  · intro hcond
    constructor
    · rw [Guard.after, hnews]
      refine List.Nodup.append hnodup h.nodup fun a hnew hold => ?_
      obtain ⟨hreached, hfired⟩ := (hmem a).mp hnew
      rw [Guard.fired_after, hcond a hreached] at hfired
      exact hfired (Guard.reached_of_alert hold)
    · intro p hp a hreached
      rw [Guard.after, hnews, mem_append]
      rcases List.mem_cons.mp hp with rfl | hp
      · by_cases hfired : a.threshold ∈ (Guard.after passes).fired a.ruleId a.windowStart
        · rw [Guard.fired_after, hcond a hreached] at hfired
          obtain ⟨q, hq, hbefore⟩ := hfired
          exact .inr (h.emitted q hq a hbefore)
        · exact .inl ((hmem a).mpr ⟨hreached, hfired⟩)
      · exact .inr (h.emitted p hp a hreached)

/-- Along a run of refreshes the alerts are right throughout exactly if every refresh that finds a threshold
reached which an earlier one had found in the same window comes with no miss in between, and one that finds it
for the first time in its window with no alert remembered from another window that starts there too. -/
theorem alerts_once_iff (passes : List Refresh) :
    (∀ run, run <:+ passes → Once run) ↔
      ∀ r earlier, (r :: earlier) <:+ passes → ∀ a, r.Reaches a →
        (Remembered a.ruleId a.windowStart a.threshold earlier ↔ ∃ p ∈ earlier, p.Reaches a) := by
  induction passes with
  | nil =>
    refine iff_of_true ?_ ?_
    · intro run hrun
      obtain rfl := List.suffix_nil.mp hrun
      exact ⟨List.nodup_nil, nofun⟩
    · intro r earlier hrun
      cases List.suffix_nil.mp hrun
  | cons r passes ih =>
    constructor
    · intro h p earlier hrun
      rcases List.suffix_cons_iff.mp hrun with heq | hrun
      · cases heq
        exact (once_cons_iff (h passes (List.suffix_cons r passes))).mp (h _ (List.suffix_refl _))
      · exact ih.mp (fun run hrun => h run (hrun.trans (List.suffix_cons r passes))) p earlier hrun
    · intro hcond run hrun
      have hbefore := ih.mpr fun p earlier hp => hcond p earlier (hp.trans (List.suffix_cons r passes))
      rcases List.suffix_cons_iff.mp hrun with rfl | hrun
      · exact (once_cons_iff (hbefore passes (List.suffix_refl _))).mpr (hcond r passes (List.suffix_refl _))
      · exact hbefore run hrun

/-- A rule over its cap whose evaluation fails once in between sends its alerts again. -/
theorem failed_evaluation_repeats :
    let rule : Rule := ⟨"r", "provider", "deepseek", "cost_usd", "day", 100, [some (1 / 2)]⟩
    let pass (spent : Option Rat) : Refresh :=
      ⟨some [rule], fun _ => (0, 86400), fun _ => spent, by simp⟩
    ¬ ∀ run, run <:+ [pass (some 60), pass none, pass (some 60)] → Once run := by
  intro rule pass h
  have hrepeat : (Guard.after [pass (some 60), pass none, pass (some 60)]).alerts =
      [⟨"r", 0, 86400, 1 / 2⟩, ⟨"r", 0, 86400, 1 / 2⟩] := by decide +kernel
  have hnodup := (h _ (List.suffix_refl _)).nodup
  rw [hrepeat] at hnodup
  simp at hnodup

end OpenAgent.Budget
