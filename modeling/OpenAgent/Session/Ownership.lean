import OpenAgent.Session.Lock

/-!
# Whose texts a turn is made of

A message is pure when every text and attachment in it was pushed by the connection and host it will run
under and is credited to whom the message is credited. Merging keeps this as long as all that is merged
belongs together, so what has to be shown of every path is that the burst holds texts of one owner only.
-/

namespace OpenAgent.Session

open Lib List Bool

/-! ### Pure messages -/

/-- What is asked of the texts: whom one is credited to, which speech is sound for its owner, and whether it
is asked of the turns that are over as well. -/
structure Rule where
  credit : Option String → Option String
  sound : Owner → List STTInput → Prop
  past : Bool

def Piece.key (rule : Rule) (p : Piece) : Owner × Option String :=
  (p.owner, rule.credit p.author)

def Message.key (rule : Rule) (m : Message) : Owner × Option String :=
  (m.owner, rule.credit m.author)

/-- Everything in the message is of the owner it will run under, and its text is what its pieces say. -/
structure Message.Pure (rule : Rule) (m : Message) : Prop where
  pieces : ∀ p ∈ m.pieces, p.key rule = m.key rule
  sound : ∀ p ∈ m.pieces, rule.sound p.owner p.speech
  nonempty : m.pieces ≠ []
  attachments : ∀ i ∈ m.attachments, i.owner = m.owner
  joined : Lib.trim isSpace m.text.toList = (joinTexts (m.pieces.map (·.text))).toList

def Uniform (rule : Rule) (msgs : List Message) : Prop :=
  ∀ m ∈ msgs, ∀ n ∈ msgs, m.key rule = n.key rule

variable {rule : Rule} {settings : Settings} {s s' : StreamSession}

theorem uniform_nil : Uniform rule [] := fun _ h => nomatch h

theorem toList_joinTexts (texts : List String) :
    (joinTexts texts).toList = List.intercalate "\n\n".toList
      ((texts.map fun t => Lib.trim isSpace t.toList).filter (· ≠ [])) := String.toList_ofList

theorem tight_joinTexts (texts : List String) : Tight isSpace (joinTexts texts).toList := by
  rw [toList_joinTexts]
  apply tight_intercalate
  · intro x hx
    simpa using (List.mem_filter.mp hx).2
  · intro x hx
    obtain ⟨t, -, rfl⟩ := List.mem_map.mp (List.mem_filter.mp hx).1
    exact tight_trim _

theorem toList_joinTexts_singleton (text : String) :
    (joinTexts [text]).toList = Lib.trim isSpace text.toList := by
  rw [toList_joinTexts, map_singleton]
  by_cases hempty : Lib.trim isSpace text.toList = []
  · rw [filter_cons_of_neg (by simpa using hempty), hempty]
    rfl
  · rw [filter_cons_of_pos (by simpa using hempty), filter_nil, intercalate_singleton]

variable {msgs burst : List Message}

theorem joinTexts_flatMap
    (h : ∀ m ∈ msgs, Lib.trim isSpace m.text.toList = (joinTexts (m.pieces.map (·.text))).toList) :
    joinTexts (msgs.map (·.text)) = joinTexts ((msgs.flatMap (·.pieces)).map (·.text)) := by
  have hmap : (msgs.map fun m => Lib.trim isSpace m.text.toList) = (msgs.map fun m =>
      ((m.pieces.map (·.text)).map fun t => Lib.trim isSpace t.toList).filter (· ≠ [])).map
        (List.intercalate "\n\n".toList) := by
    rw [map_map]
    apply map_congr_left
    intro m hm
    rw [h m hm, toList_joinTexts]
    rfl
  have hflat := @intercalate_flatten _ _ "\n\n".toList (msgs.map fun m =>
    ((m.pieces.map (·.text)).map fun t => Lib.trim isSpace t.toList).filter (· ≠ [])) (by
      intro ys hys y hy
      obtain ⟨m, -, rfl⟩ := List.mem_map.mp hys
      simpa using (List.mem_filter.mp hy).2)
  rw [joinTexts, joinTexts, map_map]
  congr 1
  rw [show (fun t => Lib.trim isSpace t.toList) ∘ (fun m : Message => m.text) =
    fun m : Message => Lib.trim isSpace m.text.toList from rfl, hmap, hflat]
  congr 1
  rw [← flatMap_def, map_flatMap, map_flatMap, filter_flatMap]

variable {m : Message}

theorem key_mergeBurst (huniform : Uniform rule msgs) (hm : m ∈ msgs)
    : (mergeBurst msgs).key rule = m.key rule := by
  cases hhead : msgs.head? with
  | none =>
    simp [List.head?_eq_none_iff.mp hhead] at hm
  | some first =>
    cases hlast : msgs.getLast? with
    | none =>
      simp [List.getLast?_eq_none_iff.mp hlast] at hm
    | some last =>
      have hfirst := huniform first (mem_of_head? hhead) m hm
      have hother := huniform last (mem_of_getLast? hlast) m hm
      simp only [Message.key, Prod.mk.injEq] at hfirst hother ⊢
      simp only [mergeBurst, hhead, hlast, Option.map_some, Option.getD_some, Option.bind_some]
      exact ⟨hfirst.1, hother.2⟩

theorem pure_mergeBurst (hne : msgs ≠ []) (hpure : ∀ m ∈ msgs, m.Pure rule) (huniform : Uniform rule msgs)
    : (mergeBurst msgs).Pure rule where
  pieces p hp := by
    obtain ⟨m, hm, hmem⟩ := List.mem_flatMap.mp hp
    rw [key_mergeBurst huniform hm]
    exact (hpure m hm).pieces p hmem
  sound p hp := by
    obtain ⟨m, hm, hmem⟩ := List.mem_flatMap.mp hp
    exact (hpure m hm).sound p hmem
  nonempty hnil := by
    obtain ⟨m, hm⟩ := exists_mem_of_ne_nil msgs hne
    exact (hpure m hm).nonempty (List.flatMap_eq_nil_iff.mp hnil m hm)
  attachments i hi := by
    obtain ⟨m, hm, hmem⟩ := List.mem_flatMap.mp hi
    have hkey := congrArg Prod.fst (key_mergeBurst huniform hm)
    exact ((hpure m hm).attachments i hmem).trans hkey.symm
  joined := by
    show Lib.trim isSpace (joinTexts (msgs.map (·.text))).toList = _
    rw [trim_of_tight (tight_joinTexts _), joinTexts_flatMap fun m hm => (hpure m hm).joined]
    rfl

/-! ### Where messages are -/

def Work.message : Work → Message
  | .dispatch m | .launch m | .buffer m | .append m => m

def Work.buffers : Work → Bool
  | .buffer _ | .append _ => true
  | .dispatch _ | .launch _ => false

def Await.messages : Await → List Message
  | .cancelling c => c.salvaged.toList
  | .hook m => [m]
  | .pump => []

def Waiter.messages : Waiter → List Message
  | .text m => [m]
  | .interrupt _ | .burstDrain | .revocation _ _ => []

def Ends : List Work → Prop
  | [] => True
  | w :: rest => (w.buffers = true → rest = []) ∧ (∀ m, .buffer m ∉ rest) ∧ Ends rest

structure Sorted (rule : Rule) (s : StreamSession) : Prop where
  burst : ∀ m ∈ s.pendingBurst, m.Pure rule
  uniform : Uniform rule s.pendingBurst
  waiters : ∀ w ∈ s.waiters, ∀ m ∈ w.messages, m.Pure rule
  turns : ∀ t ∈ s.turns, rule.past = true ∨ t.over = false → t.message.Pure rule

/-- What the holder of the lock has in hand is pure; before it appends to the burst, that is empty. -/
structure Holder.Fits (rule : Rule) (burst : List Message) (h : Holder) : Prop where
  awaited : ∀ m ∈ h.await.messages, m.Pure rule
  rest : ∀ w ∈ h.rest, w.message.Pure rule
  ends : Ends h.rest
  flushed : ∀ m, .append m ∈ h.rest → burst = []
  unsalvaged : ∀ m c, .append m ∈ h.rest → h.await = .cancelling c → c.salvaged = none
  unbuffered : ∀ m n, h.await = .hook m → .buffer n ∉ h.rest

structure Owned (rule : Rule) (s : StreamSession) : Prop extends Sorted rule s where
  lock : ∀ h, s.lock = some h → h.Fits rule s.pendingBurst

theorem Sorted.unlocked (h : Sorted rule s) (hlock : s.lock = none) : Owned rule s :=
  { h with lock := fun holder hsome => by rw [hlock] at hsome; cases hsome }

theorem Descends.pure {turns turns' : List Turn} (h : Descends turns turns')
    (hpure : ∀ t ∈ turns, rule.past = true ∨ t.over = false → t.message.Pure rule) :
    ∀ t ∈ turns', rule.past = true ∨ t.over = false → t.message.Pure rule := by
  intro t' ht' hcounts
  obtain ⟨j, hj⟩ := mem_iff_getElem?.mp ht'
  obtain ⟨t, ht, hmessage, hover⟩ := h j t' hj
  rw [hmessage]
  refine hpure t (mem_of_getElem? ht) (hcounts.imp_right ?_)
  intro hlive
  rw [← not_eq_true] at hlive ⊢
  exact fun hdone => hlive (hover hdone)

theorem Sorted.of_eq (h : Sorted rule s) (hburst : s'.pendingBurst = s.pendingBurst)
    (hwaiters : ∀ w ∈ s'.waiters, w ∈ s.waiters) (hturns : Descends s.turns s'.turns) : Sorted rule s' where
  burst := hburst ▸ h.burst
  uniform := hburst ▸ h.uniform
  waiters w hw := h.waiters w (hwaiters w hw)
  turns := hturns.pure h.turns

theorem Sorted.flush (h : Sorted rule s) : Sorted rule { s with pendingBurst := [] } where
  burst _ hm := nomatch hm
  uniform := uniform_nil
  waiters := h.waiters
  turns := h.turns

theorem Sorted.cancelBurstTimer (h : Sorted rule s) : Sorted rule s.cancelBurstTimer :=
  h.of_eq rfl (fun _ hw => (List.mem_filter.mp hw).1) (.refl _)

theorem Sorted.kill (h : Sorted rule s) (j : Nat) : Sorted rule (s.kill j) :=
  h.of_eq rfl (fun _ hw => hw) (descends_kill s j)

theorem Sorted.appendToBurst (h : Sorted rule s) (hm : m.Pure rule)
    (hjoins : ∀ b ∈ s.pendingBurst, b.key rule = m.key rule) : Sorted rule (s.appendToBurst m) where
  burst b hb := by
    rcases List.mem_append.mp hb with hold | hnew
    · exact h.burst b hold
    · cases List.mem_singleton.mp hnew
      exact hm
  uniform b hb c hc := by
    have hkey : ∀ x ∈ s.pendingBurst ++ [m], x.key rule = m.key rule := by
      intro x hx
      rcases List.mem_append.mp hx with hold | hnew
      · exact hjoins x hold
      · rw [List.mem_singleton.mp hnew]
    rw [hkey b hb, hkey c hc]
  waiters := h.cancelBurstTimer.waiters
  turns := h.turns

/-! ### Under the lock -/

theorem Sorted.release (h : Sorted rule s) (caller : Caller) : Owned rule (s.release caller) := by
  cases caller with
  | revocation deviceId epoch => exact Sorted.unlocked ⟨h.burst, h.uniform, h.waiters, h.turns⟩ rfl
  | dispatchLoop | burstDrain => exact Sorted.unlocked ⟨h.burst, h.uniform, h.waiters, h.turns⟩ rfl

theorem Sorted.held (h : Sorted rule s) {holder : Holder} (hfits : holder.Fits rule s.pendingBurst) :
    Owned rule { s with lock := some holder } where
  burst := h.burst
  uniform := h.uniform
  waiters := h.waiters
  turns := h.turns
  lock found hsome := by
    cases hsome
    exact hfits

structure Fitting (rule : Rule) (burst : List Message) (rest : List Work) : Prop where
  pure : ∀ w ∈ rest, w.message.Pure rule
  ends : Ends rest
  flushed : ∀ m, .append m ∈ rest → burst = []

theorem Sorted.cancelActiveTurn (h : Sorted rule s) {rest : List Work}
    (hrest : Fitting rule s.pendingBurst rest) {salvage : Bool}
    (hsalvage : salvage = true → ∀ m, .append m ∉ rest) (caller : Caller) {j : Nat}
    (hj : s.running = some j) (reason : String) (suppress : Bool) :
    Owned rule (s.cancelActiveTurn caller j reason suppress salvage rest) := by
  unfold StreamSession.cancelActiveTurn
  have hsuppressed : Sorted rule
      { s with suppressRunnerCompletion := s.suppressRunnerCompletion || suppress } :=
    ⟨h.burst, h.uniform, h.waiters, h.turns⟩
  dsimp only
  split
  · rename_i salvaged hsome
    split at hsome
    · rename_i hcond
      obtain ⟨t, ht, rfl⟩ := Option.map_eq_some_iff.mp hsome
      refine (hsuppressed.kill j).held
        ⟨?_, hrest.pure, hrest.ends, hrest.flushed, ?_, fun _ _ hawait => nomatch hawait⟩
      · intro m hm
        cases List.mem_singleton.mp hm
        obtain ⟨-, turn, hturn, hlive⟩ := running_eq_some.mp hj
        cases ht.symm.trans hturn
        exact h.turns t (mem_of_getElem? ht) (.inr hlive)
      · intro m c happend _
        rw [and_eq_true] at hcond
        exact absurd happend (hsalvage hcond.1 m)
    · cases hsome
  · refine hsuppressed.held
      ⟨?_, hrest.pure, hrest.ends, hrest.flushed, ?_, fun _ _ hawait => nomatch hawait⟩
    · exact fun _ h => nomatch h
    · intro m c _ hawait
      cases hawait
      rfl

theorem Sorted.dispatchTurn (h : Sorted rule s) (hm : m.Pure rule) {rest : List Work}
    (hrest : Fitting rule s.pendingBurst rest) (hbuffer : ∀ n, .buffer n ∉ rest) (caller : Caller) :
    Owned rule (s.dispatchTurn caller m rest) := by
  unfold StreamSession.dispatchTurn
  split
  · rename_i j hj
    refine h.cancelActiveTurn ⟨?_, ?_, ?_⟩ (by simp) _ hj _ _
    · intro w hw
      rcases List.mem_cons.mp hw with rfl | hmem
      · exact hm
      · exact hrest.pure w hmem
    · exact ⟨by simp [Work.buffers], hbuffer, hrest.ends⟩
    · intro n hn
      rcases List.mem_cons.mp hn with hfalse | hmem
      · cases hfalse
      · exact hrest.flushed n hmem
  · refine h.held ⟨?_, hrest.pure, hrest.ends, hrest.flushed, (fun _ _ _ hawait => nomatch hawait),
      fun _ n _ => hbuffer n⟩
    intro n hn
    cases List.mem_singleton.mp hn
    exact hm

def joinsBurst (rule : Rule) (burst : List Message) (key : Owner × Option String) : Bool :=
  burst.all fun b => b.owner ≠ key.1 || b.key rule = key

theorem Sorted.proceed (h : Sorted rule s) {rest : List Work}
    (hrest : Fitting rule s.pendingBurst rest)
    (hjoins : ∀ m, .buffer m ∈ rest → joinsBurst rule s.pendingBurst (m.key rule) = true) (caller : Caller) :
    Owned rule (StreamSession.proceed caller s rest) := by
  cases rest with
  | nil => exact h.release caller
  | cons w rest =>
    have hpure := hrest.pure w mem_cons_self
    have htail : Fitting rule s.pendingBurst rest :=
      ⟨fun v hv => hrest.pure v (.tail w hv), hrest.ends.2.2, fun m hm => hrest.flushed m (.tail w hm)⟩
    cases w with
    | dispatch m => exact h.dispatchTurn hpure htail hrest.ends.2.1 caller
    | launch m =>
      refine h.held ⟨?_, htail.pure, htail.ends, htail.flushed, (fun _ _ _ hawait => nomatch hawait),
        fun _ n _ => hrest.ends.2.1 n⟩
      intro n hn
      cases List.mem_singleton.mp hn
      exact hpure
    | append m =>
      obtain rfl := hrest.ends.1 rfl
      have hempty := hrest.flushed m mem_cons_self
      exact (h.appendToBurst hpure (by simp [hempty])).release caller
    | buffer m =>
      obtain rfl := hrest.ends.1 rfl
      rw [StreamSession.proceed]
      split
      · rename_i hempty
        exact (h.appendToBurst hpure (by simp [hempty])).release caller
      · rename_i first others hburst
        split
        · have happend : Fitting rule [] [.append m] := {
            pure := fun v hv => by
              cases List.mem_singleton.mp hv
              exact hpure
            ends := ⟨fun _ => rfl, by simp, trivial⟩
            flushed := fun _ _ => rfl }
          exact h.flush.dispatchTurn (pure_mergeBurst (by simp [hburst]) h.burst h.uniform) happend (by simp) caller
        · rename_i hsame
          refine (h.appendToBurst hpure ?_).release caller
          intro b hb
          have hjoin := List.all_eq_true.mp (hjoins m mem_cons_self) b hb
          have howner : b.owner = m.owner := by
            have hfirst := h.uniform b hb first (by rw [hburst]; exact mem_cons_self)
            exact (congrArg Prod.fst hfirst).trans (not_not.mp hsame)
          simpa [howner, Work.message, Message.key] using hjoin

theorem Fitting.nil : Fitting rule burst [] where
  pure _ hw := nomatch hw
  ends := trivial
  flushed _ hm := nomatch hm

theorem Fitting.single {w : Work} (hpure : w.message.Pure rule) (happend : ∀ m, w ≠ .append m)
    : Fitting rule burst [w] where
  pure v hv := by
    cases List.mem_singleton.mp hv
    exact hpure
  ends := ⟨fun _ => rfl, by simp, trivial⟩
  flushed m hm := absurd (List.mem_singleton.mp hm).symm (happend m)

theorem Holder.Fits.fitting {h : Holder} (hfits : h.Fits rule burst) :
    Fitting rule burst h.rest := ⟨hfits.rest, hfits.ends, hfits.flushed⟩

/-! ### The session's functions -/

def settlesApart (rule : Rule) (s : StreamSession) : Bool :=
  match s.lock with
  | some h =>
    match h.await with
    | .cancelling c =>
      let burst := c.salvaged.toList ++ s.pendingBurst
      (burst.all fun m => burst.all fun n => m.key rule = n.key rule) &&
        h.rest.all fun w =>
          match w with
          | .buffer m => joinsBurst rule burst (m.key rule)
          | .dispatch _ | .launch _ | .append _ => true
    | .hook _ | .pump => true
  | none => true

theorem Owned.settleCancel (h : Owned rule s) {holder : Holder} {c : Cancel}
    (hlock : s.lock = some holder) (hawait : holder.await = .cancelling c)
    (hapart : settlesApart rule s = true) : Owned rule (s.settleCancel holder c) := by
  have hfits := h.lock holder hlock
  simp only [settlesApart, hlock, hawait, and_eq_true] at hapart
  obtain ⟨huniform, hjoins⟩ := hapart
  unfold StreamSession.settleCancel
  apply Sorted.proceed
  · refine ⟨?_, ?_, h.waiters, h.turns⟩
    · intro m hm
      rcases List.mem_append.mp hm with hsalvaged | hold
      · exact hfits.awaited m (by rwa [hawait])
      · exact h.burst m hold
    · intro m hm n hn
      have hall := List.all_eq_true.mp (List.all_eq_true.mp huniform m hm) n hn
      simpa using hall
  · refine ⟨hfits.rest, hfits.ends, ?_⟩
    intro m hm
    show c.salvaged.toList ++ s.pendingBurst = []
    rw [hfits.unsalvaged m c hm hawait, hfits.flushed m hm]
    rfl
  · intro m hm
    exact List.all_eq_true.mp hjoins _ hm

theorem Owned.await (h : Owned rule s) {holder : Holder} {c : Cancel} (hlock : s.lock = some holder)
    (hawait : holder.await = .cancelling c) (stage : CancelStage) :
    Owned rule { s with lock := some { holder with await := .cancelling { c with stage } } } := by
  have hfits := h.lock holder hlock
  refine h.toSorted.held
    ⟨?_, hfits.rest, hfits.ends, hfits.flushed, ?_, fun _ _ hhook => nomatch hhook⟩
  · intro m hm
    exact hfits.awaited m (by rwa [hawait])
  · intro m d hm hd
    cases hd
    exact hfits.unsalvaged m c hm hawait

theorem Owned.kill (h : Owned rule s) (j : Nat) : Owned rule (s.kill j) :=
  { h.toSorted.kill j with lock := h.lock }

theorem Owned.resumed (h : Owned rule s) (hapart : settlesApart rule s = true) {e : Step}
    (he : e.resumes = true) (hstep : Session.step settings s e = some s') : Owned rule s' := by
  obtain ⟨holder, c, hlock, hawait, rfl | rfl | ⟨rfl, -⟩⟩ := resumed_cases he hstep
  · exact h.await hlock hawait _
  · exact (h.kill c.turn).await hlock hawait _
  · exact h.settleCancel hlock hawait hapart

theorem Sorted.addTurn (h : Sorted rule s) {t : Turn} (ht : t.message.Pure rule)
    (hburst : s'.pendingBurst = s.pendingBurst) (hwaiters : s'.waiters = s.waiters)
    (hturns : s'.turns = s.turns ++ [t]) : Sorted rule s' where
  burst := hburst ▸ h.burst
  uniform := hburst ▸ h.uniform
  waiters := hwaiters ▸ h.waiters
  turns u hu hcounts := by
    rw [hturns] at hu
    rcases List.mem_append.mp hu with hold | hnew
    · exact h.turns u hold hcounts
    · rw [List.mem_singleton.mp hnew]
      exact ht

theorem Sorted.startTurn (h : Sorted rule s) (hm : m.Pure rule) :
    Sorted rule (s.startTurn settings m) := by
  unfold StreamSession.startTurn
  dsimp only
  split
  · exact ⟨h.burst, h.uniform, h.waiters, h.turns⟩
  · exact h.addTurn hm rfl rfl rfl

theorem pendingBurst_startTurn (s : StreamSession) (m : Message) :
    (s.startTurn settings m).pendingBurst = s.pendingBurst := by
  unfold StreamSession.startTurn
  dsimp only
  split <;> rfl

theorem Owned.hooked (h : Owned rule s) {error : Option String}
    (hstep : s.hooked settings error = some s') : Owned rule s' := by
  unfold StreamSession.hooked at hstep
  split at hstep
  · rename_i holder hlock
    have hfits := h.lock holder hlock
    split at hstep
    · rename_i m hawait
      have hm : m.Pure rule := hfits.awaited m (by rw [hawait]; exact List.mem_singleton.mpr rfl)
      have hstarted : Owned rule (StreamSession.proceed holder.caller (s.startTurn settings m) holder.rest) := by
        apply (h.startTurn hm).proceed
        · rw [pendingBurst_startTurn]
          exact hfits.fitting
        · exact fun n hn => absurd hn (hfits.unbuffered m n hawait)
      have hrefused : ∀ text, Owned rule
          (StreamSession.proceed holder.caller (s.refuse settings m text) holder.rest) := fun text =>
        Sorted.proceed (s := s.refuse settings m text) (Sorted.addTurn h.toSorted hm rfl rfl rfl)
          hfits.fitting (fun n hn => absurd hn (hfits.unbuffered m n hawait)) holder.caller
      split at hstep
      · split at hstep
        · cases hstep
          exact hstarted
        · cases hstep
          exact hrefused _
      · cases hstep
        exact hstarted
    · cases hstep
  · cases hstep

theorem uniform_of_joins (howner : ∀ b ∈ burst, b.owner = m.owner)
    (hjoins : joinsBurst rule burst (m.key rule) = true) :
    ∀ b ∈ burst, b.key rule = m.key rule := by
  intro b hb
  have hjoin := List.all_eq_true.mp hjoins b hb
  simpa [howner b hb, Message.key] using hjoin

theorem Sorted.onUserTurnComplete (h : Sorted rule s) (hm : m.Pure rule)
    (hjoins : joinsBurst rule s.pendingBurst (m.key rule) = true) :
    Owned rule (s.onUserTurnComplete settings m) := by
  unfold StreamSession.onUserTurnComplete
  split
  · have hcancelled := h.cancelBurstTimer
    dsimp only
    split
    · exact hcancelled.dispatchTurn hm .nil (by simp) _
    · have hburst : s.cancelBurstTimer.pendingBurst = s.pendingBurst := rfl
      split
      · exact hcancelled.flush.dispatchTurn
          (pure_mergeBurst (by assumption) hcancelled.burst hcancelled.uniform)
          (.single (w := .dispatch m) hm (by simp)) (by simp) _
      · rename_i hsame
        have howner : ∀ b ∈ s.pendingBurst, b.owner = m.owner := by
          intro b hb
          have hnone := List.any_eq_false.mp (not_eq_true _ ▸ hsame) b hb
          simpa using hnone
        have hkeys : ∀ b ∈ s.pendingBurst ++ [m], b.key rule = m.key rule := by
          intro b hb
          rcases List.mem_append.mp hb with hold | hnew
          · exact uniform_of_joins howner hjoins b hold
          · rw [List.mem_singleton.mp hnew]
        have huniform : Uniform rule (s.pendingBurst ++ [m]) := by
          intro b hb c hc
          rw [hkeys b hb, hkeys c hc]
        have hpure : ∀ b ∈ s.pendingBurst ++ [m], b.Pure rule := by
          intro b hb
          rcases List.mem_append.mp hb with hold | hnew
          · exact h.burst b hold
          · rw [List.mem_singleton.mp hnew]
            exact hm
        have hmerged : (mergeBurst (s.pendingBurst ++ [m])).owner = m.owner :=
          congrArg Prod.fst (key_mergeBurst huniform (mem_append_right _ mem_cons_self))
        have heq : { mergeBurst (s.pendingBurst ++ [m]) with owner := m.owner } =
            mergeBurst (s.pendingBurst ++ [m]) := by rw [← hmerged]
        rw [hburst, heq]
        exact hcancelled.flush.dispatchTurn (pure_mergeBurst (by simp) hpure huniform) .nil (by simp) _
  · split
    · exact h.dispatchTurn hm .nil (by simp) _
    · split
      · rename_i j hj
        exact h.cancelActiveTurn (.single (w := .buffer m) hm (by simp)) (by simp) _ hj _ _
      · refine h.proceed (.single (w := .buffer m) hm (by simp)) ?_ _
        intro n hn
        cases List.mem_singleton.mp hn
        exact hjoins

theorem Sorted.drainBurst (h : Sorted rule s) (hlock : s.lock = none) : Owned rule s.drainBurst := by
  unfold StreamSession.drainBurst
  have hplain : Sorted rule { s with burstTimer := none } := ⟨h.burst, h.uniform, h.waiters, h.turns⟩
  dsimp only
  split
  · exact hplain.unlocked hlock
  · rename_i hne
    exact hplain.flush.dispatchTurn (pure_mergeBurst hne h.burst h.uniform) .nil (by simp) _

theorem Sorted.interrupt (h : Sorted rule s) (hlock : s.lock = none) (reason : String) :
    Owned rule (s.interrupt reason) := by
  unfold StreamSession.interrupt
  have hplain := h.cancelBurstTimer.flush
  dsimp only
  split
  · rename_i j hj
    exact hplain.cancelActiveTurn .nil (by simp) _ hj _ _
  · exact hplain.unlocked hlock

theorem Sorted.revokeTurn (h : Sorted rule s) (deviceId : String) (epoch : Nat) :
    Owned rule (s.revokeTurn deviceId epoch) := by
  unfold StreamSession.revokeTurn
  dsimp only
  split
  · rename_i j hj
    split
    · exact h.cancelActiveTurn .nil (by simp) _ hj _ _
    · exact h.release _
  · exact h.release _

theorem Sorted.of_subset (h : Sorted rule s) (hburst : ∀ m ∈ s'.pendingBurst, m ∈ s.pendingBurst)
    (hwaiters : ∀ w ∈ s'.waiters, w ∈ s.waiters) (hturns : Descends s.turns s'.turns) :
    Sorted rule s' where
  burst m hm := h.burst m (hburst m hm)
  uniform m hm n hn := h.uniform m (hburst m hm) n (hburst n hn)
  waiters w hw := h.waiters w (hwaiters w hw)
  turns := hturns.pure h.turns

theorem Sorted.dropRevoked (h : Sorted rule s) (deviceId : String) (epoch : Nat) :
    Sorted rule (s.dropRevoked deviceId epoch) := by
  unfold StreamSession.dropRevoked
  dsimp only
  split
  · exact h.of_subset (fun m hm => (List.mem_filter.mp hm).1) (fun w hw => (List.mem_filter.mp hw).1) (.refl _)
  · exact h.of_subset (fun m hm => (List.mem_filter.mp hm).1) (fun w hw => hw) (.refl _)

theorem Sorted.revokeIngressDevice (h : Sorted rule s) (deviceId : String) (epoch : Nat) :
    Owned rule (s.revokeIngressDevice deviceId epoch) := by
  unfold StreamSession.revokeIngressDevice
  have hdropped := h.dropRevoked deviceId epoch
  dsimp only
  split
  · refine Sorted.held (s := { s.dropRevoked deviceId epoch with sttUtterance := none })
      ⟨hdropped.burst, hdropped.uniform, hdropped.waiters, hdropped.turns⟩ ?_
    refine ⟨?_, (fun w hw => nomatch hw), trivial, (fun m hm => nomatch hm),
      (fun m c hm => nomatch hm), fun m n hawait => nomatch hawait⟩
    exact fun _ h => nomatch h
  · exact hdropped.revokeTurn _ _

theorem Owned.pumpStopped (h : Owned rule s) (hstep : s.pumpStopped = some s') : Owned rule s' := by
  obtain ⟨_, _, _, -, rfl⟩ := pumpStopped_cases hstep
  apply Sorted.revokeTurn
  exact ⟨h.burst, h.uniform, h.waiters, h.turns⟩

theorem Owned.wait (h : Owned rule s) {w : Waiter} (hw : ∀ m ∈ w.messages, m.Pure rule) :
    Owned rule { s with waiters := s.waiters ++ [w] } where
  burst := h.burst
  uniform := h.uniform
  waiters v hv := by
    rcases List.mem_append.mp hv with hold | hnew
    · exact h.waiters v hold
    · rw [List.mem_singleton.mp hnew]
      exact hw
  turns := h.turns
  lock := h.lock

theorem Owned.of_eq (h : Owned rule s) (hburst : s'.pendingBurst = s.pendingBurst)
    (hlock : s'.lock = s.lock) (hwaiters : s'.waiters = s.waiters)
    (hturns : Descends s.turns s'.turns) : Owned rule s' :=
  { h.toSorted.of_eq hburst (fun _ hw => hwaiters ▸ hw) hturns with
    lock := fun holder hholder => hburst ▸ h.lock holder (hlock ▸ hholder) }

def textKey (rule : Rule) (owner : Owner) (author : Option String) : Owner × Option String :=
  (owner, rule.credit author)

def Event.textAuthor : Event → Option (Option String)
  | .textFinal _ _ _ author => some author
  | .textDelta text final => if final ∧ text ≠ "" then some none else none
  | _ => none

theorem text_ingress {q : Queued} {author : Option String} (h : q.event.textAuthor = some author) :
    q.ingress = q.owner.ingressIdentity := by
  obtain ⟨event, owner, speech⟩ := q
  cases event with
  | sessionOpen => cases h
  | _ => rfl

theorem Event.Says.textAuthor {event : Event} {text : String} {source : TextSource}
    {attachments : List Attachment} {author : Option String} (h : event.Says text source attachments author) :
    event.textAuthor = some author := by
  cases h with
  | delta hfinal => exact if_pos hfinal
  | final => rfl

theorem pure_said {q : Queued} (hsound : rule.sound q.owner q.speech) (text : String) (source : TextSource)
    (attachments : List Attachment) (author : Option String) (serial : Nat) :
    Message.Pure rule ⟨text, source, attachments.map (⟨q.owner, ·⟩), author, q.owner,
      [⟨serial, text, author, q.owner, q.speech⟩]⟩ := by
  refine ⟨?_, ?_, cons_ne_nil _ _, ?_, (toList_joinTexts_singleton text).symm⟩
  · intro p hp
    rw [List.mem_singleton.mp hp]
    rfl
  · intro p hp
    rw [List.mem_singleton.mp hp]
    exact hsound
  · intro i hi
    obtain ⟨a, -, rfl⟩ := List.mem_map.mp hi
    rfl

theorem Sorted.enter (h : Sorted rule s) (hlock : s.lock = none) {w : Waiter}
    (hw : ∀ m ∈ w.messages, m.Pure rule ∧ joinsBurst rule s.pendingBurst (m.key rule) = true) :
    Owned rule (s.enter settings w) := by
  cases w with
  | text m =>
    obtain ⟨hpure, hjoins⟩ := hw m (List.mem_singleton.mpr rfl)
    exact h.onUserTurnComplete hpure hjoins
  | interrupt reason => exact h.interrupt hlock reason
  | burstDrain => exact h.drainBurst hlock
  | revocation deviceId epoch => exact h.revokeIngressDevice deviceId epoch

/-- A text that is looked at under the lock finds no text of another author of its owner in the burst, and a
cancelled turn's message is put back before a burst of its own owner and author only. -/
def mergesApart (rule : Rule) (s : StreamSession) : Step → Bool
  | .take =>
    match s.inbound with
    | q :: _ => q.event.textAuthor.all fun author =>
      joinsBurst rule s.pendingBurst (textKey rule q.owner author)
    | [] => true
  | .grant =>
    match s.waiters with
    | .text m :: _ => joinsBurst rule s.pendingBurst (m.key rule)
    | _ => true
  | .requestAnswered _ | .drained | .expired => settlesApart rule s
  | _ => true

theorem Owned.comes (h : Owned rule s) (hsound : ∀ q ∈ s.inbound, s.ingressIsRevoked q.ingress = false →
      ∀ author, q.event.textAuthor = some author → rule.sound q.owner q.speech) {e : Step}
    (hapart : mergesApart rule s e = true) {w : Waiter} {t : StreamSession} (hcomes : Comes s e w t) :
    Owned rule t ∧ ∀ m ∈ w.messages, m.Pure rule ∧ joinsBurst rule t.pendingBurst (m.key rule) = true := by
  cases hcomes with
  | text hinbound hkept hsays serial =>
    refine ⟨h.of_eq rfl rfl rfl (.refl _), ?_⟩
    intro m hm
    rw [List.mem_singleton.mp hm]
    constructor
    · rw [← text_ingress hsays.textAuthor] at hkept
      exact pure_said (hsound _ (hinbound ▸ mem_cons_self) hkept _ hsays.textAuthor) ..
    · simp only [mergesApart, hinbound, hsays.textAuthor] at hapart
      exact hapart
  | interrupt | timer | revoke => exact ⟨h.of_eq rfl rfl rfl (.refl _), fun _ h => nomatch h⟩

theorem Owned.approaches (h : Owned rule s) (hsound : ∀ q ∈ s.inbound, s.ingressIsRevoked q.ingress = false →
      ∀ author, q.event.textAuthor = some author → rule.sound q.owner q.speech) {e : Step}
    (hapart : mergesApart rule s e = true) (happroaches : Approaches settings s e s') : Owned rule s' := by
  cases happroaches with
  | dropped | filmed | attached | told => exact h.of_eq rfl rfl rfl (.refl _)
  | spoken => exact of_spoken (p := Owned rule) fun _ _ _ => h.of_eq rfl rfl rfl (.refl _)
  | waits hcomes =>
    obtain ⟨howned, hmessages⟩ := h.comes hsound hapart hcomes
    exact howned.wait fun m hm => (hmessages m hm).1
  | enters hcomes hfree =>
    obtain ⟨howned, hmessages⟩ := h.comes hsound hapart hcomes
    exact howned.toSorted.enter ((lock_comes hcomes).trans (lock_of_lockFree hfree)) hmessages
  | @granted w rest hlock hwaiters =>
    have hgranted : Sorted rule { s with waiters := rest } :=
      ⟨h.burst, h.uniform, fun v hv => h.waiters v (hwaiters ▸ .tail w hv), h.turns⟩
    refine hgranted.enter hlock fun m hm => ⟨h.waiters w (hwaiters ▸ mem_cons_self) m hm, ?_⟩
    cases w with
    | text n =>
      rw [List.mem_singleton.mp hm]
      simpa only [mergesApart, hwaiters] using hapart
    | interrupt | burstDrain | revocation => cases hm

theorem Owned.step (h : Owned rule s)
    (hsound : ∀ q ∈ s.inbound, s.ingressIsRevoked q.ingress = false →
      ∀ author, q.event.textAuthor = some author → rule.sound q.owner q.speech) {e : Step}
    (hapart : mergesApart rule s e = true) (hstep : step settings s e = some s') : Owned rule s' := by
  cases e with
  | push | journaled | runner | listen | pull | recognise | recognised =>
    obtain ⟨_, _, _, _, _, _, _, hgrown, rfl⟩ := away_eq rfl hstep
    exact h.of_eq rfl rfl rfl hgrown.descends
  | take | grant | timer | revoke => exact h.approaches hsound hapart (approaches_step rfl hstep)
  | requestAnswered | drained | expired => exact h.resumed hapart rfl hstep
  | hooked error => exact h.hooked hstep
  | pumpStopped => exact h.pumpStopped hstep

end OpenAgent.Session
