import OpenAgent.Session.Steps
import OpenAgent.Lib.Transition

/-!
# What a holder of the lock leaves alone

Whoever starts or cancels a turn works on the burst, the turn in flight and the pending attachments. The
queues, the audio and the barriers of the revocations stay as they are, those who wait for the lock at most
go, and the lock stays with its holder or is released. The barriers only grow, and a revocation under way
has installed its own.
-/

namespace OpenAgent.Session

open Lib List Option

variable {settings : Settings} {s t s' : StreamSession} {caller : Caller}

theorem running_eq_some {j : Nat} : s.running = some j ↔
    s.currentTurn = some j ∧ ∃ turn, s.turns[j]? = some turn ∧ turn.over = false := by
  unfold StreamSession.running
  constructor
  · intro h
    split at h
    · cases h
    · rename_i i hcurrent
      split at h
      · cases h
      · rename_i turn hturn
        split at h
        · cases h
        · rename_i hlive
          cases h
          exact ⟨hcurrent, turn, hturn, by simpa using hlive⟩
  · rintro ⟨hcurrent, turn, hturn, hlive⟩
    simp [hcurrent, hturn, hlive]

def Turn.charge (t : Turn) : Message × List Item × Option String := (t.message, t.attachments, t.author)

def Descends (turns turns' : List Turn) : Prop := ∀ (j : Nat) t', turns'[j]? = some t' →
  ∃ t, turns[j]? = some t ∧ t'.message = t.message ∧ (t.over = true → t'.over = true)

theorem Descends.refl (turns : List Turn) : Descends turns turns := fun _ t ht => ⟨t, ht, rfl, id⟩

theorem Descends.trans {xs ys zs : List Turn} (h : Descends xs ys) (h' : Descends ys zs) :
    Descends xs zs := by
  intro j t'' hj
  obtain ⟨t', ht', hmessage', hover'⟩ := h' j t'' hj
  obtain ⟨t, ht, hmessage, hover⟩ := h j t' ht'
  exact ⟨t, ht, hmessage'.trans hmessage, fun hdone => hover' (hover hdone)⟩

theorem descends_kill (s : StreamSession) (j : Nat) : Descends s.turns (s.kill j).turns := by
  intro i t' hi
  rw [StreamSession.kill, getElem?_modify] at hi
  obtain ⟨t, ht, rfl⟩ := Option.map_eq_some_iff.mp hi
  refine ⟨t, ht, ?_, ?_⟩
  · split <;> rfl
  · split <;> exact id

theorem descends_set {turns : List Turn} {j : Nat} {t t' : Turn} (ht : turns[j]? = some t)
    (hcharge : t'.charge = t.charge) (hover : t.over = true → t'.over = true) :
    Descends turns (turns.set j t') := by
  intro i u hu
  by_cases hij : j = i
  · subst hij
    rw [getElem?_set_self (List.getElem?_eq_some_iff.mp ht).1] at hu
    cases hu
    exact ⟨t, ht, congrArg Prod.fst hcharge, hover⟩
  · rw [getElem?_set_ne hij] at hu
    exact ⟨u, hu, rfl, id⟩

structure Frames (s s' : StreamSession) : Prop where
  barriers : s'.revokedIngressEpochs = s.revokedIngressEpochs
  journaling : s'.journaling = s.journaling
  inbound : s'.inbound = s.inbound
  sttIn : s'.sttIn = s.sttIn
  sttUtterance : s'.sttUtterance = s.sttUtterance
  recognition : s'.recognition = s.recognition
  waiters : s'.waiters.Sublist s.waiters
  attachments : s'.pendingAttachments.Sublist s.pendingAttachments
  videos : s'.videoBuffers.entries.Sublist s.videoBuffers.entries

structure Grown (turns turns' : List Turn) : Prop where
  charges : turns'.map Turn.charge = turns.map Turn.charge
  descends : Descends turns turns'

structure Stays (turns turns' : List Turn) (current current' : Option Nat) : Prop
    extends Grown turns turns' where
  current : current' = current

structure Kept (s s' : StreamSession) : Prop
    extends Frames s s', Stays s.turns s'.turns s.currentTurn s'.currentTurn where
  returned : s'.returned = s.returned
  phases : s'.turns.map (·.phase) = s.turns.map (·.phase)
  outbound : s'.outbound = s.outbound

structure Keeps (caller : Caller) (s s' : StreamSession) : Prop
    extends Frames s s', Stays s.turns s'.turns s.currentTurn s'.currentTurn where
  lock : ∀ h, s'.lock = some h → h.caller = caller
  returned : s'.returned = s.returned ∨ (s'.lock = none ∧ ∃ deviceId epoch,
    caller = .revocation deviceId epoch ∧ s'.returned = s.returned ++ [(deviceId, epoch)])
  phases : s'.turns.map (·.phase) = s.turns.map (·.phase)
  outbound : s'.outbound = s.outbound

theorem Frames.trans (h : Frames s t) (h' : Frames t s') : Frames s s' where
  barriers := h'.barriers.trans h.barriers
  journaling := h'.journaling.trans h.journaling
  inbound := h'.inbound.trans h.inbound
  sttIn := h'.sttIn.trans h.sttIn
  sttUtterance := h'.sttUtterance.trans h.sttUtterance
  recognition := h'.recognition.trans h.recognition
  waiters := h'.waiters.trans h.waiters
  attachments := h'.attachments.trans h.attachments
  videos := h'.videos.trans h.videos

theorem Stays.trans {xs ys zs : List Turn} {a b c : Option Nat} (h : Stays xs ys a b)
    (h' : Stays ys zs b c) : Stays xs zs a c :=
  ⟨⟨h'.charges.trans h.charges, h.descends.trans h'.descends⟩, h'.current.trans h.current⟩

theorem Frames.kept (h : Frames s s') (hturns : s'.turns = s.turns) (hcurrent : s'.currentTurn = s.currentTurn)
    (hreturned : s'.returned = s.returned) (houtbound : s'.outbound = s.outbound) : Kept s s' :=
  { h with
    charges := congrArg _ hturns
    descends := hturns ▸ .refl _
    current := hcurrent
    returned := hreturned
    phases := congrArg _ hturns
    outbound := houtbound }

theorem Kept.refl (s : StreamSession) : Kept s s :=
  Frames.kept ⟨rfl, rfl, rfl, rfl, rfl, rfl, .refl _, .refl _, .refl _⟩ rfl rfl rfl rfl

theorem Kept.trans (h : Kept s t) (h' : Kept t s') : Kept s s' :=
  ⟨h.toFrames.trans h'.toFrames, h.toStays.trans h'.toStays, h'.returned.trans h.returned,
    h'.phases.trans h.phases, h'.outbound.trans h.outbound⟩

theorem Kept.keeps (h : Kept s t) (h' : Keeps caller t s') : Keeps caller s s' :=
  { h.toFrames.trans h'.toFrames, h.toStays.trans h'.toStays with
    lock := h'.lock
    returned := by
      rw [← h.returned]
      exact h'.returned
    phases := h'.phases.trans h.phases
    outbound := h'.outbound.trans h.outbound }

theorem Kept.unlocked (h : Kept s s') (hlock : s'.lock = none) : Keeps caller s s' :=
  { h.toFrames, h.toStays with
    lock := by
      intro holder hsome
      simp [hlock] at hsome
    returned := .inl h.returned
    phases := h.phases
    outbound := h.outbound }

theorem map_phase_kill (s : StreamSession) (j : Nat) :
    (s.kill j).turns.map (·.phase) = s.turns.map (·.phase) := by
  apply ext_getElem?
  intro i
  rw [StreamSession.kill, getElem?_map, getElem?_map, getElem?_modify]
  split
  · cases s.turns[i]? <;> rfl
  · cases s.turns[i]? <;> rfl

theorem map_charge_kill (s : StreamSession) (j : Nat) :
    (s.kill j).turns.map Turn.charge = s.turns.map Turn.charge := by
  apply ext_getElem?
  intro i
  rw [StreamSession.kill, getElem?_map, getElem?_map, getElem?_modify]
  split
  · cases s.turns[i]? <;> rfl
  · cases s.turns[i]? <;> rfl

theorem kept_cancelBurstTimer (s : StreamSession) : Kept s s.cancelBurstTimer :=
  Frames.kept ⟨rfl, rfl, rfl, rfl, rfl, rfl, filter_sublist, .refl _, .refl _⟩ rfl rfl rfl rfl

theorem keeps_held (s : StreamSession) (caller : Caller) (await : Await) (rest : List Work) :
    Keeps caller s { s with lock := some ⟨caller, await, rest⟩ } :=
  { (Kept.refl s).toFrames, (Kept.refl s).toStays with
    lock := by
      intro holder hsome
      rw [← some.inj hsome]
    returned := .inl rfl
    phases := rfl
    outbound := rfl }

theorem keeps_release (s : StreamSession) (caller : Caller) : Keeps caller s (s.release caller) := by
  have hkept := Kept.refl s
  cases caller with
  | revocation deviceId epoch =>
    exact ⟨⟨rfl, rfl, rfl, rfl, rfl, rfl, .refl _, .refl _, .refl _⟩, hkept.toStays,
      (fun _ h => by cases h), .inr ⟨rfl, deviceId, epoch, rfl, rfl⟩, rfl, rfl⟩
  | dispatchLoop | burstDrain =>
    refine Kept.unlocked ?_ rfl
    exact Frames.kept ⟨rfl, rfl, rfl, rfl, rfl, rfl, .refl _, .refl _, .refl _⟩ rfl rfl rfl rfl

theorem kept_kill (s : StreamSession) (j : Nat) : Kept s (s.kill j) where
  barriers := rfl
  journaling := rfl
  inbound := rfl
  sttIn := rfl
  sttUtterance := rfl
  recognition := rfl
  waiters := .refl _
  attachments := .refl _
  videos := .refl _
  charges := map_charge_kill s j
  descends := descends_kill s j
  current := rfl
  returned := rfl
  phases := map_phase_kill s j
  outbound := rfl

theorem kept_suppress (s : StreamSession) (suppress : Bool) :
    Kept s { s with suppressRunnerCompletion := suppress } :=
  Frames.kept ⟨rfl, rfl, rfl, rfl, rfl, rfl, .refl _, .refl _, .refl _⟩ rfl rfl rfl rfl

theorem keeps_cancelActiveTurn (s : StreamSession) (caller : Caller) (j : Nat) (reason : String)
    (suppress salvage : Bool) (rest : List Work) :
    Keeps caller s (s.cancelActiveTurn caller j reason suppress salvage rest) := by
  unfold StreamSession.cancelActiveTurn
  dsimp only
  split
  · exact ((kept_suppress s _).trans (kept_kill _ j)).keeps (keeps_held _ _ _ _)
  · refine (kept_suppress s (s.suppressRunnerCompletion || suppress)).keeps ?_
    exact keeps_held _ _ _ _

theorem keeps_dispatchTurn (s : StreamSession) (caller : Caller) (m : Message) (rest : List Work) :
    Keeps caller s (s.dispatchTurn caller m rest) := by
  unfold StreamSession.dispatchTurn
  split
  · exact keeps_cancelActiveTurn _ _ _ _ _ _ _
  · exact keeps_held _ _ _ _

theorem kept_appendToBurst (s : StreamSession) (m : Message) : Kept s (s.appendToBurst m) :=
  (kept_cancelBurstTimer s).trans
    (Frames.kept ⟨rfl, rfl, rfl, rfl, rfl, rfl, .refl _, .refl _, .refl _⟩ rfl rfl rfl rfl)

theorem kept_pendingBurst (s : StreamSession) (burst : List Message) :
    Kept s { s with pendingBurst := burst } :=
  Frames.kept ⟨rfl, rfl, rfl, rfl, rfl, rfl, .refl _, .refl _, .refl _⟩ rfl rfl rfl rfl

theorem keeps_proceed (s : StreamSession) (caller : Caller) (rest : List Work) :
    Keeps caller s (StreamSession.proceed caller s rest) := by
  induction rest generalizing s with
  | nil => exact keeps_release s caller
  | cons w rest ih =>
    cases w with
    | dispatch m => exact keeps_dispatchTurn s caller m rest
    | launch m => exact keeps_held s caller _ rest
    | append m => exact (kept_appendToBurst s m).keeps (ih _)
    | buffer m =>
      rw [StreamSession.proceed]
      split
      · exact (kept_appendToBurst s m).keeps (ih _)
      · split
        · exact (kept_pendingBurst s []).keeps (keeps_dispatchTurn _ caller _ _)
        · exact (kept_appendToBurst s m).keeps (ih _)

def StreamSession.settled (s : StreamSession) (c : Cancel) : StreamSession :=
  { s with
    currentTurn := none
    currentTurnStarted := false
    suppressRunnerCompletion := if c.suppressCompletion then false else s.suppressRunnerCompletion
    pendingBurst := c.salvaged.toList ++ s.pendingBurst }

theorem keeps_settleCancel (s : StreamSession) (h : Holder) (c : Cancel) :
    Keeps h.caller (s.settled c) (s.settleCancel h c) := keeps_proceed (s.settled c) h.caller h.rest

theorem frames_startTurn (s : StreamSession) (m : Message) : Frames s (s.startTurn settings m) := by
  unfold StreamSession.startTurn
  dsimp only
  split <;> exact ⟨rfl, rfl, rfl, rfl, rfl, rfl, .refl _, filter_sublist, filter_sublist⟩

theorem returned_startTurn (s : StreamSession) (m : Message) :
    (s.startTurn settings m).returned = s.returned := by
  unfold StreamSession.startTurn
  dsimp only
  split <;> rfl

theorem frames_refuse (s : StreamSession) (m : Message) (error : String) :
    Frames s (s.refuse settings m error) := ⟨rfl, rfl, rfl, rfl, rfl, rfl, .refl _, .refl _, .refl _⟩

theorem kept_dropRevoked (s : StreamSession) (deviceId : String) (epoch : Nat) :
    Kept s (s.dropRevoked deviceId epoch) := by
  unfold StreamSession.dropRevoked
  dsimp only
  split
  · exact (kept_cancelBurstTimer s).trans
      (Frames.kept ⟨rfl, rfl, rfl, rfl, rfl, rfl, .refl _, filter_sublist, filter_sublist⟩
        rfl rfl rfl rfl)
  · exact Frames.kept ⟨rfl, rfl, rfl, rfl, rfl, rfl, .refl _, filter_sublist, filter_sublist⟩
      rfl rfl rfl rfl

theorem keeps_revokeTurn (s : StreamSession) (deviceId : String) (epoch : Nat) :
    Keeps (.revocation deviceId epoch) s (s.revokeTurn deviceId epoch) := by
  unfold StreamSession.revokeTurn
  dsimp only
  split
  · split
    · exact keeps_cancelActiveTurn _ _ _ _ _ _ _
    · exact keeps_release _ _
  · exact keeps_release _ _

/-! ### Getting the lock -/

theorem keeps_onUserTurnComplete (s : StreamSession) (m : Message) :
    Keeps .dispatchLoop s (s.onUserTurnComplete settings m) := by
  unfold StreamSession.onUserTurnComplete
  split
  · dsimp only
    refine (kept_cancelBurstTimer s).keeps ?_
    split
    · exact keeps_dispatchTurn _ _ _ _
    · split
      · exact (kept_pendingBurst _ []).keeps (keeps_dispatchTurn _ _ _ _)
      · exact (kept_pendingBurst _ []).keeps (keeps_dispatchTurn _ _ _ _)
  · split
    · exact keeps_dispatchTurn _ _ _ _
    · split
      · exact keeps_cancelActiveTurn _ _ _ _ _ _ _
      · exact keeps_proceed _ _ _

theorem keeps_drainBurst (hlock : s.lock = none) : Keeps .burstDrain s s.drainBurst := by
  unfold StreamSession.drainBurst
  have hfired : Kept s { s with burstTimer := none } :=
    Frames.kept ⟨rfl, rfl, rfl, rfl, rfl, rfl, .refl _, .refl _, .refl _⟩ rfl rfl rfl rfl
  dsimp only
  split
  · exact hfired.unlocked hlock
  · exact (hfired.trans (kept_pendingBurst _ [])).keeps (keeps_dispatchTurn _ _ _ _)

theorem keeps_interrupt (hlock : s.lock = none) (reason : String) :
    Keeps .dispatchLoop s (s.interrupt reason) := by
  unfold StreamSession.interrupt
  have hplain := (kept_cancelBurstTimer s).trans (kept_pendingBurst _ [])
  dsimp only
  split
  · exact hplain.keeps (keeps_cancelActiveTurn _ _ _ _ _ _ _)
  · exact hplain.unlocked hlock

/-! ### Going on under the lock -/

def Step.resumes : Step → Bool
  | .requestAnswered _ | .drained | .expired => true
  | _ => false

variable {e : Step}

/-- The cancellation reaches its next stage, or it is over because its turn is or no longer waited for. -/
theorem resumed_cases (he : e.resumes = true) (hstep : step settings s e = some s') :
    ∃ h c, s.lock = some h ∧ h.await = .cancelling c ∧
      (s' = { s with lock := some { h with await := .cancelling { c with stage := .draining } } } ∨
        s' = { s.kill c.turn with
          lock := some { h with await := .cancelling { c with stage := .killing } } } ∨
        (s' = s.settleCancel h c ∧
          (s.turns[c.turn]?.all Turn.over = true ∨ (e = .expired ∧ c.stage = .killing)))) := by
  cases e with
  | requestAnswered registered =>
    replace hstep : s.requestAnswered registered = some s' := hstep
    unfold StreamSession.requestAnswered at hstep
    split at hstep
    · rename_i h hlock
      split at hstep
      · rename_i c hawait
        refine ⟨h, c, hlock, hawait, ?_⟩
        split at hstep
        · split at hstep
          · exact .inl (some.inj hstep).symm
          · split at hstep
            · rename_i hover
              exact .inr (.inr ⟨(some.inj hstep).symm, .inl hover⟩)
            · exact .inr (.inl (some.inj hstep).symm)
        · cases hstep
      · cases hstep
    · cases hstep
  | drained =>
    replace hstep : s.drained = some s' := hstep
    unfold StreamSession.drained at hstep
    split at hstep
    · rename_i h hlock
      split at hstep
      · rename_i c hawait
        refine ⟨h, c, hlock, hawait, ?_⟩
        split at hstep
        · rename_i hcond
          exact .inr (.inr ⟨(some.inj hstep).symm, .inl hcond.2⟩)
        · cases hstep
      · cases hstep
    · cases hstep
  | expired =>
    replace hstep : s.expired = some s' := hstep
    unfold StreamSession.expired at hstep
    split at hstep
    · rename_i h hlock
      split at hstep
      · rename_i c hawait
        refine ⟨h, c, hlock, hawait, ?_⟩
        split at hstep
        · cases hstep
        · split at hstep
          · cases hstep
          · exact .inr (.inl (some.inj hstep).symm)
          · rename_i hstage
            exact .inr (.inr ⟨(some.inj hstep).symm, .inr ⟨rfl, hstage⟩⟩)
      · cases hstep
    · cases hstep
  | _ => cases he

theorem frames_resumed (he : e.resumes = true) (hstep : step settings s e = some s') :
    ∃ h, s.lock = some h ∧ Frames s s' ∧ Grown s.turns s'.turns ∧
      (∀ h', s'.lock = some h' → h'.caller = h.caller) ∧
      (s'.returned = s.returned ∨ (s'.lock = none ∧ ∃ deviceId epoch,
        h.caller = .revocation deviceId epoch ∧ s'.returned = s.returned ++ [(deviceId, epoch)])) := by
  obtain ⟨h, c, hlock, -, rfl | rfl | ⟨rfl, -⟩⟩ := resumed_cases he hstep
  · have hkeeps := keeps_held s h.caller (.cancelling { c with stage := .draining }) h.rest
    exact ⟨h, hlock, hkeeps.toFrames, hkeeps.toGrown, hkeeps.lock, hkeeps.returned⟩
  · have hkeeps := (kept_kill s c.turn).keeps
      (keeps_held _ h.caller (.cancelling { c with stage := .killing }) h.rest)
    exact ⟨h, hlock, hkeeps.toFrames, hkeeps.toGrown, hkeeps.lock, hkeeps.returned⟩
  · have hkeeps := keeps_settleCancel s h c
    exact ⟨h, hlock, ⟨hkeeps.barriers, hkeeps.journaling, hkeeps.inbound, hkeeps.sttIn, hkeeps.sttUtterance,
      hkeeps.recognition, hkeeps.waiters, hkeeps.attachments, hkeeps.videos⟩, hkeeps.toGrown, hkeeps.lock,
      hkeeps.returned⟩

theorem hooked_cases {error : Option String} (hstep : s.hooked settings error = some s') :
    ∃ h m, s.lock = some h ∧ h.await = .hook m ∧
      ((error.getD "" = "" ∧ s' = StreamSession.proceed h.caller (s.startTurn settings m) h.rest) ∨
        (error.getD "" ≠ "" ∧
          s' = StreamSession.proceed h.caller (s.refuse settings m (error.getD "")) h.rest)) := by
  unfold StreamSession.hooked at hstep
  split at hstep
  · rename_i holder hlock
    split at hstep
    · rename_i m hawait
      refine ⟨holder, m, hlock, hawait, ?_⟩
      split at hstep
      · split at hstep
        · rename_i hempty
          exact .inl ⟨hempty, (some.inj hstep).symm⟩
        · rename_i hfull
          exact .inr ⟨hfull, (some.inj hstep).symm⟩
      · exact .inl ⟨rfl, (some.inj hstep).symm⟩
    · cases hstep
  · cases hstep

theorem frames_hooked {error : Option String} (hstep : s.hooked settings error = some s') :
    ∃ h m, s.lock = some h ∧ h.await = .hook m ∧ Frames s s' ∧
      (∀ h', s'.lock = some h' → h'.caller = h.caller) ∧
      (s'.returned = s.returned ∨ (s'.lock = none ∧ ∃ deviceId epoch,
        h.caller = .revocation deviceId epoch ∧ s'.returned = s.returned ++ [(deviceId, epoch)])) := by
  obtain ⟨h, m, hlock, hawait, ⟨-, rfl⟩ | ⟨-, rfl⟩⟩ := hooked_cases hstep
  · have hkeeps := keeps_proceed (s.startTurn settings m) h.caller h.rest
    refine ⟨h, m, hlock, hawait, (frames_startTurn s m).trans hkeeps.toFrames, hkeeps.lock, ?_⟩
    rw [← returned_startTurn s m]
    exact hkeeps.returned
  · have hkeeps := keeps_proceed (s.refuse settings m (error.getD "")) h.caller h.rest
    refine ⟨h, m, hlock, hawait, (frames_refuse s m _).trans hkeeps.toFrames, hkeeps.lock, ?_⟩
    exact hkeeps.returned

/-! ### The steps beside the lock -/

theorem pushIn_eq (s : StreamSession) (q : Queued) :
    ∃ queued waiting, s.pushIn q = { s with journaling := waiting, inbound := queued } := by
  unfold StreamSession.pushIn
  split
  · exact ⟨_, _, rfl⟩
  · split
    · split <;> exact ⟨_, _, rfl⟩
    · exact ⟨_, _, rfl⟩

theorem journaled_eq {k : Nat} (hstep : s.journaled k = some s') :
    ∃ queued waiting, s' = { s with journaling := waiting, inbound := queued } := by
  unfold StreamSession.journaled at hstep
  split at hstep
  · cases hstep
  · dsimp only at hstep
    split at hstep <;> exact ⟨_, _, (some.inj hstep).symm⟩

def Step.hears : Step → Bool
  | .listen | .pull | .recognise _ _ | .recognised => true
  | _ => false

/-- What a step of the recogniser makes of a session. -/
inductive Hears (s : StreamSession) : StreamSession → Prop
  | passed {first : STTInput} {rest : List STTInput} (hnone : s.recognition = none)
      (haudio : s.sttIn = first :: rest) : Hears s { s with sttIn := rest }
  | opened {first : STTInput} {rest : List STTInput} (encoding : String) (sampleRate : Option Nat)
      (hnone : s.recognition = none) (haudio : s.sttIn = first :: rest) (hspeech : first.endOfUtterance = false) :
      Hears s { s with sttIn := rest, recognition := some ⟨first.owner, encoding, sampleRate, [first], true⟩ }
  | ended {r : Recognition} {piece : STTInput} {rest : List STTInput} (hsome : s.recognition = some r)
      (haudio : s.sttIn = piece :: rest) (hlive : r.live = true) :
      Hears s { s with sttIn := rest, recognition := some { r with live := false } }
  | skipped {r : Recognition} {piece : STTInput} {rest : List STTInput} (hsome : s.recognition = some r)
      (haudio : s.sttIn = piece :: rest) (hlive : r.live = true)
      (hskip : s.ingressIsRevoked piece.owner.ingressIdentity = true ∨
        piece.owner.ingressIdentity ≠ r.owner.ingressIdentity) : Hears s { s with sttIn := rest }
  | heard {r : Recognition} {piece : STTInput} {rest : List STTInput} (hsome : s.recognition = some r)
      (haudio : s.sttIn = piece :: rest) (hlive : r.live = true) (hspeech : piece.endOfUtterance = false)
      (hkept : ¬ s.ingressIsRevoked piece.owner.ingressIdentity = true)
      (hsame : piece.owner.ingressIdentity = r.owner.ingressIdentity) :
      Hears s { s with sttIn := rest, recognition := some { r with heard := r.heard ++ [piece] } }
  | closed : Hears s { s with recognition := none }
  | interim (frames : List Frame) : Hears s { s with outbound := frames }
  | final {r : Recognition} (hsome : s.recognition = some r) (frames : List Frame) (text : String) :
      Hears s { s with
        outbound := frames
        inbound := s.inbound ++ [⟨.textFinal text .stt [] none, r.owner, r.heard⟩] }

theorem listen_cases (hstep : s.listen = some s') : s.pumpRuns = true ∧ Hears s s' := by
  unfold StreamSession.listen at hstep
  split at hstep
  · rename_i first rest hnone haudio
    split at hstep
    · rename_i hruns
      refine ⟨hruns, ?_⟩
      dsimp only at hstep
      split at hstep
      · cases hstep
        exact .passed hnone haudio
      · rename_i hheard
        rw [Bool.or_eq_true, not_or] at hheard
        cases hstep
        exact .opened _ _ hnone haudio (Bool.eq_false_iff.mpr hheard.1)
    · cases hstep
  · cases hstep

theorem pull_cases (hstep : s.pull = some s') : s.pumpRuns = true ∧ Hears s s' := by
  unfold StreamSession.pull at hstep
  split at hstep
  · rename_i r piece rest hsome haudio
    split at hstep
    · rename_i hruns
      obtain ⟨hruns, hlive⟩ := Bool.and_eq_true_iff.mp hruns
      refine ⟨hruns, ?_⟩
      dsimp only at hstep
      split at hstep
      · cases hstep
        exact .ended hsome haudio hlive
      rename_i hspeech
      split at hstep
      · rename_i hrevoked
        cases hstep
        exact .skipped hsome haudio hlive (.inl hrevoked)
      rename_i hkept
      split at hstep
      · rename_i hother
        cases hstep
        exact .skipped hsome haudio hlive (.inr hother)
      · rename_i hsame
        cases hstep
        exact .heard hsome haudio hlive (Bool.eq_false_iff.mpr hspeech) hkept (not_not.mp hsame)
    · cases hstep
  · cases hstep

theorem recognise_cases {text : String} {final : Bool} (hstep : s.recognise text final = some s') :
    s.pumpRuns = true ∧ Hears s s' := by
  unfold StreamSession.recognise at hstep
  split at hstep
  · rename_i r hsome
    split at hstep
    · rename_i hruns
      refine ⟨hruns, ?_⟩
      dsimp only at hstep
      split at hstep
      · cases hstep
        exact .closed
      split at hstep
      · split at hstep
        · cases hstep
          exact .interim s.outbound
        · cases hstep
          exact .final hsome _ _
      · split at hstep
        · cases hstep
          exact .interim s.outbound
        · cases hstep
          exact .interim _
    · cases hstep
  · cases hstep

theorem hears_cases (he : e.hears = true) (hstep : step settings s e = some s') :
    s.pumpRuns = true ∧ Hears s s' := by
  cases e with
  | listen => exact listen_cases hstep
  | pull => exact pull_cases hstep
  | recognise text final => exact recognise_cases hstep
  | recognised =>
    replace hstep : s.recognised = some s' := hstep
    unfold StreamSession.recognised at hstep
    split at hstep
    · split at hstep
      · rename_i hruns
        cases hstep
        exact ⟨hruns, .closed⟩
      · cases hstep
    · cases hstep
  | _ => cases he

theorem hears_eq (he : e.hears = true) (hstep : step settings s e = some s') :
    ∃ recognition audio frames queued, s' = { s with
      recognition := recognition, sttIn := audio, outbound := frames, inbound := queued } := by
  obtain ⟨-, h⟩ := hears_cases he hstep
  cases h <;> exact ⟨_, _, _, _, rfl⟩

theorem publish_eq (s : StreamSession) (j : Nat) (t : Turn) (kind : FrameKind) :
    ∃ frames, s.publish j t kind = { s with outbound := frames } := by
  unfold StreamSession.publish
  split <;> exact ⟨_, rfl⟩

theorem set_of_getElem? {α : Type} {xs : List α} {j : Nat} {x : α} (h : xs[j]? = some x) :
    xs.set j x = xs := by
  obtain ⟨hj, rfl⟩ := List.getElem?_eq_some_iff.mp h
  exact set_getElem_self hj

theorem not_over_of_phase {t : Turn} {phase : Phase} (h : t.phase = phase) (hdone : phase ≠ .done)
    (hrefused : phase ≠ .refused) : ¬ t.over = true := by
  rw [Turn.over, h]
  simp [hdone, hrefused]

theorem runnerStep_eq {j : Nat} {t : Turn} {move : Move} (ht : s.turns[j]? = some t)
    (hstep : s.runnerStep j t move = some s') : ∃ t' started frames, t'.charge = t.charge ∧
      (t.over = true → t'.over = true) ∧
      s' = { s with turns := s.turns.set j t', currentTurnStarted := started, outbound := frames } := by
  unfold StreamSession.runnerStep at hstep
  cases move with
  | start | hand | finish =>
    dsimp only at hstep
    split at hstep
    · rename_i hcond
      refine ⟨_, _, _, ?_, ?_, (some.inj hstep).symm⟩
      · rfl
      · exact fun hover => absurd hover (not_over_of_phase hcond.1 (by decide) (by decide))
    · cases hstep
  | swallow =>
    dsimp only at hstep
    split at hstep
    · refine ⟨_, _, _, ?_, ?_, (some.inj hstep).symm⟩
      · rfl
      · exact fun hover => hover
    · cases hstep
  | fail | exit =>
    dsimp only at hstep
    split at hstep
    · refine ⟨_, _, _, ?_, ?_, (some.inj hstep).symm⟩
      · rfl
      · exact fun _ => rfl
    · cases hstep
  | event visible =>
    dsimp only at hstep
    split at hstep
    · have hs' := (some.inj hstep).symm
      split at hs'
      · obtain ⟨frames, hframes⟩ := publish_eq { s.setTurn j { t with engaged := true } with
          currentTurnStarted := s.currentTurnStarted || s.currentTurn = some j } j t .textDelta
        refine ⟨_, _, frames, ?_, ?_, hs'.trans hframes⟩
        · rfl
        · exact fun hover => hover
      · refine ⟨_, _, _, ?_, ?_, hs'⟩
        · rfl
        · exact fun hover => hover
    · cases hstep
  | notice =>
    dsimp only at hstep
    split at hstep
    · obtain ⟨frames, hframes⟩ := publish_eq s j t .notice
      refine ⟨t, s.currentTurnStarted, frames, rfl, fun hover => hover, ?_⟩
      rw [← some.inj hstep, hframes, set_of_getElem? ht]
    · cases hstep
  | interrupted =>
    dsimp only at hstep
    split at hstep
    · rename_i hcond
      split at hstep
      · refine ⟨_, _, _, ?_, ?_, (some.inj hstep).symm⟩
        · rfl
        · exact fun hover => absurd hover (by simp [hcond.2])
      · refine ⟨_, _, _, ?_, ?_, (some.inj hstep).symm⟩
        · rfl
        · exact fun _ => rfl
    · cases hstep
  | answer =>
    dsimp only at hstep
    split at hstep
    · rename_i hcond
      obtain ⟨frames, hframes⟩ := publish_eq (s.setTurn j { t with phase := .answered }) j t .textFinal
      refine ⟨_, _, frames, ?_, ?_, (some.inj hstep).symm.trans hframes⟩
      · rfl
      · exact fun hover => absurd hover (not_over_of_phase hcond.1 (by decide) (by decide))
    · cases hstep
  | report =>
    dsimp only at hstep
    split at hstep
    · split at hstep
      · rename_i error _ _
        obtain ⟨frames, hframes⟩ := publish_eq s j t (.error error)
        refine ⟨t, s.currentTurnStarted, frames, rfl, fun hover => hover, ?_⟩
        rw [← some.inj hstep, hframes, set_of_getElem? ht]
      · cases hstep
    · cases hstep
  | complete blank =>
    dsimp only at hstep
    split at hstep
    · rename_i hcond
      obtain ⟨frames, hframes⟩ := publish_eq (s.setTurn j { t with phase := .completed }) j t
        (StreamSession.turnComplete t blank)
      refine ⟨_, _, frames, ?_, ?_, (some.inj hstep).symm.trans hframes⟩
      · rfl
      · exact fun hover => absurd hover (not_over_of_phase hcond.1 (by decide) (by decide))
    · cases hstep

theorem audioData_eq (s : StreamSession) (owner : Owner) (data : List UInt8) (encoding : String)
    (sampleRate : Nat) : ∃ number utterance audio, s.audioData owner data encoding sampleRate =
      { s with sttUtterance := utterance, utterances := number, sttIn := audio } := by
  unfold StreamSession.audioData
  split
  · exact ⟨_, _, _, rfl⟩
  · split
    · exact ⟨_, _, _, rfl⟩
    · split <;> exact ⟨_, _, _, rfl⟩

theorem audioEnd_eq (s : StreamSession) (owner : Owner) : ∃ utterance audio,
    s.audioEnd owner = { s with sttUtterance := utterance, sttIn := audio } := by
  unfold StreamSession.audioEnd
  split
  · exact ⟨_, _, rfl⟩
  · split <;> exact ⟨_, _, rfl⟩

theorem lock_of_lockFree (h : s.lockFree = true) : s.lock = none := by
  rw [StreamSession.lockFree, Bool.and_eq_true] at h
  exact Option.isNone_iff_eq_none.mp h.1

theorem take_cases (hstep : s.take settings = some s') : ∃ q rest, s.inbound = q :: rest ∧
    s.dispatching = false ∧ ((s.ingressIsRevoked q.ingress = true ∧ s' = { s with inbound := rest }) ∨
      (s.ingressIsRevoked q.ingress = false ∧
        s' = StreamSession.dispatch settings { s with inbound := rest } q)) := by
  unfold StreamSession.take at hstep
  split at hstep
  · cases hstep
  · rename_i q rest hinbound
    split at hstep
    · cases hstep
    · rename_i hidle
      refine ⟨q, rest, hinbound, by simpa using hidle, ?_⟩
      dsimp only at hstep
      split at hstep
      · rename_i hrevoked
        exact .inl ⟨hrevoked, (some.inj hstep).symm⟩
      · rename_i hkept
        exact .inr ⟨Bool.eq_false_iff.mpr hkept, (some.inj hstep).symm⟩

/-! ### Coming to the lock -/

def StreamSession.barrier (s : StreamSession) (deviceId : String) (epoch : Nat) : StreamSession :=
  { s with revokedIngressEpochs := s.revokedIngressEpochs.set deviceId epoch }

/-- What whoever gets the lock does under it. -/
def StreamSession.enter (settings : Settings) (s : StreamSession) : Waiter → StreamSession
  | .text m => s.onUserTurnComplete settings m
  | .interrupt reason => s.interrupt reason
  | .burstDrain => s.drainBurst
  | .revocation deviceId epoch => s.revokeIngressDevice deviceId epoch

inductive Event.Says : Event → String → TextSource → List Attachment → Option String → Prop
  | delta {text : String} {final : Bool} (h : final = true ∧ text ≠ "") :
      Says (.textDelta text final) text .userTyped [] none
  | final (text : String) (source : TextSource) (attachments : List Attachment) (author : Option String) :
      Says (.textFinal text source attachments author) text source attachments author

/-- Someone comes to the lock, with what changes on the way. -/
inductive Comes (s : StreamSession) : Step → Waiter → StreamSession → Prop
  | text {q : Queued} {rest : List Queued} {text : String} {source : TextSource} {attachments : List Attachment}
      {author : Option String} (hinbound : s.inbound = q :: rest)
      (hkept : s.ingressIsRevoked q.owner.ingressIdentity = false)
      (hevent : q.event.Says text source attachments author) (serial : Nat) :
      Comes s .take
        (.text ⟨text, source, attachments.map (⟨q.owner, ·⟩), author, q.owner,
          [⟨serial, text, author, q.owner, q.speech⟩]⟩)
        (StreamSession.recordText { s with inbound := rest } ⟨serial, text, author, q.owner, q.speech⟩ attachments)
  | interrupt {q : Queued} {rest : List Queued} (hinbound : s.inbound = q :: rest) (reason : String) :
      Comes s .take (.interrupt reason) { s with inbound := rest }
  | timer : Comes s .timer .burstDrain { s with burstTimer := some .waiting }
  | revoke (deviceId : String) (asked : Option Nat) :
      Comes s (.revoke deviceId asked) (.revocation deviceId (s.revocationEpoch deviceId asked))
        (s.barrier deviceId (s.revocationEpoch deviceId asked))

/-- An inbound event is taken, or someone comes to the lock or is let in. -/
inductive Approaches (settings : Settings) (s : StreamSession) : Step → StreamSession → Prop
  | dropped {q : Queued} {rest : List Queued} (hinbound : s.inbound = q :: rest) :
      Approaches settings s .take { s with inbound := rest }
  | spoken {q : Queued} {rest : List Queued} {data : List UInt8} {endOfSpeech : Bool} {encoding : String}
      {sampleRate : Nat} (hinbound : s.inbound = q :: rest)
      (hkept : s.ingressIsRevoked q.owner.ingressIdentity = false)
      (hevent : q.event = .audioChunk data endOfSpeech encoding sampleRate) :
      Approaches settings s .take
        (if endOfSpeech then
          (StreamSession.audioData { s with inbound := rest } q.owner data encoding sampleRate).audioEnd q.owner
        else StreamSession.audioData { s with inbound := rest } q.owner data encoding sampleRate)
  | filmed {q : Queued} {rest : List Queued} (hinbound : s.inbound = q :: rest)
      (hkept : s.ingressIsRevoked q.owner.ingressIdentity = false) (stream : String) (imageBytes : List UInt8) :
      Approaches settings s .take
        { s with
          inbound := rest
          videoBuffers := s.videoBuffers.set (q.owner.ingressIdentity, stream) ⟨imageBytes, q.owner⟩ }
  | attached {q : Queued} {rest : List Queued} (hinbound : s.inbound = q :: rest)
      (hkept : s.ingressIsRevoked q.owner.ingressIdentity = false) (a : Attachment) :
      Approaches settings s .take
        { s with inbound := rest, pendingAttachments := s.pendingAttachments ++ [⟨q.owner, a⟩] }
  | told {q : Queued} {rest : List Queued} (hinbound : s.inbound = q :: rest) (frames : List Frame) :
      Approaches settings s .take { s with inbound := rest, outbound := frames }
  | waits {e : Step} {w : Waiter} {t : StreamSession} (h : Comes s e w t) (hbusy : s.lockFree = false) :
      Approaches settings s e { t with waiters := t.waiters ++ [w] }
  | enters {e : Step} {w : Waiter} {t : StreamSession} (h : Comes s e w t) (hfree : s.lockFree = true) :
      Approaches settings s e (t.enter settings w)
  | granted {w : Waiter} {rest : List Waiter} (hlock : s.lock = none) (hwaiters : s.waiters = w :: rest) :
      Approaches settings s .grant (StreamSession.enter settings { s with waiters := rest } w)

def Step.approaches : Step → Bool
  | .take | .grant | .timer | .revoke _ _ => true
  | _ => false

theorem approaches_comes {w : Waiter} (h : Comes s e w t) : Approaches settings s e
    (if s.lockFree then t.enter settings w else { t with waiters := t.waiters ++ [w] }) := by
  cases hfree : s.lockFree with
  | true => exact .enters h hfree
  | false => exact .waits h hfree

theorem approaches_dispatch {q : Queued} {rest : List Queued} (hinbound : s.inbound = q :: rest)
    (hkept : s.ingressIsRevoked q.ingress = false) :
    Approaches settings s .take (StreamSession.dispatch settings { s with inbound := rest } q) := by
  have htext : ∀ {text source attachments author}, q.event.Says text source attachments author →
      s.ingressIsRevoked q.owner.ingressIdentity = false → Approaches settings s .take
        (StreamSession.takeText settings { s with inbound := rest } q text source attachments author) :=
    fun hsays howner => approaches_comes (.text hinbound howner hsays s.taken.length)
  obtain ⟨event, owner, speech⟩ := q
  unfold StreamSession.dispatch
  cases event with
  | audioChunk data endOfSpeech encoding sampleRate =>
    dsimp only
    split
    · exact .spoken hinbound hkept rfl
    · exact .dropped hinbound
  | videoFrame stream imageBytes => exact .filmed hinbound hkept stream imageBytes
  | textDelta text final =>
    dsimp only
    split
    · rename_i hfinal
      exact htext (.delta hfinal) hkept
    · exact .dropped hinbound
  | textFinal text source attachments author => exact htext (.final text source attachments author) hkept
  | attachment a allowed =>
    dsimp only
    split
    · exact .told hinbound _
    · exact .attached hinbound hkept a
  | interrupt reason => exact approaches_comes (.interrupt hinbound reason)
  | sessionOpen => exact .dropped hinbound

theorem approaches_step (he : e.approaches = true) (hstep : step settings s e = some s') :
    Approaches settings s e s' := by
  cases e with
  | take =>
    obtain ⟨q, rest, hinbound, -, ⟨-, rfl⟩ | ⟨hkept, rfl⟩⟩ := take_cases hstep
    · exact .dropped hinbound
    · exact approaches_dispatch hinbound hkept
  | grant =>
    replace hstep : s.grant settings = some s' := hstep
    unfold StreamSession.grant at hstep
    split at hstep
    · rename_i w rest hlock hwaiters
      cases w with
      | text | interrupt | burstDrain | revocation =>
        rw [← some.inj hstep]
        exact .granted hlock hwaiters
    · cases hstep
  | timer =>
    replace hstep : s.timerFires = some s' := hstep
    unfold StreamSession.timerFires at hstep
    split at hstep
    · have hcomes := @approaches_comes settings s _ _ _ .timer
      split at hstep
      · rename_i hfree
        rw [if_pos hfree] at hcomes
        rwa [← some.inj hstep]
      · rename_i hbusy
        rw [if_neg hbusy] at hcomes
        rwa [← some.inj hstep]
    · cases hstep
  | revoke deviceId epoch =>
    rw [← some.inj hstep]
    exact approaches_comes (.revoke deviceId epoch)
  | _ => cases he

theorem spoken_eq (s : StreamSession) (owner : Owner) (data : List UInt8) (endOfSpeech : Bool) (encoding : String)
    (sampleRate : Nat) : ∃ number utterance audio,
      (if endOfSpeech then (s.audioData owner data encoding sampleRate).audioEnd owner
        else s.audioData owner data encoding sampleRate) =
      { s with sttUtterance := utterance, utterances := number, sttIn := audio } := by
  obtain ⟨number, utterance, audio, hdata⟩ := audioData_eq s owner data encoding sampleRate
  split
  · obtain ⟨closed, ended, hend⟩ := audioEnd_eq (s.audioData owner data encoding sampleRate) owner
    rw [hend, hdata]
    exact ⟨_, _, _, rfl⟩
  · exact ⟨_, _, _, hdata⟩

theorem of_spoken {p : StreamSession → Prop} {owner : Owner} {data : List UInt8} {endOfSpeech : Bool}
    {encoding : String} {sampleRate : Nat}
    (h : ∀ number utterance audio, p { s with sttUtterance := utterance, utterances := number, sttIn := audio }) :
    p (if endOfSpeech then (s.audioData owner data encoding sampleRate).audioEnd owner
      else s.audioData owner data encoding sampleRate) := by
  obtain ⟨number, utterance, audio, heq⟩ := spoken_eq s owner data endOfSpeech encoding sampleRate
  rw [heq]
  exact h number utterance audio

def StreamSession.silenced (s : StreamSession) (deviceId : String) (epoch : Nat) : StreamSession :=
  { s with
    recognition := none
    sttIn := s.sttIn.filter fun i => !isRevokedOwner deviceId epoch i.owner.ingressIdentity }

theorem pumpStopped_cases (hstep : s.pumpStopped = some s') : ∃ deviceId epoch rest,
    s.lock = some ⟨.revocation deviceId epoch, .pump, rest⟩ ∧
    s' = (s.silenced deviceId epoch).revokeTurn deviceId epoch := by
  unfold StreamSession.pumpStopped at hstep
  split at hstep
  · rename_i deviceId epoch rest hlock
    exact ⟨deviceId, epoch, rest, hlock, (some.inj hstep).symm⟩
  · cases hstep

theorem lock_comes {w : Waiter} (h : Comes s e w t) : t.lock = s.lock := by
  cases h <;> rfl

/-- Whoever is no revocation keeps what a holder of the lock keeps. -/
theorem enter_cases (hlock : s.lock = none) (w : Waiter) :
    (∃ caller, (∀ deviceId epoch, caller ≠ .revocation deviceId epoch) ∧ Keeps caller s (s.enter settings w)) ∨
      ∃ deviceId epoch, w = .revocation deviceId epoch := by
  cases w with
  | text m => exact .inl ⟨.dispatchLoop, (nofun), keeps_onUserTurnComplete s m⟩
  | interrupt reason => exact .inl ⟨.dispatchLoop, (nofun), keeps_interrupt hlock reason⟩
  | burstDrain => exact .inl ⟨.burstDrain, (nofun), keeps_drainBurst hlock⟩
  | revocation deviceId epoch => exact .inr ⟨deviceId, epoch, rfl⟩

theorem revokeIngressDevice_cases (s : StreamSession) (deviceId : String) (epoch : Nat) :
    (∃ u, s.sttUtterance = some u ∧ isRevokedOwner deviceId epoch u.owner.ingressIdentity = true ∧
      s.revokeIngressDevice deviceId epoch = { s.dropRevoked deviceId epoch with
        sttUtterance := none, lock := some ⟨.revocation deviceId epoch, .pump, []⟩ }) ∨
      s.revokeIngressDevice deviceId epoch = (s.dropRevoked deviceId epoch).revokeTurn deviceId epoch := by
  unfold StreamSession.revokeIngressDevice
  dsimp only
  split
  · rename_i hrevoked
    rw [(kept_dropRevoked s deviceId epoch).sttUtterance, Option.any_eq_true] at hrevoked
    obtain ⟨u, hopen, howner⟩ := hrevoked
    exact .inl ⟨u, hopen, howner, rfl⟩
  · exact .inr rfl

/-! ### What turns are started with -/

theorem stays_enter (hlock : s.lock = none) (w : Waiter) :
    Stays s.turns (s.enter settings w).turns s.currentTurn (s.enter settings w).currentTurn := by
  obtain ⟨caller, -, hkeeps⟩ | ⟨deviceId, epoch, rfl⟩ := @enter_cases settings s hlock w
  · exact hkeeps.toStays
  · rw [StreamSession.enter]
    obtain ⟨-, -, -, heq⟩ | heq := revokeIngressDevice_cases s deviceId epoch
    · rw [heq]
      exact (kept_dropRevoked s deviceId epoch).toStays
    · rw [heq]
      exact ((kept_dropRevoked s deviceId epoch).keeps (keeps_revokeTurn _ _ _)).toStays

theorem stays_approaches (h : Approaches settings s e s') :
    Stays s.turns s'.turns s.currentTurn s'.currentTurn := by
  have hsame : Stays s.turns s.turns s.currentTurn s.currentTurn := ⟨⟨rfl, .refl _⟩, rfl⟩
  have hcomes : ∀ {w t}, Comes s e w t → t.turns = s.turns ∧ t.currentTurn = s.currentTurn := by
    rintro w t ⟨⟩ <;> exact ⟨rfl, rfl⟩
  cases h with
  | dropped | filmed | attached | told => exact hsame
  | spoken => exact of_spoken (p := fun s' => Stays s.turns s'.turns s.currentTurn s'.currentTurn) fun _ _ _ => hsame
  | waits h =>
    dsimp only
    rw [(hcomes h).1, (hcomes h).2]
    exact hsame
  | enters h hfree =>
    rw [← (hcomes h).1, ← (hcomes h).2]
    exact stays_enter ((lock_comes h).trans (lock_of_lockFree hfree)) _
  | @granted w rest hlock hwaiters => exact stays_enter (s := { s with waiters := rest }) hlock w

theorem map_charge_set {turns : List Turn} {j : Nat} {t t' : Turn} (ht : turns[j]? = some t)
    (hcharge : t'.charge = t.charge) : (turns.set j t').map Turn.charge = turns.map Turn.charge := by
  rw [map_set, hcharge]
  apply set_of_getElem?
  rw [getElem?_map, ht]
  rfl

/-- The steps that neither take an inbound event nor touch the lock. -/
def Step.away : Step → Bool
  | .push _ _ | .journaled _ | .runner _ _ | .listen | .pull | .recognise _ _ | .recognised => true
  | _ => false

theorem away_eq (he : e.away = true) (hstep : step settings s e = some s') :
    ∃ waiting queued audio recognition turns started frames, Grown s.turns turns ∧ s' = { s with
      journaling := waiting, inbound := queued, sttIn := audio, recognition := recognition, turns := turns,
      currentTurnStarted := started, outbound := frames } := by
  have hgrown : Grown s.turns s.turns := ⟨rfl, .refl _⟩
  cases e with
  | push event owner =>
    obtain ⟨queued, waiting, heq⟩ := pushIn_eq s { event, owner }
    rw [← some.inj hstep, heq]
    exact ⟨_, _, _, _, _, _, _, hgrown, rfl⟩
  | journaled k =>
    obtain ⟨queued, waiting, rfl⟩ := journaled_eq hstep
    exact ⟨_, _, _, _, _, _, _, hgrown, rfl⟩
  | runner j move =>
    rw [Session.step] at hstep
    split at hstep
    · rename_i turn hturn
      obtain ⟨t', started, frames, hcharge, hover, rfl⟩ := runnerStep_eq hturn hstep
      exact ⟨_, _, _, _, _, _, _, ⟨map_charge_set hturn hcharge, descends_set hturn hcharge hover⟩, rfl⟩
    · cases hstep
  | listen | pull | recognise | recognised =>
    obtain ⟨recognition, audio, frames, queued, rfl⟩ := hears_eq rfl hstep
    exact ⟨_, _, _, _, _, _, _, hgrown, rfl⟩
  | _ => cases he

theorem stays_step (hstep : step settings s e = some s') (he : ∀ error, e ≠ .hooked error)
    (hresumes : e.resumes = false) :
    Stays s.turns s'.turns s.currentTurn s'.currentTurn := by
  cases e with
  | push | journaled | runner | listen | pull | recognise | recognised =>
    obtain ⟨_, _, _, _, _, _, _, hgrown, rfl⟩ := away_eq rfl hstep
    exact ⟨hgrown, rfl⟩
  | take | grant | timer | revoke => exact stays_approaches (approaches_step rfl hstep)
  | requestAnswered | drained | expired => cases hresumes
  | hooked error => exact absurd rfl (he error)
  | pumpStopped =>
    obtain ⟨deviceId, epoch, _, -, rfl⟩ := pumpStopped_cases hstep
    exact (keeps_revokeTurn (s.silenced deviceId epoch) deviceId epoch).toStays

theorem grown_step (hstep : step settings s e = some s') (he : ∀ error, e ≠ .hooked error) :
    Grown s.turns s'.turns := by
  by_cases hresumes : e.resumes = true
  · obtain ⟨-, -, -, hgrown, -⟩ := frames_resumed hresumes hstep
    exact hgrown
  · exact (stays_step hstep he (Bool.eq_false_iff.mpr hresumes)).toGrown

/-! ### The barriers -/

def StreamSession.Bars (s : StreamSession) (deviceId : String) (epoch : Nat) : Prop :=
  ∃ blocked, s.revokedIngressEpochs.get? deviceId = some blocked ∧ epoch ≤ blocked

structure Barred (s : StreamSession) : Prop where
  waiters : ∀ deviceId epoch, .revocation deviceId epoch ∈ s.waiters → s.Bars deviceId epoch
  lock : ∀ h deviceId epoch, s.lock = some h → h.caller = .revocation deviceId epoch →
    s.Bars deviceId epoch
  returned : ∀ r ∈ s.returned, s.Bars r.1 r.2

theorem revoked_of_bars {deviceId : String} {epoch : Nat} {ingress : Option Ingress}
    (hbars : s.Bars deviceId epoch) (howner : isRevokedOwner deviceId epoch ingress = true) :
    s.ingressIsRevoked ingress = true := by
  obtain ⟨blocked, hblocked, hle⟩ := hbars
  rw [isRevokedOwner, Bool.and_eq_true] at howner
  have hdevice : ingressDeviceId ingress = some deviceId := by simpa using howner.1
  have hepoch : ingressAuthEpoch ingress < epoch := by simpa using howner.2
  rw [StreamSession.ingressIsRevoked, hdevice]
  dsimp only
  rw [hblocked]
  exact decide_eq_true (hepoch.trans_le hle)

theorem Barred.frames (h : Barred s) (hframes : Frames s s')
    (hlock : ∀ holder, s'.lock = some holder → holder.caller = caller)
    (hreturned : s'.returned = s.returned ∨ (s'.lock = none ∧ ∃ deviceId epoch,
      caller = .revocation deviceId epoch ∧ s'.returned = s.returned ++ [(deviceId, epoch)]))
    (hcaller : ∀ deviceId epoch, caller = .revocation deviceId epoch → s.Bars deviceId epoch) :
    Barred s' where
  waiters deviceId epoch hw := by
    rw [StreamSession.Bars, hframes.barriers]
    exact h.waiters deviceId epoch (hframes.waiters.subset hw)
  lock holder deviceId epoch hsome heq := by
    rw [StreamSession.Bars, hframes.barriers]
    exact hcaller deviceId epoch ((hlock holder hsome).symm.trans heq)
  returned r hr := by
    rw [StreamSession.Bars, hframes.barriers]
    obtain hsame | ⟨-, deviceId, epoch, heq, hmore⟩ := hreturned
    · exact h.returned r (hsame ▸ hr)
    · rw [hmore] at hr
      rcases List.mem_append.mp hr with hold | hnew
      · exact h.returned r hold
      · rw [List.mem_singleton.mp hnew]
        exact hcaller deviceId epoch heq

theorem Barred.keeps (h : Barred s) (hkeeps : Keeps caller s s')
    (hcaller : ∀ deviceId epoch, caller = .revocation deviceId epoch → s.Bars deviceId epoch) :
    Barred s' := h.frames hkeeps.toFrames hkeeps.lock hkeeps.returned hcaller

theorem Barred.of_eq (h : Barred s) (hbarriers : s'.revokedIngressEpochs = s.revokedIngressEpochs)
    (hwaiters : s'.waiters = s.waiters) (hlock : s'.lock = s.lock) (hreturned : s'.returned = s.returned) :
    Barred s' where
  waiters deviceId epoch hw := by
    rw [StreamSession.Bars, hbarriers]
    exact h.waiters deviceId epoch (hwaiters ▸ hw)
  lock holder deviceId epoch hsome heq := by
    rw [StreamSession.Bars, hbarriers]
    exact h.lock holder deviceId epoch (hlock ▸ hsome) heq
  returned r hr := by
    rw [StreamSession.Bars, hbarriers]
    exact h.returned r (hreturned ▸ hr)

theorem Barred.wait (h : Barred s) {w : Waiter}
    (hw : ∀ deviceId epoch, w = .revocation deviceId epoch → s.Bars deviceId epoch) :
    Barred { s with waiters := s.waiters ++ [w] } where
  waiters deviceId epoch hmem := by
    rcases List.mem_append.mp hmem with hold | hnew
    · exact h.waiters deviceId epoch hold
    · exact hw deviceId epoch (List.mem_singleton.mp hnew).symm
  lock := h.lock
  returned := h.returned

theorem Barred.revokeIngressDevice (h : Barred s) {deviceId : String} {epoch : Nat}
    (hbars : s.Bars deviceId epoch) : Barred (s.revokeIngressDevice deviceId epoch) := by
  have hcaller : ∀ d e, Caller.revocation deviceId epoch = .revocation d e → s.Bars d e := by
    intro d e heq
    cases heq
    exact hbars
  have hdropped := kept_dropRevoked s deviceId epoch
  obtain ⟨-, -, -, heq⟩ | heq := revokeIngressDevice_cases s deviceId epoch
  · rw [heq]
    refine ⟨?_, ?_, ?_⟩
    · intro d e hw
      rw [StreamSession.Bars, hdropped.barriers]
      exact h.waiters d e (hdropped.waiters.subset hw)
    · intro holder d e hsome heq
      rw [← some.inj hsome] at heq
      rw [StreamSession.Bars, hdropped.barriers]
      exact hcaller d e heq
    · intro r hr
      rw [StreamSession.Bars, hdropped.barriers]
      exact h.returned r (hdropped.returned ▸ hr)
  · rw [heq]
    exact h.keeps (hdropped.keeps (keeps_revokeTurn _ _ _)) hcaller

theorem Barred.enter (h : Barred s) (hlock : s.lock = none) {w : Waiter}
    (hw : ∀ deviceId epoch, w = .revocation deviceId epoch → s.Bars deviceId epoch) :
    Barred (s.enter settings w) := by
  obtain ⟨caller, hcaller, hkeeps⟩ | ⟨deviceId, epoch, rfl⟩ := @enter_cases settings s hlock w
  · exact h.keeps hkeeps fun d e heq => absurd heq (hcaller d e)
  · exact h.revokeIngressDevice (hw deviceId epoch rfl)

theorem le_revocationEpoch (s : StreamSession) (deviceId : String) (epoch : Option Nat) {blocked : Nat}
    (h : s.revokedIngressEpochs.get? deviceId = some blocked) :
    blocked ≤ s.revocationEpoch deviceId epoch := by
  unfold StreamSession.revocationEpoch
  simp only [h, getD_some]
  split <;> exact le_max_left _ _

theorem bars_barrier {d deviceId : String} {e : Nat} (epoch : Option Nat) (h : s.Bars d e) :
    (s.barrier deviceId (s.revocationEpoch deviceId epoch)).Bars d e := by
  obtain ⟨blocked, hblocked, hle⟩ := h
  rw [StreamSession.Bars, StreamSession.barrier]
  by_cases heq : d = deviceId
  · subst heq
    exact ⟨_, Dict.get?_set_self _ _ _, hle.trans (le_revocationEpoch s d epoch hblocked)⟩
  · refine ⟨blocked, ?_, hle⟩
    rw [Dict.get?_set_ne _ _ heq]
    exact hblocked

theorem Barred.barrier (h : Barred s) (deviceId : String) (epoch : Option Nat) :
    Barred (s.barrier deviceId (s.revocationEpoch deviceId epoch)) where
  waiters d e hw := bars_barrier epoch (h.waiters d e hw)
  lock holder d e hlock hcaller := bars_barrier epoch (h.lock holder d e hlock hcaller)
  returned r hr := bars_barrier epoch (h.returned r hr)

theorem bars_self (s : StreamSession) (deviceId : String) (epoch : Nat) :
    (s.barrier deviceId epoch).Bars deviceId epoch := ⟨epoch, Dict.get?_set_self _ _ _, le_rfl⟩

theorem Barred.comes (h : Barred s) {w : Waiter} (hcomes : Comes s e w t) :
    Barred t ∧ ∀ d e, w = .revocation d e → t.Bars d e := by
  cases hcomes with
  | text | interrupt | timer => exact ⟨h.of_eq rfl rfl rfl rfl, nofun⟩
  | revoke deviceId asked =>
    refine ⟨h.barrier deviceId asked, ?_⟩
    intro d e heq
    cases heq
    exact bars_self s deviceId _

theorem Barred.approaches (h : Barred s) (happroaches : Approaches settings s e s') : Barred s' := by
  cases happroaches with
  | dropped | filmed | attached | told => exact h.of_eq rfl rfl rfl rfl
  | spoken => exact of_spoken (p := Barred) fun _ _ _ => h.of_eq rfl rfl rfl rfl
  | waits hcomes => exact (h.comes hcomes).1.wait (h.comes hcomes).2
  | enters hcomes hfree =>
    exact (h.comes hcomes).1.enter ((lock_comes hcomes).trans (lock_of_lockFree hfree)) (h.comes hcomes).2
  | @granted w rest hlock hwaiters =>
    have hgranted : Barred { s with waiters := rest } :=
      ⟨fun d e hw => h.waiters d e (hwaiters ▸ .tail w hw), h.lock, h.returned⟩
    refine hgranted.enter hlock ?_
    rintro deviceId epoch rfl
    exact h.waiters deviceId epoch (hwaiters ▸ mem_cons_self)

theorem Barred.step (h : Barred s) (hstep : step settings s e = some s') : Barred s' := by
  cases e with
  | push | journaled | runner | listen | pull | recognise | recognised =>
    obtain ⟨_, _, _, _, _, _, _, -, rfl⟩ := away_eq rfl hstep
    exact h.of_eq rfl rfl rfl rfl
  | take | grant | timer | revoke => exact h.approaches (approaches_step rfl hstep)
  | requestAnswered | drained | expired =>
    obtain ⟨holder, hlock, hframes, -, hcaller, hreturned⟩ := frames_resumed rfl hstep
    exact h.frames hframes hcaller hreturned fun d e heq => h.lock holder d e hlock heq
  | hooked error =>
    obtain ⟨holder, -, hlock, -, hframes, hcaller, hreturned⟩ := frames_hooked hstep
    exact h.frames hframes hcaller hreturned fun d e heq => h.lock holder d e hlock heq
  | pumpStopped =>
    obtain ⟨deviceId, epoch, _, hlock, rfl⟩ := pumpStopped_cases hstep
    refine Barred.keeps ?_ (keeps_revokeTurn _ deviceId epoch) ?_
    · exact h.of_eq rfl rfl rfl rfl
    · intro d e heq
      exact h.lock _ d e hlock heq

/-! ### Two connections -/

def laptop : Owner := ⟨none, some { deviceId := "laptop", connectionId := "c1" }⟩

def phone : Owner := ⟨none, some { deviceId := "phone", connectionId := "c2" }⟩

def types (owner : Owner) (text : String) : List Step :=
  [.push (.textFinal text .userTyped [] none) owner, .journaled 0, .take]

end OpenAgent.Session
