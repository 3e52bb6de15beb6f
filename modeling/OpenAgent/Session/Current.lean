import OpenAgent.Session.Lock

/-!
# The current turn and the lock

Whoever holds the lock cancels the current turn or starts one while none is running, and a revocation only
ever cancels a turn of its device. So as long as no turn outlives its cancellation, the current turn is the
only one that is not over.
-/

namespace OpenAgent.Session

open Lib List Option Bool

variable {settings : Settings} {s s' : StreamSession} {caller : Caller}

def Message.ingress (m : Message) : Option Ingress := m.owner.ingressIdentity

/-- A cancellation that a revocation makes: of a turn of its device, with nothing to follow. -/
structure Cancel.Revokes (c : Cancel) (s : StreamSession) (deviceId : String) (epoch : Nat) : Prop where
  salvaged : c.salvaged = none
  suppress : c.suppressCompletion = false
  turn : ∀ t, s.turns[c.turn]? = some t → isRevokedOwner deviceId epoch t.message.ingress = true

structure Holder.Current (s : StreamSession) (h : Holder) : Prop where
  cancelling : ∀ c, h.await = .cancelling c → s.currentTurn = some c.turn
  hook : ∀ m, h.await = .hook m → s.running = none ∧ ∀ n, .launch n ∉ h.rest
  pump : h.await = .pump → ∃ deviceId epoch, h.caller = .revocation deviceId epoch
  launches : ∀ m, .launch m ∉ h.rest.tail
  revoking : ∀ deviceId epoch, h.caller = .revocation deviceId epoch → h.rest = [] ∧
    (h.await = .pump ∨ ∃ c, h.await = .cancelling c ∧ c.Revokes s deviceId epoch)

def Attended (s : StreamSession) : Prop := ∀ h, s.lock = some h → h.Current s

theorem attended_unlocked (hlock : s.lock = none) : Attended s := by
  intro h hsome
  simp [hlock] at hsome

theorem attended_release (s : StreamSession) (caller : Caller) : Attended (s.release caller) := by
  cases caller with
  | revocation deviceId epoch => exact attended_unlocked rfl
  | dispatchLoop | burstDrain => exact attended_unlocked rfl

theorem running_none_of_descends (h : s.running = none) (hcurrent : s'.currentTurn = s.currentTurn)
    (hturns : Descends s.turns s'.turns) : s'.running = none := by
  rw [eq_none_iff_forall_not_mem] at h ⊢
  intro j hj
  obtain ⟨hcurrent', t', ht', hlive⟩ := running_eq_some.mp hj
  obtain ⟨t, ht, -, hover⟩ := hturns j t' ht'
  apply h j
  rw [mem_def, running_eq_some]
  refine ⟨hcurrent ▸ hcurrent', t, ht, ?_⟩
  rw [← not_eq_true] at hlive ⊢
  exact fun hdone => hlive (hover hdone)

theorem Holder.Current.descends {h : Holder} (hh : h.Current s) (hcurrent : s'.currentTurn = s.currentTurn)
    (hturns : Descends s.turns s'.turns) : h.Current s' where
  cancelling c hc := hcurrent.trans (hh.cancelling c hc)
  hook m hm := ⟨running_none_of_descends (hh.hook m hm).1 hcurrent hturns, (hh.hook m hm).2⟩
  pump := hh.pump
  launches := hh.launches
  revoking deviceId epoch hcaller := by
    obtain ⟨hrest, hawait⟩ := hh.revoking deviceId epoch hcaller
    refine ⟨hrest, hawait.imp_right ?_⟩
    rintro ⟨c, hc, hrevokes⟩
    refine ⟨c, hc, hrevokes.salvaged, hrevokes.suppress, ?_⟩
    intro t' ht'
    obtain ⟨t, ht, hmessage, -⟩ := hturns c.turn t' ht'
    rw [hmessage]
    exact hrevokes.turn t ht

theorem Attended.of_eq (h : Attended s) (hlock : s'.lock = s.lock) (hcurrent : s'.currentTurn = s.currentTurn)
    (hturns : Descends s.turns s'.turns) : Attended s' :=
  fun holder hsome => (h holder (hlock ▸ hsome)).descends hcurrent hturns

theorem attended_cancelActiveTurn {j : Nat} (hj : s.running = some j) {rest : List Work}
    (hlaunches : ∀ m, .launch m ∉ rest.tail) (hcaller : ∀ d e, caller ≠ .revocation d e) (reason : String)
    (suppress salvage : Bool) :
    Attended (s.cancelActiveTurn caller j reason suppress salvage rest) := by
  unfold StreamSession.cancelActiveTurn
  have hcurrent := (running_eq_some.mp hj).1
  dsimp only
  split
  · intro h hsome
    cases hsome
    refine ⟨?_, fun _ h => (nomatch h), fun h => (nomatch h), hlaunches,
      fun d e heq => absurd heq (hcaller d e)⟩
    intro c hc
    cases hc
    exact hcurrent
  · intro h hsome
    cases hsome
    refine ⟨?_, fun _ h => (nomatch h), fun h => (nomatch h), hlaunches,
      fun d e heq => absurd heq (hcaller d e)⟩
    intro c hc
    cases hc
    exact hcurrent

theorem attended_hook (hrunning : s.running = none) {rest : List Work} (hlaunches : ∀ m, .launch m ∉ rest)
    (hcaller : ∀ d e, caller ≠ .revocation d e) (m : Message) :
    Attended { s with lock := some ⟨caller, .hook m, rest⟩ } := by
  intro h hsome
  cases hsome
  refine ⟨fun _ h => (nomatch h), ?_, fun h => (nomatch h), ?_,
    fun d e heq => absurd heq (hcaller d e)⟩
  · exact fun _ _ => ⟨hrunning, hlaunches⟩
  · exact fun n hn => hlaunches n (mem_of_mem_tail hn)

theorem attended_dispatchTurn (s : StreamSession) {rest : List Work} (hlaunches : ∀ m, .launch m ∉ rest)
    (hcaller : ∀ d e, caller ≠ .revocation d e) (m : Message) :
    Attended (s.dispatchTurn caller m rest) := by
  unfold StreamSession.dispatchTurn
  split
  · rename_i j hj
    refine attended_cancelActiveTurn hj ?_ hcaller _ _ _
    exact hlaunches
  · rename_i hrunning
    exact attended_hook hrunning hlaunches hcaller m

theorem attended_proceed (s : StreamSession) (rest : List Work) (hlaunches : ∀ m, .launch m ∉ rest.tail)
    (hlaunch : ∀ m, rest.head? = some (.launch m) → s.running = none)
    (hcaller : rest ≠ [] → ∀ d e, caller ≠ .revocation d e) :
    Attended (StreamSession.proceed caller s rest) := by
  induction rest generalizing s with
  | nil => exact attended_release s caller
  | cons w rest ih =>
    have hnot := hcaller (cons_ne_nil w rest)
    have happended : ∀ m, Attended (StreamSession.proceed caller (s.appendToBurst m) rest) := by
      intro m
      apply ih
      · exact fun n hn => hlaunches n (mem_of_mem_tail hn)
      · exact fun n hn => absurd (mem_of_head? hn) (hlaunches n)
      · exact fun _ => hnot
    cases w with
    | dispatch m => exact attended_dispatchTurn s hlaunches hnot m
    | launch m => exact attended_hook (hlaunch m rfl) hlaunches hnot m
    | append m => exact happended m
    | buffer m =>
      rw [StreamSession.proceed]
      split
      · exact happended m
      · split
        · apply attended_dispatchTurn _ _ hnot
          intro n hn
          rcases List.mem_cons.mp hn with heq | hmem
          · cases heq
          · exact hlaunches n hmem
        · exact happended m

theorem running_of_currentTurn (h : s.currentTurn = none) : s.running = none := by
  rw [StreamSession.running, h]

theorem Holder.Current.settleCancel {h : Holder} (hh : h.Current s) (c : Cancel) :
    Attended (s.settleCancel h c) := by
  unfold StreamSession.settleCancel
  apply attended_proceed
  · exact hh.launches
  · exact fun _ _ => running_of_currentTurn rfl
  · intro hne d e hcaller
    exact hne (hh.revoking d e hcaller).1

theorem Holder.Current.await {h : Holder} {c : Cancel} (hh : h.Current s) (hawait : h.await = .cancelling c)
    (stage : CancelStage) :
    Attended { s with lock := some { h with await := .cancelling { c with stage } } } := by
  intro holder hsome
  cases hsome
  refine ⟨?_, fun _ h => (nomatch h), fun h => (nomatch h), hh.launches, ?_⟩
  · intro d hd
    cases hd
    exact hh.cancelling c hawait
  · intro deviceId epoch hcaller
    obtain ⟨hrest, hpump | ⟨d, hd, hrevokes⟩⟩ := hh.revoking deviceId epoch hcaller
    · simp [hawait] at hpump
    · rw [hawait] at hd
      cases hd
      exact ⟨hrest, .inr ⟨_, rfl, hrevokes.salvaged, hrevokes.suppress, hrevokes.turn⟩⟩

theorem Holder.Current.kill {h : Holder} (hh : h.Current s) (j : Nat) : h.Current (s.kill j) :=
  hh.descends rfl (descends_kill s j)

theorem Attended.resumed (h : Attended s) {e : Step} (he : e.resumes = true)
    (hstep : step settings s e = some s') : Attended s' := by
  obtain ⟨holder, c, hlock, hawait, rfl | rfl | ⟨rfl, -⟩⟩ := resumed_cases he hstep
  · exact (h holder hlock).await hawait _
  · exact ((h holder hlock).kill c.turn).await hawait _
  · exact (h holder hlock).settleCancel c

theorem Attended.hooked (h : Attended s) {error : Option String} (hstep : s.hooked settings error = some s') :
    Attended s' := by
  obtain ⟨holder, m, hlock, hawait, hanswer⟩ := hooked_cases hstep
  have hh := h holder hlock
  have hlaunch := (hh.hook m hawait).2
  have hcaller : holder.rest ≠ [] → ∀ d e, holder.caller ≠ .revocation d e :=
    fun hne d e heq => hne (hh.revoking d e heq).1
  obtain ⟨-, rfl⟩ | ⟨-, rfl⟩ := hanswer
  · exact attended_proceed _ _ hh.launches (fun n hn => absurd (mem_of_head? hn) (hlaunch n)) hcaller
  · exact attended_proceed _ _ hh.launches (fun n hn => absurd (mem_of_head? hn) (hlaunch n)) hcaller

theorem attended_onUserTurnComplete (s : StreamSession) (m : Message) :
    Attended (s.onUserTurnComplete settings m) := by
  have hloop : ∀ d e, Caller.dispatchLoop ≠ .revocation d e := nofun
  unfold StreamSession.onUserTurnComplete
  split
  · dsimp only
    split
    · exact attended_dispatchTurn _ (by simp) hloop m
    · split
      · exact attended_dispatchTurn _ (by simp) hloop _
      · exact attended_dispatchTurn _ (by simp) hloop _
  · split
    · exact attended_dispatchTurn _ (by simp) hloop m
    · split
      · rename_i j hj
        exact attended_cancelActiveTurn hj (by simp) hloop _ _ _
      · exact attended_proceed _ _ (by simp) (by simp) fun _ => hloop

theorem attended_drainBurst (hlock : s.lock = none) : Attended s.drainBurst := by
  unfold StreamSession.drainBurst
  dsimp only
  split
  · exact attended_unlocked hlock
  · refine attended_dispatchTurn _ (by simp) ?_ _
    exact nofun

theorem attended_interrupt (hlock : s.lock = none) (reason : String) : Attended (s.interrupt reason) := by
  unfold StreamSession.interrupt
  dsimp only
  split
  · rename_i j hj
    refine attended_cancelActiveTurn hj (by simp) ?_ _ _ _
    exact nofun
  · exact attended_unlocked hlock

theorem attended_revokeTurn (s : StreamSession) (deviceId : String) (epoch : Nat) :
    Attended (s.revokeTurn deviceId epoch) := by
  unfold StreamSession.revokeTurn
  dsimp only
  split
  · rename_i j hj
    split
    · rename_i howner
      intro h hsome
      cases hsome
      refine ⟨?_, fun _ h => (nomatch h), fun h => (nomatch h), by simp, ?_⟩
      · intro c hc
        cases hc
        exact (running_eq_some.mp hj).1
      · intro d e heq
        cases heq
        refine ⟨rfl, .inr ⟨_, rfl, rfl, rfl, ?_⟩⟩
        intro t ht
        rw [Option.any_eq_true] at howner
        obtain ⟨turn, hturn, hrevoked⟩ := howner
        cases ht.symm.trans hturn
        exact hrevoked
    · exact attended_release s _
  · exact attended_release s _

theorem attended_revokeIngressDevice (s : StreamSession) (deviceId : String) (epoch : Nat) :
    Attended (s.revokeIngressDevice deviceId epoch) := by
  unfold StreamSession.revokeIngressDevice
  dsimp only
  split
  · intro h hsome
    cases hsome
    refine ⟨fun _ h => (nomatch h), fun _ h => (nomatch h), ?_, by simp, ?_⟩
    · exact fun _ => ⟨deviceId, epoch, rfl⟩
    · exact fun _ _ _ => ⟨rfl, .inl rfl⟩
  · exact attended_revokeTurn _ _ _

theorem attended_enter (hlock : s.lock = none) (w : Waiter) : Attended (s.enter settings w) := by
  cases w with
  | text m => exact attended_onUserTurnComplete s m
  | interrupt reason => exact attended_interrupt hlock reason
  | burstDrain => exact attended_drainBurst hlock
  | revocation deviceId epoch => exact attended_revokeIngressDevice s deviceId epoch

theorem Attended.approaches (h : Attended s) {e : Step} (happroaches : Approaches settings s e s') :
    Attended s' := by
  cases happroaches with
  | dropped | filmed | attached | told => exact h.of_eq rfl rfl (.refl _)
  | spoken => exact of_spoken (p := Attended) fun _ _ _ => h.of_eq rfl rfl (.refl _)
  | waits hcomes => cases hcomes <;> exact h.of_eq rfl rfl (.refl _)
  | enters hcomes hfree => exact attended_enter ((lock_comes hcomes).trans (lock_of_lockFree hfree)) _
  | @granted w rest hlock => exact @attended_enter settings { s with waiters := rest } hlock w

theorem Attended.step (h : Attended s) {e : Step} (hstep : step settings s e = some s') : Attended s' := by
  cases e with
  | push | journaled | runner | listen | pull | recognise | recognised =>
    obtain ⟨_, _, _, _, _, _, _, hgrown, rfl⟩ := away_eq rfl hstep
    exact h.of_eq rfl rfl hgrown.descends
  | take | grant | timer | revoke => exact h.approaches (approaches_step rfl hstep)
  | requestAnswered | drained | expired => exact h.resumed rfl hstep
  | hooked error => exact h.hooked hstep
  | pumpStopped =>
    obtain ⟨_, _, _, -, rfl⟩ := pumpStopped_cases hstep
    exact attended_revokeTurn _ _ _

/-! ### One turn at a time -/

def Alone (s : StreamSession) : Prop :=
  ∀ (j : Nat) t, s.turns[j]? = some t → t.over = false → s.currentTurn = some j

def outlives (s : StreamSession) : Step → Bool
  | .expired => s.lock.any fun h =>
    match h.await with
    | .cancelling c => c.stage = .killing
    | .hook _ | .pump => false
  | _ => false

theorem Alone.descends (h : Alone s) (hturns : Descends s.turns s'.turns)
    (hcurrent : s'.currentTurn = s.currentTurn) : Alone s' := by
  intro j t' ht' hlive
  obtain ⟨t, ht, -, hover⟩ := hturns j t' ht'
  rw [hcurrent]
  apply h j t ht
  rw [← not_eq_true] at hlive ⊢
  exact fun hdone => hlive (hover hdone)

theorem Alone.none_live (h : Alone s) (hrunning : s.running = none) (j : Nat) (t : Turn)
    (ht : s.turns[j]? = some t) : t.over = true := by
  by_contra hlive
  rw [not_eq_true] at hlive
  have hcurrent := h j t ht hlive
  rw [eq_none_iff_forall_not_mem] at hrunning
  exact hrunning j (running_eq_some.mpr ⟨hcurrent, t, ht, hlive⟩)

theorem Alone.startTurn (h : Alone s) (hrunning : s.running = none) (m : Message) :
    Alone (s.startTurn settings m) := by
  unfold StreamSession.startTurn
  dsimp only
  split
  · exact h
  · intro j t ht hlive
    rcases Nat.lt_or_ge j s.turns.length with hold | hnew
    · rw [getElem?_append_left hold] at ht
      have hover := h.none_live hrunning j t ht
      simp [hlive] at hover
    · have hj : j = s.turns.length := by
        have hlen := (List.getElem?_eq_some_iff.mp ht).1
        rw [length_append, length_singleton] at hlen
        omega
      rw [hj]

theorem Alone.refuse (h : Alone s) (m : Message) (error : String) : Alone (s.refuse settings m error) := by
  intro j t ht hlive
  rcases Nat.lt_or_ge j s.turns.length with hold | hnew
  · rw [StreamSession.refuse, getElem?_append_left hold] at ht
    exact h j t ht hlive
  · rw [StreamSession.refuse, getElem?_append_right hnew] at ht
    cases List.mem_singleton.mp (mem_of_getElem? ht)
    cases hlive

theorem Alone.resumed (h : Alone s) (hattended : Attended s) {e : Step} (he : e.resumes = true)
    (hlives : outlives s e = false) (hstep : step settings s e = some s') : Alone s' := by
  obtain ⟨holder, c, hlock, hawait, rfl | rfl | ⟨rfl, hover⟩⟩ := resumed_cases he hstep
  · exact h
  · exact h.descends (descends_kill s c.turn) rfl
  · replace hover : s.turns[c.turn]?.all Turn.over = true := by
      refine hover.resolve_right ?_
      rintro ⟨rfl, hstage⟩
      simp [outlives, hlock, hawait, hstage] at hlives
    have hkeeps := keeps_settleCancel s holder c
    intro j t' ht' hlive
    exfalso
    obtain ⟨t, ht, -, hdone⟩ := hkeeps.descends j t' ht'
    have halive : t.over = false := by
      rw [← not_eq_true] at hlive ⊢
      exact fun hd => hlive (hdone hd)
    have hcurrent := h j t ht halive
    rw [(hattended holder hlock).cancelling c hawait] at hcurrent
    cases hcurrent
    rw [show s.turns[c.turn]? = some t from ht, all_some, halive] at hover
    cases hover

theorem Alone.step (h : Alone s) (hattended : Attended s) {e : Step} (hlives : outlives s e = false)
    (hstep : step settings s e = some s') : Alone s' := by
  by_cases hresumes : e.resumes = true
  · exact h.resumed hattended hresumes hlives hstep
  · by_cases hhook : ∃ error, e = .hooked error
    · obtain ⟨error, rfl⟩ := hhook
      obtain ⟨holder, m, hlock, hawait, ⟨-, rfl⟩ | ⟨-, rfl⟩⟩ := hooked_cases hstep
      · have hkeeps := keeps_proceed (s.startTurn settings m) holder.caller holder.rest
        have hstarted := @Alone.startTurn settings s h ((hattended holder hlock).hook m hawait).1 m
        exact hstarted.descends hkeeps.descends hkeeps.current
      · have hkeeps := keeps_proceed (s.refuse settings m (error.getD "")) holder.caller holder.rest
        exact (h.refuse m _).descends hkeeps.descends hkeeps.current
    · have hstays := stays_step hstep (fun error heq => hhook ⟨error, heq⟩) (Bool.eq_false_iff.mpr hresumes)
      exact h.descends hstays.descends hstays.current

/-- Unless a turn outlives its cancellation, a session runs one turn at a time. -/
theorem turns_run_alone {events : List Step} (hlives : Along (step settings) (fun s e => outlives s e = false) {} events)
    (hrun : run (step settings) {} events = some s) : Alone s :=
  (run_invariant_along (I := fun s => Attended s ∧ Alone s)
    (fun _ _ _ h hlives hstep => ⟨h.1.step hstep, h.2.step h.1 hlives hstep⟩)
    ⟨attended_unlocked rfl, (fun _ _ ht => nomatch ht : Alone {})⟩ hlives hrun).2

theorem turns_run_alone_interrupted : ∃ s, s.turns.map Turn.over = [true, false] ∧ Alone s := by
  let events := types laptop "a" ++ [.timer, .hooked none] ++ types phone "b" ++
    [.runner 0 .interrupted, .drained, .hooked none]
  obtain ⟨s, hrun, hturns⟩ := Option.map_eq_some_iff.mp
    (rfl : (run (step ⟨1200, true, none⟩) {} events).map (·.turns.map Turn.over) = some [true, false])
  exact ⟨s, hturns, turns_run_alone (by decide) hrun⟩

end OpenAgent.Session
