import OpenAgent.Mcp.Toolkit

/-!
# A reconnect serves all who wait for it

A waiter is published before the supervisor is woken and resolved when the attempt has ended, so that whoever comes in
between joins the attempt. A session is ready only while the supervisor waits for a request, and the request it is woken
with is about that session.
-/

namespace OpenAgent.Mcp.Toolkits

open Lib List Option

variable {s t : Supervisor}

/-! ### The mailbox -/

def Matched (s : Supervisor) : Prop := ∀ f : Nat, s.waiters[f]? = some none ↔ s.pending = some f

theorem Matched.resolved (h : Matched s) (ok : Bool) (f : Nat) : (s.resolvePending ok).waiters[f]? ≠ some none := by
  intro hnone
  cases hpending : s.pending with
  | none =>
    have hwaiting := (h f).mp (by simpa [Supervisor.resolvePending, hpending] using hnone)
    simp [hpending] at hwaiting
  | some g =>
    have hg : s.waiters[g]? = some none := (h g).mpr hpending
    by_cases hfg : g = f
    · subst hfg
      simp [Supervisor.resolvePending, hpending, (List.getElem?_eq_some_iff.mp hg).1] at hnone
    · have hf : s.waiters[f]? = some none := by
        simpa [Supervisor.resolvePending, hpending, getElem?_set_ne hfg] using hnone
      have hpf := (h f).mp hf
      rw [hpending] at hpf
      exact hfg (some.inj hpf)

theorem Matched.resolve (h : Matched s) (ok : Bool) : Matched (s.resolvePending ok) :=
  fun f => iff_of_false (h.resolved ok f) (by simp [Supervisor.resolvePending])

theorem Matched.publish (h : Matched s) (hpending : s.pending = none) (requester : Option (Option Nat)) :
    Matched (s.publish requester) := by
  intro f
  have hold : s.waiters[f]? ≠ some none := by
    intro hnone
    have hwaiting := (h f).mp hnone
    simp [hpending] at hwaiting
  simp only [Supervisor.publish, getElem?_append, Option.some.injEq]
  split
  · rename_i hlt
    exact iff_of_false hold (by omega)
  · rename_i hle
    rcases Nat.lt_trichotomy s.waiters.length f with hgt | heq | hlt
    · rw [getElem?_eq_none (by simp; omega)]
      exact iff_of_false (nofun) (by omega)
    · subst heq
      simp
    · omega

/-- A waiter that is resolved with `True` was so before, or it is the one that is resolved now. -/
theorem told_of_resolve {ok : Bool} {f : Nat} (h : (s.resolvePending ok).waiters[f]? = some (some true)) :
    s.waiters[f]? = some (some true) ∨ s.pending = some f ∧ ok = true := by
  cases hpending : s.pending with
  | none => exact .inl (by simpa [Supervisor.resolvePending, hpending] using h)
  | some g =>
    simp only [Supervisor.resolvePending, hpending, getElem?_set] at h
    split at h
    · rename_i hgf
      subst hgf
      split at h
      · exact .inr ⟨rfl, by simpa using h⟩
      · cases h
    · exact .inl h

theorem told_of_publish {requester : Option (Option Nat)} {f : Nat}
    (h : (s.publish requester).waiters[f]? = some (some true)) : s.waiters[f]? = some (some true) := by
  simp only [Supervisor.publish, getElem?_append] at h
  split at h
  · exact h
  · cases hlast : f - s.waiters.length with
    | zero => simp [hlast] at h
    | succ n => simp [hlast] at h

/-! ### Invariants -/

structure Ledger (s : Supervisor) : Prop where
  sessions : ∀ session, s.session = some session → session < s.sessions
  torn : ∀ entry ∈ s.torn, ∀ dead, entry.2 = .report (some dead) ∨ entry.2 = .replaced (some dead) → ¬ dead < entry.1
  answers : ∀ answer ∈ s.answers, ∃ session, answer.held = some session ∧ answer.completed = true ∧
    answer.dead ≠ some session
  reported : ∀ caller ∈ s.callers, ∀ dead, caller.dead = some dead → dead < s.sessions

def Untold (s : Supervisor) : Prop := ∀ caller ∈ s.callers, s.waiters[caller.waiter]? ≠ some (some true)

structure Sound (s : Supervisor) : Prop extends Ledger s where
  matched : Matched s
  busy : s.pending.isSome = true → s.phase ≠ .done ∧ s.phase ≠ .closing .exit ∧ (s.phase = .waiting → s.stopEvent = true)
  idle : s.pending = none → s.phase = .waiting ∨ s.phase = .closing .exit ∨ s.phase = .done
  woken : s.stopEvent = true → s.closing = false → s.phase = .waiting ∧ s.pending.isSome = true
  exits : s.phase = .closing .exit → s.closing = true
  ready : s.ready = true → s.phase = .waiting ∧ s.session.isSome = true ∧ s.stack = true
  unready : s.phase = .waiting → s.ready = false → s.session = none ∧ s.stack = false
  entering : s.phase = .entering → s.stack = false
  closedFor : s.closing = true → s.ready = true → s.closedFor = .stopped
  requester : s.ready = true → ∀ dead, s.requester = some (some dead) → s.session = some dead
  joined : s.phase = .entering → ∀ caller ∈ s.callers, s.waiters[caller.waiter]? = some none →
    ∀ dead, caller.dead = some dead → s.session ≠ some dead
  told : ∀ caller ∈ s.callers, s.waiters[caller.waiter]? = some (some true) → s.ready = true ∧ s.initialized = true ∧
    ∀ dead, caller.dead = some dead → s.session ≠ some dead

theorem sound_start (completed : Bool) : Sound (Supervisor.start completed) where
  matched := by simp [Matched, Supervisor.start]
  busy := by simp [Supervisor.start]
  idle := by simp [Supervisor.start]
  woken := by simp [Supervisor.start]
  exits := by simp [Supervisor.start]
  ready := by simp [Supervisor.start]
  unready := by simp [Supervisor.start]
  entering := by simp [Supervisor.start]
  sessions := by simp [Supervisor.start]
  closedFor := by simp [Supervisor.start]
  requester := by simp [Supervisor.start]
  torn := by simp [Supervisor.start]
  answers := by simp [Supervisor.start]
  reported := by simp [Supervisor.start]
  joined := by simp [Supervisor.start]
  told := by simp [Supervisor.start]

theorem sound_of_unready (hledger : Ledger t) (huntold : Untold t) (hready : t.ready = false) (hmatched : Matched t)
    (hbusy : t.pending.isSome = true → t.phase ≠ .done ∧ t.phase ≠ .closing .exit ∧ (t.phase = .waiting → t.stopEvent = true))
    (hidle : t.pending = none → t.phase = .waiting ∨ t.phase = .closing .exit ∨ t.phase = .done)
    (hwoken : t.stopEvent = true → t.closing = true) (hexits : t.phase = .closing .exit → t.closing = true)
    (hsession : t.session = none) (hstack : t.phase = .waiting ∨ t.phase = .entering → t.stack = false) : Sound t where
  toLedger := hledger
  matched := hmatched
  busy := hbusy
  idle := hidle
  woken := by
    intro hstop hclosing
    simp [hwoken hstop] at hclosing
  exits := hexits
  ready := by simp [hready]
  unready := fun hphase _ => ⟨hsession, hstack (.inl hphase)⟩
  entering := fun hphase => hstack (.inr hphase)
  closedFor := by simp [hready]
  requester := by simp [hready]
  joined := by simp [hsession]
  told := fun caller hcaller htold => absurd htold (huntold caller hcaller)

theorem Ledger.forget (h : Ledger s) (hsession : t.session = none) (hsessions : t.sessions = s.sessions)
    (htorn : t.torn = s.torn) (hanswers : t.answers = s.answers) (hcallers : t.callers = s.callers) : Ledger t where
  sessions := by simp [hsession]
  torn := htorn ▸ h.torn
  answers := hanswers ▸ h.answers
  reported := by
    rw [hcallers, hsessions]
    exact h.reported

theorem Untold.resolve (h : Untold s) : Untold (s.resolvePending false) := by
  intro caller hcaller htold
  rcases told_of_resolve htold with hold | ⟨-, hfalse⟩
  · exact h caller hcaller hold
  · cases hfalse

theorem sound_leave (hledger : Ledger s) (huntold : Untold s) (hmatched : Matched s)
    (hstack : s.stack = true → s.closing = true) (hstop : s.stopEvent = true → s.closing = true) : Sound s.leave := by
  have hmatched' : Matched { s with ready := false } := hmatched
  have huntold' : Untold { s with ready := false } := huntold
  have hbelow := huntold'.resolve
  have hnone := hmatched'.resolve false
  rw [Supervisor.leave]
  dsimp only
  split
  · rename_i hhas
    refine sound_of_unready (hledger.forget rfl rfl rfl rfl rfl) hbelow rfl hnone ?_ ?_ ?_ ?_ ?_ ?_
    · intro hsome
      simp [Supervisor.forgetSession, Supervisor.resolvePending] at hsome
    · exact fun _ => .inr (.inl rfl)
    · exact hstop
    · exact fun _ => hstack hhas
    · rfl
    · rintro (h | h) <;> cases h
  · refine sound_of_unready (hledger.forget rfl rfl rfl rfl rfl) hbelow rfl hnone ?_ ?_ ?_ ?_ ?_ ?_
    · intro hsome
      simp [Supervisor.forgetSession, Supervisor.resolvePending] at hsome
    · exact fun _ => .inr (.inr rfl)
    · exact hstop
    · exact nofun
    · rfl
    · rintro (h | h) <;> cases h

theorem sound_closed (hledger : Ledger s) (huntold : Untold s) (hready : s.ready = false) (hmatched : Matched s)
    (hstop : s.stopEvent = true → s.closing = true) (next : Closing)
    (hpending : s.pending = none ↔ next = .exit) : Sound (s.closed next) := by
  unfold Supervisor.closed
  dsimp only
  cases next with
  | reenter =>
    have hsome : s.pending ≠ none := fun hnone => by cases hpending.mp hnone
    dsimp only
    split
    · refine sound_leave (hledger.forget rfl rfl rfl rfl rfl) huntold hmatched ?_ ?_
      · exact nofun
      · exact hstop
    · refine sound_of_unready (hledger.forget rfl rfl rfl rfl rfl) huntold hready hmatched ?_ ?_ ?_ ?_ ?_ ?_
      · intro _
        exact ⟨fun h => (by cases h), fun h => (by cases h), fun h => (by cases h)⟩
      · exact fun hnone => absurd hnone hsome
      · exact hstop
      · exact nofun
      · rfl
      · exact fun _ => rfl
  | failed =>
    have hmatched' : Matched { s.forgetSession with transportLost := false, stack := false } := hmatched
    have huntold' : Untold { s.forgetSession with transportLost := false, stack := false } := huntold
    refine sound_of_unready (hledger.forget rfl rfl rfl rfl rfl) huntold'.resolve hready (hmatched'.resolve false) ?_ ?_ ?_ ?_ ?_ ?_
    · intro hsome
      simp [Supervisor.resolvePending] at hsome
    · exact fun _ => .inl rfl
    · exact hstop
    · exact nofun
    · rfl
    · exact fun _ => rfl
  | exit =>
    refine sound_of_unready (hledger.forget rfl rfl rfl rfl rfl) huntold hready hmatched ?_ ?_ ?_ ?_ ?_ ?_
    · intro hsome
      have hnone : s.pending = none := hpending.mpr rfl
      simp [Supervisor.forgetSession, hnone] at hsome
    · exact fun _ => .inr (.inr rfl)
    · exact hstop
    · exact nofun
    · rfl
    · rintro (h | h) <;> cases h

theorem sound_close (hledger : Ledger s) (huntold : Untold s) (hready : s.ready = false) (hmatched : Matched s)
    (hstop : s.stopEvent = true → s.closing = true) (next : Closing) (hnext : next ≠ .exit)
    (hpending : s.pending ≠ none) : Sound (s.close next) := by
  rw [Supervisor.close]
  split
  · refine sound_of_unready (hledger.forget rfl rfl rfl rfl rfl) huntold hready hmatched ?_ ?_ ?_ ?_ ?_ ?_
    · intro _
      refine ⟨fun h => (by cases h), fun h => ?_, fun h => (by cases h)⟩
      exact hnext (Phase.closing.inj h)
    · exact fun hnone => absurd hnone hpending
    · exact hstop
    · intro h
      exact absurd (Phase.closing.inj h) hnext
    · rfl
    · rintro (h | h) <;> cases h
  · exact sound_closed hledger huntold hready hmatched hstop next (iff_of_false hpending hnext)

/-! ### The supervisor -/

theorem untold_of (h : Sound s) (horderly : (s.ready && s.told) = false) : Untold s := by
  intro caller hcaller htold
  have hready := (h.told caller hcaller htold).1
  have hany : s.told = true := List.any_eq_true.mpr ⟨caller, hcaller, by simp [htold]⟩
  simp [hready, hany] at horderly

theorem untold_of_unready (h : Sound s) (hready : s.ready = false) : Untold s := untold_of h (by rw [hready]; rfl)

theorem unready_of (h : Sound s) (hphase : s.phase ≠ .waiting) : s.ready = false :=
  Bool.eq_false_iff.mpr fun hready => hphase (h.ready hready).1

theorem closing_of_stop (h : Sound s) (hphase : s.phase ≠ .waiting) (hstop : s.stopEvent = true) : s.closing = true := by
  cases hclosing : s.closing with
  | true => rfl
  | false => exact absurd (h.woken hstop hclosing).1 hphase

theorem pending_of_entering (h : Sound s) (hphase : s.phase = .entering) : s.pending ≠ none := by
  intro hnone
  rcases h.idle hnone with hp | hp | hp <;> rw [hphase] at hp <;> cases hp

theorem Ledger.giveUp (h : Ledger s) {cause : Cause}
    (hcause : s.ready = true → ∀ session, s.session = some session → ∀ dead,
      cause = .report (some dead) ∨ cause = .replaced (some dead) → ¬ dead < session) : Ledger (s.giveUp cause) where
  sessions := h.sessions
  torn := by
    intro entry hentry dead hdead
    cases hsession : s.session with
    | none => exact h.torn entry (by simpa [Supervisor.giveUp, hsession] using hentry) dead hdead
    | some session =>
      by_cases hready : s.ready = true
      · simp only [Supervisor.giveUp, hsession, hready, if_true, mem_append, mem_singleton] at hentry
        rcases hentry with hold | rfl
        · exact h.torn entry hold dead hdead
        · exact hcause hready session hsession dead hdead
      · exact h.torn entry (by simpa [Supervisor.giveUp, hsession, hready] using hentry) dead hdead
  answers := h.answers
  reported := h.reported

theorem Ledger.stop (h : Sound s) (hclosing : s.closing = true) : Ledger (s.giveUp s.closedFor) := by
  apply h.toLedger.giveUp
  intro hready session _ dead hdead
  rw [h.closedFor hclosing hready] at hdead
  rcases hdead with hdead | hdead <;> cases hdead

theorem sound_exits (h : Sound s) (huntold : Untold s) (hclosing : s.closing = true) :
    Sound (s.giveUp s.closedFor).leave :=
  sound_leave (Ledger.stop h hclosing) huntold h.matched (fun _ => hclosing) fun _ => hclosing

theorem sound_wakes (h : Sound s) (hstop : s.stopEvent = true) (huntold : Untold s) : Sound s.wakes := by
  rw [Supervisor.wakes]
  split
  · rename_i hclosing
    exact sound_exits h huntold hclosing
  · rename_i hclosing
    have hsome := (h.woken hstop (Bool.eq_false_iff.mpr hclosing)).2
    have hledger : Ledger { s with stopEvent := false } := ⟨h.sessions, h.torn, h.answers, h.reported⟩
    refine sound_close (s := { s with stopEvent := false }.giveUp (.report (s.requester.getD none))) ?_ huntold rfl
      h.matched (fun hstop => absurd hstop Bool.false_ne_true) .reenter (nofun) ?_
    · apply hledger.giveUp
      intro hready session hsession dead hdead
      -- The session that is ready is the one that was reported.
      have hrequester : s.requester.getD none = some dead := by
        rcases hdead with hdead | hdead
        · exact Cause.report.inj hdead
        · cases hdead
      cases hreq : s.requester with
      | none =>
        simp [hreq] at hrequester
      | some reported =>
        rw [hreq, getD_some] at hrequester
        have hsame := h.requester hready dead (by rw [hreq, hrequester])
        have heq : session = dead := some.inj (hsession.symm.trans hsame)
        omega
    · intro hnone
      have hpending : s.pending = none := hnone
      simp [hpending] at hsome

theorem Untold.publish (h : Untold s) (requester : Option (Option Nat)) : Untold (s.publish requester) :=
  fun caller hcaller htold => h caller hcaller (told_of_publish htold)

theorem sound_lost (h : Sound s) (huntold : Untold s) :
    Sound (Supervisor.close
      (let t := { s with transportLost := true, stopEvent := false }.giveUp .lost
        if t.pending.isSome then t else { t.publish none with autoReconnect := true }) .reenter) := by
  have hledger : Ledger ({ s with transportLost := true, stopEvent := false }.giveUp .lost) := by
    have hs : Ledger { s with transportLost := true, stopEvent := false } :=
      ⟨h.sessions, h.torn, h.answers, h.reported⟩
    apply hs.giveUp
    intro _ _ _ dead hdead
    rcases hdead with hdead | hdead <;> cases hdead
  have huntold' : Untold ({ s with transportLost := true, stopEvent := false }.giveUp .lost) := huntold
  have hmatched : Matched ({ s with transportLost := true, stopEvent := false }.giveUp .lost) := h.matched
  dsimp only
  split
  · rename_i hsome
    refine sound_close hledger huntold' rfl hmatched (fun hstop => absurd hstop Bool.false_ne_true) .reenter (nofun) ?_
    intro hnone
    simp [hnone] at hsome
  · rename_i hnone
    have hpublished := hmatched.publish (Option.not_isSome_iff_eq_none.mp hnone) none
    refine sound_close ?_ ?_ rfl ?_ (fun hstop => absurd hstop Bool.false_ne_true) .reenter (nofun)
      (fun hpending => absurd hpending (some_ne_none _))
    · exact ⟨hledger.sessions, hledger.torn, hledger.answers, hledger.reported⟩
    · exact huntold'.publish none
    · exact hpublished

theorem sound_stops (h : Sound s) (hphase : s.phase ≠ .waiting) (hstack : t = s ∨ t = { s with stack := false })
    (hclosing : s.phase = .entering ∨ t = { s with stack := false }) : Sound t.leave := by
  have huntold := untold_of_unready h (unready_of h hphase)
  have hstop := closing_of_stop h hphase
  rcases hstack with rfl | rfl
  · refine sound_leave h.toLedger huntold h.matched (fun hhas => ?_) hstop
    rcases hclosing with hentering | hnone
    · simp [h.entering hentering] at hhas
    · have hnot : t.stack = false := by rw [hnone]
      simp [hnot] at hhas
  · have hledger : Ledger { s with stack := false } := ⟨h.sessions, h.torn, h.answers, h.reported⟩
    exact sound_leave hledger huntold h.matched (nofun) hstop

theorem sound_transportCancel (h : Sound s) (horderly : (s.ready && s.told) = false)
    (hcancel : s.transportCancel = some t) : Sound t := by
  unfold Supervisor.transportCancel at hcancel
  split at hcancel
  · have huntold := untold_of h horderly
    split at hcancel
    · cases hcancel
    · split at hcancel
      · rename_i hclosing
        cases hcancel
        exact sound_exits h huntold hclosing
      · cases hcancel
        exact sound_lost h huntold
  · rename_i next hphase
    split at hcancel
    · cases hcancel
      exact sound_stops h (by rw [hphase]; exact nofun) (.inr rfl) (.inr rfl)
    · cases hcancel
      exact h
  · rename_i hphase
    have hwaiting : s.phase ≠ .waiting := by rw [hphase]; exact nofun
    split at hcancel
    · cases hcancel
      exact sound_stops h hwaiting (.inl rfl) (.inl hphase)
    · cases hcancel
      have hready := unready_of h hwaiting
      exact sound_close h.toLedger (untold_of_unready h hready) hready h.matched (closing_of_stop h hwaiting)
        .failed (nofun) (pending_of_entering h hphase)
  · cases hcancel

theorem sound_foreignCancel (h : Sound s) (horderly : (s.ready && s.told) = false)
    (hcancel : s.foreignCancel = some t) : Sound t := by
  unfold Supervisor.foreignCancel at hcancel
  split at hcancel
  · have huntold := untold_of h horderly
    cases hcancel
    split
    · rename_i hclosing
      exact sound_exits h huntold hclosing
    · have hledger : Ledger ({ s with closing := true, closedFor := .stopped }.giveUp .stopped) := by
        have hs : Ledger { s with closing := true, closedFor := .stopped } :=
          ⟨h.sessions, h.torn, h.answers, h.reported⟩
        apply hs.giveUp
        intro _ _ _ dead hdead
        rcases hdead with hdead | hdead <;> cases hdead
      exact sound_leave hledger huntold h.matched (fun _ => rfl) fun _ => rfl
  · rename_i next hphase
    cases hcancel
    exact sound_stops h (by rw [hphase]; exact nofun) (.inr rfl) (.inr rfl)
  · rename_i hphase
    cases hcancel
    exact sound_stops h (by rw [hphase]; exact nofun) (.inl rfl) (.inl hphase)
  · cases hcancel

theorem sound_after_close (h : Sound s) {next : Closing} (hphase : s.phase = .closing next) : Sound (s.closed next) := by
  have hwaiting : s.phase ≠ .waiting := by rw [hphase]; exact nofun
  have hready := unready_of h hwaiting
  apply sound_closed h.toLedger (untold_of_unready h hready) hready h.matched (closing_of_stop h hwaiting)
  constructor
  · intro hnone
    rcases h.idle hnone with hp | hp | hp <;> rw [hphase] at hp
    · cases hp
    · exact Phase.closing.inj hp
    · cases hp
  · rintro rfl
    cases hpending : s.pending with
    | none => rfl
    | some waiter => exact absurd hphase (h.busy (by rw [hpending]; rfl)).2.1

theorem sound_opens (h : Sound s) (hphase : s.phase = .entering) :
    Sound { s with session := some s.sessions, sessions := s.sessions + 1 } where
  sessions := by
    intro session hsession
    cases hsession
    exact Nat.lt_succ_self _
  torn := h.torn
  answers := h.answers
  reported := fun caller hcaller dead hdead => Nat.lt_succ_of_lt (h.reported caller hcaller dead hdead)
  matched := h.matched
  busy := h.busy
  idle := h.idle
  woken := h.woken
  exits := h.exits
  ready := fun hready => absurd hready (by simp [unready_of h (by rw [hphase]; exact nofun)])
  unready := fun hwaiting => by
    have hwaiting' : s.phase = .waiting := hwaiting
    simp [hphase] at hwaiting'
  entering := h.entering
  closedFor := h.closedFor
  requester := fun hready => absurd hready (by simp [unready_of h (by rw [hphase]; exact nofun)])
  joined := by
    intro _ caller hcaller _ dead hdead heq
    have hlt := h.reported caller hcaller dead hdead
    have : s.sessions = dead := some.inj heq
    omega
  told := fun caller hcaller htold =>
    absurd htold (untold_of_unready h (unready_of h (by rw [hphase]; exact nofun)) caller hcaller)

theorem sound_entered (h : Sound s) (hphase : s.phase = .entering) (hsession : s.session.isSome = true)
    (completed : Bool) : Sound (s.entered completed) := by
  have hwaiting : s.phase ≠ .waiting := by rw [hphase]; exact nofun
  have hready := unready_of h hwaiting
  have huntold := untold_of_unready h hready
  have hstop := closing_of_stop h hwaiting
  have hpending := pending_of_entering h hphase
  have hledger : Ledger { s with stack := true, initialized := completed } :=
    ⟨h.sessions, h.torn, h.answers, h.reported⟩
  unfold Supervisor.entered
  dsimp only
  split
  · exact sound_close hledger huntold hready h.matched hstop .failed (nofun) hpending
  · rename_i hcompleted
    have hinitialized : completed = true := by simpa using hcompleted
    split
    · rename_i hclosing
      exact sound_leave hledger huntold h.matched (fun _ => hclosing) hstop
    · rename_i hclosing
      have hmatched : Matched { s with stack := true, initialized := completed, ready := true, autoReconnect := false } :=
        h.matched
      exact {
        sessions := h.sessions
        torn := h.torn
        answers := h.answers
        reported := h.reported
        matched := hmatched.resolve true
        busy := nofun
        idle := fun _ => .inl rfl
        woken := fun hevent _ => absurd (hstop hevent) hclosing
        exits := nofun
        ready := fun _ => ⟨rfl, hsession, rfl⟩
        unready := nofun
        entering := nofun
        closedFor := fun hclose => absurd hclose hclosing
        requester := fun _ dead hdead => by cases hdead
        joined := nofun
        told := by
          intro caller hcaller htold
          refine ⟨rfl, hinitialized, fun dead hdead => ?_⟩
          rcases told_of_resolve htold with hold | ⟨hpending, -⟩
          · exact absurd hold (huntold caller hcaller)
          · exact h.joined hphase caller hcaller ((h.matched caller.waiter).mpr hpending) dead hdead }

/-! ### Callers -/

theorem sound_replaceWedged (h : Sound s) (dead : Option Nat) : Sound (s.replaceWedged dead) := by
  unfold Supervisor.replaceWedged
  split
  · exact h
  · exact {
      sessions := h.sessions, torn := h.torn, answers := h.answers, reported := h.reported, matched := h.matched
      busy := h.busy, idle := h.idle, woken := h.woken, exits := h.exits, ready := h.ready, unready := h.unready
      entering := h.entering, closedFor := h.closedFor, requester := h.requester, joined := h.joined, told := h.told }

theorem Ledger.answer (h : Ledger s) {dead session : Option Nat} {id : Nat} (hsession : s.session = some id)
    (hready : s.ready = true) (hinitialized : s.initialized = true) (hdead : dead ≠ some id)
    (hsame : session = s.session) : Ledger { s with answers := s.answers ++ [⟨dead, session, s.ready && s.initialized⟩] } where
  sessions := h.sessions
  torn := h.torn
  answers := by
    intro answer hanswer
    rcases List.mem_append.mp hanswer with hold | hnew
    · exact h.answers answer hold
    · cases List.mem_singleton.mp hnew
      exact ⟨id, hsame.trans hsession, by simp [hready, hinitialized], hdead⟩
  reported := h.reported

variable {dead : Option Nat}

theorem sound_answer (h : Sound s) (hready : s.ready = true) (hinitialized : s.initialized = true)
    (hdead : ∀ id, dead = some id → s.session ≠ some id) : Sound (s.answer dead) := by
  obtain ⟨id, hsession⟩ := Option.isSome_iff_exists.mp (h.ready hready).2.1
  have hledger : Ledger (s.answer dead) := h.toLedger.answer hsession hready hinitialized
    (fun heq => hdead id heq hsession) rfl
  exact {
    toLedger := hledger
    matched := h.matched, busy := h.busy, idle := h.idle, woken := h.woken, exits := h.exits, ready := h.ready
    unready := h.unready, entering := h.entering, closedFor := h.closedFor, requester := h.requester
    joined := h.joined, told := h.told }

theorem sound_drop (h : Sound s) (i : Nat) : Sound (s.drop i) where
  sessions := h.sessions
  torn := h.torn
  answers := h.answers
  reported := fun caller hcaller => h.reported caller (mem_of_mem_eraseIdx hcaller)
  matched := h.matched
  busy := h.busy
  idle := h.idle
  woken := h.woken
  exits := h.exits
  ready := h.ready
  unready := h.unready
  entering := h.entering
  closedFor := h.closedFor
  requester := h.requester
  joined := fun hphase caller hcaller => h.joined hphase caller (mem_of_mem_eraseIdx hcaller)
  told := fun caller hcaller => h.told caller (mem_of_mem_eraseIdx hcaller)

theorem sound_resume (h : Sound s) {i : Nat} (hresume : s.resume i = some t) : Sound t := by
  obtain ⟨caller, hcaller, hresume⟩ := Option.bind_eq_some_iff.mp hresume
  have hmem := mem_of_getElem? hcaller
  split at hresume
  · rename_i ok hwaiter
    split at hresume
    · rename_i hok
      cases hresume
      subst hok
      obtain ⟨hready, hinitialized, hdead⟩ := h.told caller hmem hwaiter
      exact sound_drop (sound_answer h hready hinitialized hdead) i
    · cases hresume
      exact sound_drop h i
  · cases hresume

theorem sound_join (h : Sound s) {waiter : Nat} (hpending : s.pending = some waiter)
    (hdead : ∀ id, dead = some id → id < s.sessions) (hother : ∀ id, dead = some id → s.session ≠ some id) :
    Sound { s with callers := s.callers ++ [⟨dead, waiter⟩] } where
  sessions := h.sessions
  torn := h.torn
  answers := h.answers
  reported := by
    intro caller hcaller
    rcases List.mem_append.mp hcaller with hold | hnew
    · exact h.reported caller hold
    · cases List.mem_singleton.mp hnew
      exact hdead
  matched := h.matched
  busy := h.busy
  idle := h.idle
  woken := h.woken
  exits := h.exits
  ready := h.ready
  unready := h.unready
  entering := h.entering
  closedFor := h.closedFor
  requester := h.requester
  joined := by
    intro hphase caller hcaller hwaiter
    rcases List.mem_append.mp hcaller with hold | hnew
    · exact h.joined hphase caller hold hwaiter
    · cases List.mem_singleton.mp hnew
      exact hother
  told := by
    intro caller hcaller htold
    rcases List.mem_append.mp hcaller with hold | hnew
    · exact h.told caller hold htold
    · cases List.mem_singleton.mp hnew
      have hnone := (h.matched waiter).mpr hpending
      have htrue : s.waiters[waiter]? = some (some true) := htold
      simp [hnone] at htrue

theorem waiting_of_idle (h : Sound s) (hpending : s.pending = none) (hclosing : s.closing = false)
    (hdone : s.phase ≠ .done) : s.phase = .waiting := by
  rcases h.idle hpending with hphase | hphase | hphase
  · exact hphase
  · simp [h.exits hphase] at hclosing
  · exact absurd hphase hdone

theorem sound_request (h : Sound s) (hpending : s.pending = none) (hclosing : s.closing = false)
    (hdone : s.phase ≠ .done) (hdead : ∀ id, dead = some id → id < s.sessions)
    (hreplaced : s.alreadyReplaced dead = false) :
    Sound { s.publish (some dead) with stopEvent := true, callers := s.callers ++ [⟨dead, s.waiters.length⟩] } := by
  have hwaiting := waiting_of_idle h hpending hclosing hdone
  have hexit : s.phase ≠ .closing .exit := by
    rw [hwaiting]
    exact nofun
  have hpublished := h.matched.publish hpending (some dead)
  exact {
    sessions := h.sessions
    torn := h.torn
    answers := h.answers
    reported := by
      intro caller hcaller
      rcases List.mem_append.mp hcaller with hold | hnew
      · exact h.reported caller hold
      · cases List.mem_singleton.mp hnew
        exact hdead
    matched := hpublished
    busy := fun _ => ⟨hdone, hexit, fun _ => rfl⟩
    idle := fun hnone => absurd hnone (some_ne_none _)
    woken := fun _ _ => ⟨hwaiting, rfl⟩
    exits := h.exits
    ready := h.ready
    unready := h.unready
    entering := h.entering
    closedFor := h.closedFor
    requester := by
      intro hready id hid
      have hid' : dead = some id := some.inj hid
      have hsome := (h.ready hready).2.1
      have hready' : s.ready = true := hready
      have hsame : s.session = some id := by simpa [Supervisor.alreadyReplaced, hid', hsome, hready'] using hreplaced
      exact hsame
    joined := by
      intro hphase
      have hentering : s.phase = .entering := hphase
      simp [hwaiting] at hentering
    told := by
      intro caller hcaller htold
      rcases List.mem_append.mp hcaller with hold | hnew
      · have htrue : (s.publish (some dead)).waiters[caller.waiter]? = some (some true) := htold
        exact h.told caller hold (told_of_publish htrue)
      · cases List.mem_singleton.mp hnew
        have hnone := (hpublished s.waiters.length).mpr rfl
        have htrue : (s.publish (some dead)).waiters[s.waiters.length]? = some (some true) := htold
        rw [hnone] at htrue
        cases htrue }

theorem sound_reconnect (h : Sound s) {stuck connected : Bool}
    (hdead : ∀ id, dead = some id → id < s.sessions) (horderly : s.orderly (.reconnect dead stuck connected) = true) :
    Sound (s.reconnect dead stuck connected) := by
  simp only [Supervisor.orderly, Bool.and_eq_true, Bool.or_eq_true, Bool.not_eq_true', bne_iff_ne] at horderly
  obtain ⟨hother, hcomplete⟩ := horderly
  unfold Supervisor.reconnect
  split
  · exact h
  · split
    · split
      · exact sound_replaceWedged h dead
      · exact h
    · rename_i hgone
      simp only [Bool.or_eq_true, beq_iff_eq, not_or, Bool.not_eq_true] at hgone
      obtain ⟨hclosing, hdone⟩ := hgone
      split
      · rename_i waiter hpending
        split
        · exact sound_replaceWedged h dead
        · apply sound_join h hpending hdead
          rintro id rfl hsession
          rcases hother with (hnone | hnone) | hne
          · simp [hpending] at hnone
          · cases hnone
          · exact hne hsession
      · rename_i hpending
        split
        · rename_i hreplaced
          simp only [Supervisor.alreadyReplaced, Bool.and_eq_true, bne_iff_ne] at hreplaced
          obtain ⟨⟨⟨-, hsome⟩, hne⟩, hready⟩ := hreplaced
          have hinitialized : s.initialized = true := by
            rcases hcomplete with hunready | hinitialized
            · simp [hunready] at hready
            · exact hinitialized
          exact sound_answer h hready hinitialized fun id hid hsession => hne (hsession.trans hid.symm)
        · rename_i hreplaced
          exact sound_request h hpending hclosing hdone hdead (Bool.eq_false_iff.mpr hreplaced)

/-! ### Runs -/

theorem sound_closes (h : Sound s) {cause : Cause} (hcause : s.closing = false → s.ready = true → cause = .stopped)
    {replacement : Option (Option Nat)} {registered : Bool} :
    Sound {
      s with
      closing := true
      stopEvent := true
      closedFor := if s.closing then s.closedFor else cause
      replacement := replacement
      registered := registered } where
  sessions := h.sessions
  torn := h.torn
  answers := h.answers
  reported := h.reported
  matched := h.matched
  busy := fun hsome => ⟨(h.busy hsome).1, (h.busy hsome).2.1, fun _ => rfl⟩
  idle := h.idle
  woken := fun _ hclosing => absurd hclosing.symm Bool.false_ne_true
  exits := fun _ => rfl
  ready := h.ready
  unready := h.unready
  entering := h.entering
  closedFor := by
    intro _ hready
    dsimp only
    split
    · rename_i hclosing
      exact h.closedFor hclosing hready
    · rename_i hclosing
      exact hcause (Bool.eq_false_iff.mpr hclosing) hready
  requester := h.requester
  joined := h.joined
  told := h.told

theorem sound_step {e : Event} (h : Sound s) (horderly : s.orderly e = true) (hstep : step s e = some t) : Sound t := by
  cases e with
  | wakes =>
    simp only [step] at hstep
    split at hstep
    · rename_i hwoken
      cases hstep
      exact sound_wakes h hwoken.2 (untold_of h (by simpa only [Supervisor.orderly, Bool.not_eq_true'] using horderly))
    · cases hstep
  | transportCancel => exact sound_transportCancel h (by simpa only [Supervisor.orderly, Bool.not_eq_true'] using horderly) hstep
  | foreignCancel => exact sound_foreignCancel h (by simpa only [Supervisor.orderly, Bool.not_eq_true'] using horderly) hstep
  | closed =>
    simp only [step] at hstep
    split at hstep
    · rename_i next hphase
      cases hstep
      exact sound_after_close h hphase
    · cases hstep
  | opens =>
    simp only [step] at hstep
    split at hstep
    · rename_i hphase
      cases hstep
      exact sound_opens h hphase.1
    · cases hstep
  | entered completed =>
    simp only [step] at hstep
    split at hstep
    · rename_i hphase
      cases hstep
      exact sound_entered h hphase.1 hphase.2 completed
    · cases hstep
  | failsToEnter =>
    simp only [step] at hstep
    split at hstep
    · rename_i hphase
      cases hstep
      have hwaiting : s.phase ≠ .waiting := by rw [hphase]; exact nofun
      have hready := unready_of h hwaiting
      exact sound_close h.toLedger (untold_of_unready h hready) hready h.matched (closing_of_stop h hwaiting)
        .failed (nofun) (pending_of_entering h hphase)
    · cases hstep
  | reconnect dead stuck connected =>
    simp only [step] at hstep
    split at hstep
    · rename_i hdead
      cases hstep
      exact sound_reconnect h (fun id hid => by simpa [hid] using hdead) horderly
    · cases hstep
  | awaitReady stuck =>
    cases hstep
    unfold Supervisor.awaitReady
    split
    · exact sound_replaceWedged h none
    · exact h
  | resume i => exact sound_resume h hstep
  | leaves i =>
    simp only [step] at hstep
    split at hstep
    · cases hstep
      exact sound_drop h i
    · cases hstep
  | runSession =>
    cases hstep
    exact {
      sessions := fun session hsession => Nat.lt_succ_of_lt (h.sessions session hsession)
      torn := h.torn
      answers := h.answers
      reported := fun caller hcaller dead hdead => Nat.lt_succ_of_lt (h.reported caller hcaller dead hdead)
      matched := h.matched, busy := h.busy, idle := h.idle, woken := h.woken, exits := h.exits, ready := h.ready
      unready := h.unready, entering := h.entering, closedFor := h.closedFor, requester := h.requester
      joined := h.joined, told := h.told }
  | unregister =>
    cases hstep
    exact {
      sessions := h.sessions, torn := h.torn, answers := h.answers, reported := h.reported, matched := h.matched
      busy := h.busy, idle := h.idle, woken := h.woken, exits := h.exits, ready := h.ready, unready := h.unready
      entering := h.entering, closedFor := h.closedFor, requester := h.requester, joined := h.joined, told := h.told }
  | shutdown =>
    cases hstep
    exact sound_closes h fun _ _ => rfl
  | replace current =>
    obtain ⟨dead, -, rfl⟩ := Option.map_eq_some_iff.mp hstep
    simp only [Supervisor.orderly, Bool.or_eq_true, Bool.not_eq_true'] at horderly
    apply sound_closes h
    intro hclosing hready
    rcases horderly with hunready | hclose
    · simp [hunready] at hready
    · simp [hclose] at hclosing

/-! ### The end of an attempt -/

/-- A supervisor that does not close, from when an attempt is asked for to when it waits again. -/
structure Attempting (s : Supervisor) : Prop where
  closing : s.closing = false
  phase : s.phase ≠ .closing .exit ∧ s.phase ≠ .done
  woken : s.stopEvent = true → s.phase = .waiting
  pending : s.pending.isSome = true → s.phase = .waiting → s.stopEvent = true

def Supervisor.distance (s : Supervisor) : Nat :=
  match s.phase with
  | .waiting => if s.stopEvent then 5 else 0
  | .closing .reenter => 4
  | .entering => if s.session.isSome then 2 else 3
  | .closing .failed => 1
  | .closing .exit | .done => 0

theorem distance_le (s : Supervisor) : s.distance ≤ 5 := by
  unfold Supervisor.distance
  split <;> first | omega | (split <;> omega)

theorem attempting_closed (hclosing : s.closing = false) (hstop : s.stopEvent = false) (next : Closing)
    (hnext : next ≠ .exit) :
    Attempting (s.closed next) ∧ (s.closed next).distance ≤ if next = .reenter then 3 else 0 := by
  unfold Supervisor.closed
  cases next with
  | reenter =>
    have hstays : s.forgetSession.closing = false := hclosing
    simp only [hstays, Bool.false_eq_true, if_false]
    exact ⟨⟨rfl, ⟨fun heq => (by cases heq), fun heq => (by cases heq)⟩,
      fun hevent => absurd (hstop.symm.trans hevent) Bool.false_ne_true, fun _ heq => (by cases heq)⟩, Nat.le_refl _⟩
  | failed =>
    refine ⟨⟨hclosing, ⟨fun heq => (by cases heq), fun heq => (by cases heq)⟩, fun _ => rfl, nofun⟩, ?_⟩
    have hwaits : s.forgetSession.stopEvent = false := hstop
    simp [Supervisor.distance, Supervisor.resolvePending, hwaits]
  | exit => exact absurd rfl hnext

theorem attempting_close (hclosing : s.closing = false) (hstop : s.stopEvent = false) (next : Closing)
    (hnext : next ≠ .exit) :
    Attempting (s.close next) ∧ (s.close next).distance ≤ if next = .reenter then 4 else 1 := by
  unfold Supervisor.close
  split
  · refine ⟨⟨hclosing, ⟨fun heq => hnext (Phase.closing.inj heq), fun heq => (by cases heq)⟩,
      fun hevent => absurd (hstop.symm.trans hevent) Bool.false_ne_true, fun _ heq => (by cases heq)⟩, ?_⟩
    cases next with
    | reenter => exact Nat.le_refl _
    | failed => exact Nat.le_refl _
    | exit => exact absurd rfl hnext
  · obtain ⟨hattempting, hdistance⟩ := attempting_closed hclosing hstop next hnext
    refine ⟨hattempting, Nat.le_trans hdistance ?_⟩
    split <;> omega

theorem attempting_step {e : Event} (h : Attempting s) (hown : e.own = true) (hstep : step s e = some t) :
    Attempting t ∧ t.distance < s.distance := by
  have hquiet (hphase : s.phase ≠ .waiting) : s.stopEvent = false := Bool.eq_false_iff.mpr fun hevent => hphase (h.woken hevent)
  cases e with
  | wakes =>
    simp only [step] at hstep
    split at hstep
    · rename_i hwoken
      cases hstep
      have hdistance : s.distance = 5 := by simp [Supervisor.distance, hwoken]
      rw [Supervisor.wakes, if_neg (by rw [h.closing]; exact Bool.false_ne_true)]
      obtain ⟨hattempting, hle⟩ := attempting_close
        (s := { s with stopEvent := false }.giveUp (.report (s.requester.getD none))) h.closing rfl .reenter
        (nofun)
      exact ⟨hattempting, by rw [hdistance]; exact Nat.lt_of_le_of_lt hle (by decide)⟩
    · cases hstep
  | closed =>
    simp only [step] at hstep
    split at hstep
    · rename_i next hphase
      cases hstep
      have hnext : next ≠ .exit := fun heq => h.phase.1 (by rw [hphase, heq])
      obtain ⟨hattempting, hle⟩ := attempting_closed h.closing
        (hquiet (by rw [hphase]; exact nofun)) next hnext
      refine ⟨hattempting, Nat.lt_of_le_of_lt hle ?_⟩
      rw [Supervisor.distance, hphase]
      cases next with
      | reenter => exact Nat.lt_succ_self 3
      | failed => exact Nat.lt_succ_self 0
      | exit => exact absurd rfl hnext
    · cases hstep
  | opens =>
    simp only [step] at hstep
    split at hstep
    · rename_i hphase
      cases hstep
      refine ⟨⟨h.closing, h.phase, h.woken, h.pending⟩, ?_⟩
      simp [Supervisor.distance, hphase]
    · cases hstep
  | entered completed =>
    simp only [step] at hstep
    split at hstep
    · rename_i hphase
      cases hstep
      have hstop := hquiet (by rw [hphase.1]; exact nofun)
      have hdistance : s.distance = 2 := by simp [Supervisor.distance, hphase]
      rw [hdistance]
      unfold Supervisor.entered
      dsimp only
      split
      · obtain ⟨hattempting, hle⟩ := attempting_close (s := { s with stack := true, initialized := completed })
          h.closing hstop .failed (nofun)
        exact ⟨hattempting, Nat.lt_of_le_of_lt hle (by decide)⟩
      · rw [if_neg (by rw [h.closing]; exact Bool.false_ne_true)]
        refine ⟨⟨h.closing, ⟨fun heq => (by cases heq), fun heq => (by cases heq)⟩, fun _ => rfl,
          nofun⟩, ?_⟩
        simp [Supervisor.distance, Supervisor.resolvePending, hstop]
    · cases hstep
  | failsToEnter =>
    simp only [step] at hstep
    split at hstep
    · rename_i hphase
      cases hstep
      obtain ⟨hattempting, hle⟩ := attempting_close h.closing
        (hquiet (by rw [hphase]; exact nofun)) .failed (nofun)
      have hbelow : (s.close .failed).distance ≤ 1 := hle
      refine ⟨hattempting, Nat.lt_of_le_of_lt hbelow ?_⟩
      rw [Supervisor.distance, hphase]
      dsimp only
      split <;> omega
    · cases hstep
  | _ => cases hown

theorem attempting_run {own : List Event} (h : Attempting s) (hown : ∀ e ∈ own, e.own = true)
    (hrun : run step s own = some t) : Attempting t ∧ own.length + t.distance ≤ s.distance := by
  induction own generalizing s with
  | nil =>
    cases hrun
    exact ⟨h, by simp⟩
  | cons e rest ih =>
    obtain ⟨m, hstep, hrest⟩ := run_cons.mp hrun
    obtain ⟨hm, hlt⟩ := attempting_step h (hown e (.head _)) hstep
    obtain ⟨ht, hle⟩ := ih hm (fun e he => hown e (.tail _ he)) hrest
    refine ⟨ht, ?_⟩
    rw [length_cons]
    omega

theorem Attempting.moves (h : Attempting s) (hsome : s.pending.isSome = true) :
    ∃ e : Event, e.own = true ∧ (step s e).isSome = true := by
  cases hphase : s.phase with
  | waiting => exact ⟨.wakes, rfl, by simp [step, hphase, h.pending hsome hphase]⟩
  | closing next => exact ⟨.closed, rfl, by simp [step, hphase]⟩
  | entering => exact ⟨.failsToEnter, rfl, by simp [step, hphase]⟩
  | done => exact absurd hphase h.phase.2

theorem Sound.attempting (h : Sound s) (hclosing : s.closing = false) (hsome : s.pending.isSome = true) : Attempting s where
  closing := hclosing
  phase := ⟨(h.busy hsome).2.1, (h.busy hsome).1⟩
  woken := fun hstop => (h.woken hstop hclosing).1
  pending := fun hsome hphase => (h.busy hsome).2.2 hphase

theorem Sound.kept (h : Sound s) : Kept s where
  one := by
    intro f g hf hg
    have hpf := (h.matched f).mp hf
    have hpg := (h.matched g).mp hg
    exact some.inj (hpf.symm.trans hpg)
  torn := h.torn
  answers := h.answers
  resolved := by
    intro f hf
    have hpending := (h.matched f).mp hf
    have hbusy := h.busy (by rw [hpending]; rfl)
    exact ⟨hpending, hbusy.1, hbusy.2.2⟩
  ends := by
    intro hclosing hsome own hown t hrun
    obtain ⟨ht, hle⟩ := attempting_run (h.attempting hclosing hsome) hown hrun
    have hbound := distance_le s
    exact ⟨by omega, ht.moves⟩
  serves := by
    intro _ hclosing hdone
    cases hpending : s.pending with
    | some waiter =>
      have hbusy := h.busy (by rw [hpending]; rfl)
      exact .inr ⟨rfl, hbusy.2.2⟩
    | none =>
      refine .inl ⟨rfl, waiting_of_idle h hpending hclosing hdone, ?_⟩
      cases hstop : s.stopEvent with
      | false => rfl
      | true =>
        have hsome := (h.woken hstop hclosing).2
        simp [hpending] at hsome

/-- In every run in which a session is not given up while a caller that was told of it has not gone on, no caller reports
the session whose handshake it would wait for or one of a toolkit whose own handshake was not completed, and no
replacement starts after the reconnect that took too long has succeeded, the protocol of reconnects is kept. -/
theorem reconnect_protocol {completed : Bool} {events : List Event}
    (horderly : Along step (fun s e => s.orderly e = true) (.start completed) events)
    (hrun : run step (.start completed) events = some s) : Kept s :=
  (run_invariant_along (I := Sound) (fun _ _ _ hs he hstep => sound_step hs he hstep) (sound_start completed) horderly
    hrun).kept

/-- Two callers share a reconnect that fails, the next one succeeds, and a transport that is lost then is replaced before
a caller reports it. -/
theorem reconnect_protocol_again : ∃ s, run step (.start true)
    [.reconnect (some 0) false true, .wakes, .reconnect (some 0) false true, .closed, .opens, .entered false, .closed,
      .resume 0, .resume 0, .reconnect (some 1) false true, .wakes, .opens, .entered true, .resume 0, .transportCancel,
      .closed, .opens, .entered true, .reconnect (some 2) false true] = some s ∧
    s.answers = [⟨some 1, some 2, true⟩, ⟨some 2, some 3, true⟩] ∧ Kept s := by
  have htrace : (run step (.start true)
      [.reconnect (some 0) false true, .wakes, .reconnect (some 0) false true, .closed, .opens, .entered false, .closed,
        .resume 0, .resume 0, .reconnect (some 1) false true, .wakes, .opens, .entered true, .resume 0, .transportCancel,
        .closed, .opens, .entered true, .reconnect (some 2) false true]).map (fun s => s.answers) =
      some [⟨some 1, some 2, true⟩, ⟨some 2, some 3, true⟩] := by decide +kernel
  obtain ⟨s, hrun, hanswers⟩ := Option.map_eq_some_iff.mp htrace
  exact ⟨s, hrun, hanswers, reconnect_protocol (by decide +kernel) hrun⟩

/-- A caller that was told that the toolkit was reconnected answers so, though its transport was lost in between; and a
replacement, once it has been asked for, brings down the session that the reconnect has opened after all. -/
theorem reconnect_protocol_broken :
    (∃ s, run step (.start true)
      [.reconnect (some 0) false true, .wakes, .closed, .opens, .entered true, .transportCancel, .resume 0] = some s ∧
      s.answers = [⟨some 0, none, false⟩] ∧ ¬ Kept s) ∧
    ∃ s, run step (.start true)
      [.reconnect (some 0) false true, .wakes, .closed, .opens, .reconnect (some 0) true true, .entered true, .resume 0,
        .replace true, .wakes] = some s ∧ s.torn = [(0, .report (some 0)), (1, .replaced (some 0))] ∧ ¬ Kept s := by
  constructor
  · have htrace : (run step (.start true)
        [.reconnect (some 0) false true, .wakes, .closed, .opens, .entered true, .transportCancel, .resume 0]).map
        (fun s => s.answers) = some [⟨some 0, none, false⟩] := by decide +kernel
    obtain ⟨s, hrun, hanswers⟩ := Option.map_eq_some_iff.mp htrace
    refine ⟨s, hrun, hanswers, fun hkept => ?_⟩
    obtain ⟨session, hheld, -⟩ := hkept.answers _ (by rw [hanswers]; exact List.mem_singleton_self _)
    cases hheld
  · have htrace : (run step (.start true)
        [.reconnect (some 0) false true, .wakes, .closed, .opens, .reconnect (some 0) true true, .entered true, .resume 0,
          .replace true, .wakes]).map (fun s => s.torn) = some [(0, .report (some 0)), (1, .replaced (some 0))] := by
      decide +kernel
    obtain ⟨s, hrun, htorn⟩ := Option.map_eq_some_iff.mp htrace
    refine ⟨s, hrun, htorn, fun hkept => ?_⟩
    exact hkept.torn (1, .replaced (some 0)) (by rw [htorn]; exact .tail _ (.head _)) 0 (.inr rfl) Nat.zero_lt_one

end OpenAgent.Mcp.Toolkits
