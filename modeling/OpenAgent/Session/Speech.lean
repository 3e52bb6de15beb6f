import Mathlib.Data.List.Chain
import OpenAgent.Session.Lock

/-!
# What the recogniser hears

The chunks on their way to the recogniser, after the last one it has heard, form a chain: the next chunk
continues the utterance, or the one before it ended the utterance, or it is from a connection that is held
off. The recogniser's stream ends at the end of an utterance and skips what is held off, so whatever the
recogniser takes it for, the stream is a part of one utterance.
-/

namespace OpenAgent.Session

open Lib List Option

variable {settings : Settings} {s s' : StreamSession}

def Continues (a b : STTInput) : Prop :=
  b.utterance = a.utterance ∧ b.place = a.place + 1 ∧ b.owner = a.owner

/-- The stream is a row of chunks of one utterance, pushed from the recogniser's connection. -/
structure Recognition.Together (r : Recognition) : Prop where
  heard : r.heard ≠ []
  owned : ∀ i ∈ r.heard, i.owner = r.owner
  consecutive : r.heard.IsChain Continues

def StreamSession.Follows (s : StreamSession) (a b : STTInput) : Prop :=
  Continues a b ∨ a.endOfUtterance = true ∨ s.ingressIsRevoked a.owner.ingressIdentity = true

def StreamSession.Admits (s : StreamSession) (c : STTInput) : Prop :=
  ∀ u, s.sttUtterance = some u → c.utterance = u.number ∧ c.place = u.chunks ∧ c.owner = u.owner

def Recognition.last (r : Recognition) : List STTInput := if r.live then r.heard.getLast?.toList else []

def StreamSession.audio (s : StreamSession) : List STTInput :=
  (s.recognition.map Recognition.last).getD [] ++ s.sttIn

structure Hearing (s : StreamSession) : Prop where
  together : ∀ r, s.recognition = some r → r.Together
  speech : ∀ r, s.recognition = some r → ∀ i ∈ r.heard, i.endOfUtterance = false
  chain : ∀ c, s.Admits c → (s.audio ++ [c]).IsChain s.Follows

theorem Hearing.of_eq (h : Hearing s) (hrecognition : s'.recognition = s.recognition)
    (hsttIn : s'.sttIn = s.sttIn) (hutterance : s'.sttUtterance = s.sttUtterance)
    (hbarriers : s'.revokedIngressEpochs = s.revokedIngressEpochs) : Hearing s' where
  together r hr := h.together r (hrecognition ▸ hr)
  speech r hr := h.speech r (hrecognition ▸ hr)
  chain c hc := by
    have hfollows : s'.Follows = s.Follows := by
      funext a b
      rw [StreamSession.Follows, StreamSession.Follows, StreamSession.ingressIsRevoked,
        StreamSession.ingressIsRevoked, hbarriers]
    have haudio : s'.audio = s.audio := by
      rw [StreamSession.audio, StreamSession.audio, hrecognition, hsttIn]
    rw [hfollows, haudio]
    apply h.chain c
    intro u hu
    exact hc u (hutterance ▸ hu)

theorem Hearing.frames (h : Hearing s) (hframes : Frames s s') : Hearing s' :=
  h.of_eq hframes.recognition hframes.sttIn hframes.sttUtterance hframes.barriers

theorem exists_admits (s : StreamSession) : ∃ c, s.Admits c := by
  cases hopen : s.sttUtterance with
  | none =>
    refine ⟨⟨[], true, ⟨none, none⟩, "", 0, ⟨none, none⟩, 0, 0⟩, ?_⟩
    intro u hu
    simp [hopen] at hu
  | some u =>
    refine ⟨⟨[], true, u.owner, "", 0, u.owner, u.number, u.chunks⟩, ?_⟩
    intro v hv
    rw [hopen] at hv
    cases hv
    exact ⟨rfl, rfl, rfl⟩

/-! ### Chains of chunks -/

theorem isChain_filter_append {α : Type} {R : α → α → Prop} {keep : α → Bool} {xs : List α} {c : α}
    (h : (xs ++ [c]).IsChain R)
    (hfree : ∀ a b, R a b → keep a = true → keep b = false → ∀ d, R a d) :
    (xs.filter keep ++ [c]).IsChain R := by
  induction xs with
  | nil => exact h
  | cons x rest ih =>
    rw [cons_append, isChain_cons] at h
    obtain ⟨hhead, htail⟩ := h
    by_cases hkeep : keep x = true
    · rw [filter_cons_of_pos hkeep, cons_append, isChain_cons]
      refine ⟨?_, ih htail⟩
      intro y hy
      cases rest with
      | nil => exact hhead y hy
      | cons z rest =>
        have hz := hhead z rfl
        by_cases hkeepz : keep z = true
        · rw [filter_cons_of_pos hkeepz] at hy
          cases hy
          exact hz
        · exact hfree x z hz hkeep (by simpa using hkeepz) y
    · rw [filter_cons_of_neg hkeep]
      exact ih htail

theorem isChain_drop {α : Type} {R : α → α → Prop} {front : List α} {b : α} {rest : List α}
    (h : (front ++ b :: rest).IsChain R) (hfree : ∀ a ∈ front.getLast?, R a b → ∀ d, R a d) :
    (front ++ rest).IsChain R := by
  rw [isChain_append] at h ⊢
  obtain ⟨hfront, hrest, hjoin⟩ := h
  refine ⟨hfront, (List.isChain_cons.mp hrest).2, ?_⟩
  intro a ha d _
  exact hfree a ha (hjoin a ha b rfl) d

/-! ### The steps -/

theorem Hearing.ended (h : Hearing s) {rest : List STTInput} (hrest : rest <:+ s.sttIn) :
    Hearing { s with recognition := none, sttIn := rest } where
  together r hr := nomatch hr
  speech r hr := nomatch hr
  chain c hc := by
    refine (h.chain c hc).suffix ?_
    obtain ⟨front, hfront⟩ := hrest
    refine ⟨(s.recognition.map Recognition.last).getD [] ++ front, ?_⟩
    rw [StreamSession.audio, StreamSession.audio, ← hfront]
    simp

theorem Hearing.passed (h : Hearing s) {first : STTInput} {rest : List STTInput} (hnone : s.recognition = none)
    (haudio : s.sttIn = first :: rest) : Hearing { s with sttIn := rest } := by
  have hended : Hearing { s with recognition := none, sttIn := rest } := h.ended ⟨[first], haudio.symm⟩
  exact hended.of_eq hnone rfl rfl rfl

theorem Hearing.opened (h : Hearing s) {first : STTInput} {rest : List STTInput} (encoding : String)
    (sampleRate : Option Nat) (hnone : s.recognition = none) (haudio : s.sttIn = first :: rest)
    (hspeech : first.endOfUtterance = false) :
    Hearing { s with sttIn := rest, recognition := some ⟨first.owner, encoding, sampleRate, [first], true⟩ } := by
  refine ⟨?_, ?_, ?_⟩
  · intro r hr
    cases hr
    refine ⟨cons_ne_nil _ _, ?_, isChain_singleton _⟩
    intro i hi
    rw [List.mem_singleton.mp hi]
  · intro r hr i hi
    rw [← some.inj hr] at hi
    rw [List.mem_singleton.mp hi]
    exact hspeech
  · intro c hc
    have hchain := h.chain c hc
    rw [StreamSession.audio, hnone, haudio] at hchain
    exact hchain

section

variable {r : Recognition} {piece : STTInput} {rest : List STTInput}

theorem Hearing.last (h : Hearing s) (hsome : s.recognition = some r) (hlive : r.live = true) :
    ∀ a ∈ r.last.getLast?, a ∈ r.heard ∧ a.owner = r.owner ∧ a.endOfUtterance = false := by
  intro a ha
  have hmem : a ∈ r.heard := by
    rw [Recognition.last, if_pos hlive] at ha
    have hsingle := mem_of_getLast? ha
    exact mem_of_getLast? (Option.mem_toList.mp hsingle)
  exact ⟨hmem, (h.together r hsome).owned a hmem, h.speech r hsome a hmem⟩

theorem Hearing.chained (h : Hearing s) (hsome : s.recognition = some r) (haudio : s.sttIn = piece :: rest) :
    ∀ c, s.Admits c → (r.last ++ piece :: (rest ++ [c])).IsChain s.Follows := by
  intro c hc
  have hwhole := h.chain c hc
  rw [StreamSession.audio, hsome, haudio] at hwhole
  simpa using hwhole

/-- The piece is skipped, and what the stream heard last may be followed by anything. -/
theorem Hearing.skipped (h : Hearing s) (hsome : s.recognition = some r) (haudio : s.sttIn = piece :: rest)
    (hlive : r.live = true) (hskip : s.ingressIsRevoked piece.owner.ingressIdentity = true ∨
      piece.owner.ingressIdentity ≠ r.owner.ingressIdentity) : Hearing { s with sttIn := rest } := by
  refine ⟨h.together, h.speech, ?_⟩
  intro c hc
  rw [StreamSession.audio, show ({ s with sttIn := rest } : StreamSession).recognition = some r from hsome,
    append_assoc]
  refine isChain_drop (h.chained hsome haudio c hc) ?_
  intro a ha hfollows d
  obtain ⟨-, howner, hend⟩ := h.last hsome hlive a ha
  obtain hcontinues | hended | hheld := hfollows
  · rw [hcontinues.2.2] at hskip
    exact .inr (.inr (hskip.resolve_right (not_not.mpr (by rw [howner]))))
  · simp [hend] at hended
  · exact .inr (.inr hheld)

theorem Hearing.heard (h : Hearing s) (hsome : s.recognition = some r) (haudio : s.sttIn = piece :: rest)
    (hlive : r.live = true) (hspeech : piece.endOfUtterance = false)
    (hkept : ¬ s.ingressIsRevoked piece.owner.ingressIdentity = true)
    (hsame : piece.owner.ingressIdentity = r.owner.ingressIdentity) :
    Hearing { s with sttIn := rest, recognition := some { r with heard := r.heard ++ [piece] } } := by
  obtain ⟨front, a, hheard⟩ := eq_nil_or_concat' r.heard |>.resolve_left (h.together r hsome).heard
  have ha : r.last = [a] := by rw [Recognition.last, if_pos hlive, hheard]; simp
  have hmem : a ∈ r.heard := by rw [hheard]; simp
  have howner := (h.together r hsome).owned a hmem
  have hfollows : s.Follows a piece := by
    obtain ⟨c, hc⟩ := exists_admits s
    have hpair := h.chained hsome haudio c hc
    rw [ha, singleton_append, isChain_cons] at hpair
    exact hpair.1 piece rfl
  have hcontinues : Continues a piece := by
    obtain hcontinues | hended | hheld := hfollows
    · exact hcontinues
    · simp [h.speech r hsome a hmem] at hended
    · rw [howner, ← hsame] at hheld
      exact absurd hheld hkept
  refine ⟨?_, ?_, ?_⟩
  · intro r' hr'
    cases hr'
    refine ⟨by simp, ?_, ?_⟩
    · intro i hi
      rcases List.mem_append.mp hi with hold | hnew
      · exact (h.together r hsome).owned i hold
      · rw [List.mem_singleton.mp hnew, hcontinues.2.2]
        exact howner
    · show (r.heard ++ [piece]).IsChain Continues
      rw [isChain_append]
      refine ⟨(h.together r hsome).consecutive, isChain_singleton _, ?_⟩
      intro b hb d hd
      cases hd
      have hab : r.heard.getLast? = some a := by rw [hheard]; simp
      rw [hab] at hb
      cases hb
      exact hcontinues
  · intro r' hr' i hi
    rw [← some.inj hr'] at hi
    rcases List.mem_append.mp hi with hold | hnew
    · exact h.speech r hsome i hold
    · rw [List.mem_singleton.mp hnew]
      exact hspeech
  · intro c hc
    refine (h.chained hsome haudio c hc).suffix ?_
    refine ⟨r.last, ?_⟩
    simp [StreamSession.audio, Recognition.last, hlive]

theorem Hearing.hears (h : Hearing s) (hhears : Hears s s') : Hearing s' := by
  cases hhears with
  | passed hnone haudio => exact h.passed hnone haudio
  | opened encoding sampleRate hnone haudio hspeech => exact h.opened encoding sampleRate hnone haudio hspeech
  | skipped hsome haudio hlive hskip => exact h.skipped hsome haudio hlive hskip
  | heard hsome haudio hlive hspeech hkept hsame => exact h.heard hsome haudio hlive hspeech hkept hsame
  | closed => exact h.ended (suffix_refl _)
  | interim | final => exact h.of_eq rfl rfl rfl rfl
  | @ended r piece rest hsome haudio hlive =>
    refine ⟨?_, ?_, ?_⟩
    · intro r' hr'
      cases hr'
      exact ⟨(h.together r hsome).heard, (h.together r hsome).owned, (h.together r hsome).consecutive⟩
    · intro r' hr'
      cases hr'
      exact h.speech r hsome
    · intro c hc
      refine (h.chained hsome haudio c hc).suffix ?_
      exact ⟨r.last ++ [piece], by simp [StreamSession.audio, Recognition.last]⟩

end

theorem Hearing.queue (h : Hearing s) {x : STTInput} (hx : s.Admits x)
    (hrecognition : s'.recognition = s.recognition) (hsttIn : s'.sttIn = s.sttIn ++ [x])
    (hbarriers : s'.revokedIngressEpochs = s.revokedIngressEpochs)
    (hnext : ∀ c, s'.Admits c → Continues x c ∨ x.endOfUtterance = true) : Hearing s' where
  together r hr := h.together r (hrecognition ▸ hr)
  speech r hr := h.speech r (hrecognition ▸ hr)
  chain c hc := by
    have hfollows : s'.Follows = s.Follows := by
      funext a b
      rw [StreamSession.Follows, StreamSession.Follows, StreamSession.ingressIsRevoked,
        StreamSession.ingressIsRevoked, hbarriers]
    have haudio : s'.audio = s.audio ++ [x] := by
      rw [StreamSession.audio, StreamSession.audio, hrecognition, hsttIn, append_assoc]
    rw [hfollows, haudio, isChain_append]
    refine ⟨h.chain x hx, isChain_singleton _, ?_⟩
    intro a ha b hb
    rw [getLast?_concat] at ha
    cases ha
    cases hb
    obtain hcontinues | hended := hnext c hc
    · exact .inl hcontinues
    · exact .inr (.inl hended)

theorem Hearing.audioData (h : Hearing s) (owner : Owner) (data : List UInt8) (encoding : String)
    (sampleRate : Nat) : Hearing (s.audioData owner data encoding sampleRate) := by
  unfold StreamSession.audioData
  split
  · exact h
  · split
    · rename_i hclosed
      refine h.queue (x := ⟨data, false, owner, encoding, sampleRate, owner, s.utterances, 0⟩) ?_ rfl rfl rfl ?_
      · intro u hu
        simp [hclosed] at hu
      · intro c hc
        obtain ⟨hnumber, hplace, howner⟩ := hc _ rfl
        exact .inl ⟨hnumber, hplace, howner⟩
    · rename_i u hopen
      split
      · exact h
      · refine h.queue (x := ⟨data, false, u.owner, encoding, sampleRate, owner, u.number, u.chunks⟩)
          ?_ rfl rfl rfl ?_
        · intro v hv
          rw [hopen] at hv
          cases hv
          exact ⟨rfl, rfl, rfl⟩
        · intro c hc
          obtain ⟨hnumber, hplace, howner⟩ := hc _ rfl
          exact .inl ⟨hnumber, hplace, howner⟩

theorem Hearing.audioEnd (h : Hearing s) (owner : Owner) : Hearing (s.audioEnd owner) := by
  unfold StreamSession.audioEnd
  split
  · exact h
  · rename_i u hopen
    split
    · exact h
    · refine h.queue (x := ⟨[], true, u.owner, "", 0, owner, u.number, u.chunks⟩) ?_ rfl rfl rfl ?_
      · intro v hv
        rw [hopen] at hv
        cases hv
        exact ⟨rfl, rfl, rfl⟩
      · intro c _
        exact .inr rfl

theorem Hearing.revokeIngressDevice (h : Hearing s) {deviceId : String} {epoch : Nat}
    (hbars : s.Bars deviceId epoch) : Hearing (s.revokeIngressDevice deviceId epoch) := by
  unfold StreamSession.revokeIngressDevice
  have hdropped := kept_dropRevoked s deviceId epoch
  dsimp only
  split
  · rename_i hrevoked
    rw [hdropped.sttUtterance, Option.any_eq_true] at hrevoked
    obtain ⟨u, hopen, howner⟩ := hrevoked
    have hclosed : Hearing { s with sttUtterance := none } := by
      refine ⟨h.together, h.speech, ?_⟩
      intro c _
      let x : STTInput := ⟨[], true, u.owner, "", 0, u.owner, u.number, u.chunks⟩
      have hx : s.Admits x := by
        intro v hv
        rw [hopen] at hv
        cases hv
        exact ⟨rfl, rfl, rfl⟩
      have hchain := h.chain x hx
      rw [isChain_append] at hchain ⊢
      refine ⟨hchain.1, isChain_singleton _, ?_⟩
      intro a ha b hb
      obtain hcontinues | hfree := hchain.2.2 a ha x rfl
      · refine .inr (.inr ?_)
        rw [← hcontinues.2.2]
        exact revoked_of_bars hbars howner
      · exact .inr hfree
    exact hclosed.of_eq hdropped.recognition hdropped.sttIn rfl hdropped.barriers
  · exact (h.frames hdropped.toFrames).frames (keeps_revokeTurn _ _ _).toFrames

theorem Hearing.pumpStopped (h : Hearing s) (hstep : s.pumpStopped = some s') : Hearing s' := by
  obtain ⟨deviceId, epoch, _, -, rfl⟩ := pumpStopped_cases hstep
  refine Hearing.frames ?_ (keeps_revokeTurn _ _ _).toFrames
  refine ⟨(fun r hr => nomatch hr), (fun r hr => nomatch hr), ?_⟩
  intro c hc
  have hchain : (s.sttIn ++ [c]).IsChain s.Follows := by
    refine (h.chain c hc).suffix ?_
    exact ⟨(s.recognition.map Recognition.last).getD [], by rw [StreamSession.audio, append_assoc]⟩
  apply isChain_filter_append hchain
  intro a b hfollows hkept hdropped d
  obtain hcontinues | hfree := hfollows
  · rw [hcontinues.2.2] at hdropped
    simp [hdropped] at hkept
  · exact .inr hfree

theorem revoked_barrier {deviceId : String} (epoch : Option Nat) {ingress : Option Ingress}
    (h : s.ingressIsRevoked ingress = true) :
    (s.barrier deviceId (s.revocationEpoch deviceId epoch)).ingressIsRevoked ingress = true := by
  cases hdevice : ingressDeviceId ingress with
  | none =>
    simp [StreamSession.ingressIsRevoked, hdevice] at h
  | some d =>
    cases hblocked : s.revokedIngressEpochs.get? d with
    | none =>
      rw [StreamSession.ingressIsRevoked, hdevice] at h
      dsimp only at h
      simp [hblocked] at h
    | some blocked =>
      have hepoch : ingressAuthEpoch ingress < blocked := by
        rw [StreamSession.ingressIsRevoked, hdevice] at h
        dsimp only at h
        rw [hblocked] at h
        exact of_decide_eq_true h
      have hbars : (s.barrier deviceId (s.revocationEpoch deviceId epoch)).Bars d blocked :=
        bars_barrier epoch ⟨blocked, hblocked, le_rfl⟩
      apply revoked_of_bars hbars
      rw [isRevokedOwner, hdevice]
      simpa using hepoch

theorem Hearing.barrier (h : Hearing s) (deviceId : String) (epoch : Option Nat) :
    Hearing (s.barrier deviceId (s.revocationEpoch deviceId epoch)) where
  together := h.together
  speech := h.speech
  chain c hc := by
    refine (h.chain c hc).imp ?_
    intro a b hfollows
    obtain hcontinues | hended | hheld := hfollows
    · exact .inl hcontinues
    · exact .inr (.inl hended)
    · exact .inr (.inr (revoked_barrier epoch hheld))

theorem Hearing.enter (h : Hearing s) (hlock : s.lock = none) {w : Waiter}
    (hw : ∀ deviceId epoch, w = .revocation deviceId epoch → s.Bars deviceId epoch) :
    Hearing (s.enter settings w) := by
  obtain ⟨caller, -, hkeeps⟩ | ⟨deviceId, epoch, rfl⟩ := @enter_cases settings s hlock w
  · exact h.frames hkeeps.toFrames
  · exact h.revokeIngressDevice (hw deviceId epoch rfl)

theorem Hearing.comes (h : Hearing s) {e : Step} {w : Waiter} {t : StreamSession} (hcomes : Comes s e w t) :
    Hearing t := by
  cases hcomes with
  | text | interrupt | timer => exact h.of_eq rfl rfl rfl rfl
  | revoke deviceId asked => exact h.barrier deviceId asked

theorem Hearing.approaches (h : Hearing s) (hbarred : Barred s) {e : Step}
    (happroaches : Approaches settings s e s') : Hearing s' := by
  cases happroaches with
  | dropped | filmed | attached | told => exact h.of_eq rfl rfl rfl rfl
  | @spoken q rest data endOfSpeech encoding sampleRate =>
    have htaken : Hearing { s with inbound := rest } := h.of_eq rfl rfl rfl rfl
    have hheard := htaken.audioData q.owner data encoding sampleRate
    split
    · exact hheard.audioEnd q.owner
    · exact hheard
  | waits hcomes => exact (h.comes hcomes).of_eq rfl rfl rfl rfl
  | enters hcomes hfree =>
    exact (h.comes hcomes).enter ((lock_comes hcomes).trans (lock_of_lockFree hfree)) (hbarred.comes hcomes).2
  | @granted w rest hlock hwaiters =>
    have hgranted : Hearing { s with waiters := rest } := h.of_eq rfl rfl rfl rfl
    refine hgranted.enter hlock ?_
    rintro deviceId epoch rfl
    exact hbarred.waiters deviceId epoch (hwaiters ▸ mem_cons_self)

theorem Hearing.step (h : Hearing s) (hbarred : Barred s) {e : Step}
    (hstep : step settings s e = some s') : Hearing s' := by
  cases e with
  | push event owner =>
    obtain ⟨queued, waiting, heq⟩ := pushIn_eq s { event, owner }
    rw [← some.inj hstep, heq]
    exact h.of_eq rfl rfl rfl rfl
  | journaled k =>
    obtain ⟨queued, waiting, rfl⟩ := journaled_eq hstep
    exact h.of_eq rfl rfl rfl rfl
  | take | grant | timer | revoke => exact h.approaches hbarred (approaches_step rfl hstep)
  | requestAnswered | drained | expired =>
    obtain ⟨-, -, hframes, -⟩ := frames_resumed rfl hstep
    exact h.frames hframes
  | hooked error =>
    obtain ⟨-, -, -, -, hframes, -⟩ := frames_hooked hstep
    exact h.frames hframes
  | pumpStopped => exact h.pumpStopped hstep
  | runner j move =>
    rw [Session.step] at hstep
    split at hstep
    · rename_i turn hturn
      obtain ⟨t', started, frames, -, -, rfl⟩ := runnerStep_eq hturn hstep
      exact h.of_eq rfl rfl rfl rfl
    · cases hstep
  | listen | pull | recognise | recognised => exact h.hears (hears_cases rfl hstep).2

theorem hearing_empty : Hearing {} where
  together _ hr := nomatch hr
  speech _ hr := nomatch hr
  chain c _ := isChain_singleton c

theorem barred_empty : Barred {} where
  waiters _ _ hw := nomatch hw
  lock _ _ _ hlock := nomatch hlock
  returned _ hr := nomatch hr

end OpenAgent.Session
