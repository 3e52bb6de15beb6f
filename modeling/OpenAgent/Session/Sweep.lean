import OpenAgent.Session.Ownership
import OpenAgent.Session.Current

/-!
# What a revocation sweeps away

A revocation empties the buffers of what its device owns. Nothing of the device comes in again, since the
barrier is up before the first buffer is looked at: what is taken from the inbound queue is not held off,
and everything else only moves what is there.
-/

namespace OpenAgent.Session

open Lib Option

variable {settings : Settings} {s s' : StreamSession} {bad : Option Ingress → Bool} {audio : Bool}

/-- The attachments, frames and the open utterance are of others, and, where asked, all the audio is. -/
structure Stored (bad : Option Ingress → Bool) (audio : Bool) (s : StreamSession) : Prop where
  attachments : ∀ i ∈ s.pendingAttachments, bad i.owner.ingressIdentity = false
  videos : ∀ key ∈ s.videoBuffers.keys, bad key.1 = false
  utterance : ∀ u, s.sttUtterance = some u → bad u.owner.ingressIdentity = false
  sttIn : audio = true → ∀ i ∈ s.sttIn, bad i.owner.ingressIdentity = false
  recognition : audio = true → ∀ r, s.recognition = some r → bad r.owner.ingressIdentity = false

theorem Stored.of_eq (h : Stored bad audio s) (hattachments : s'.pendingAttachments = s.pendingAttachments)
    (hvideos : s'.videoBuffers = s.videoBuffers) (hutterance : s'.sttUtterance = s.sttUtterance)
    (hsttIn : s'.sttIn = s.sttIn) (hrecognition : s'.recognition = s.recognition) :
    Stored bad audio s' where
  attachments := hattachments ▸ h.attachments
  videos := hvideos ▸ h.videos
  utterance := hutterance ▸ h.utterance
  sttIn := hsttIn ▸ h.sttIn
  recognition := hrecognition ▸ h.recognition

theorem Stored.frames (h : Stored bad audio s) (hframes : Frames s s') : Stored bad audio s' where
  attachments i hi := h.attachments i (hframes.attachments.subset hi)
  videos key hkey := h.videos key ((hframes.videos.map Prod.fst).subset hkey)
  utterance := hframes.sttUtterance ▸ h.utterance
  sttIn := hframes.sttIn ▸ h.sttIn
  recognition := hframes.recognition ▸ h.recognition

theorem Stored.audioData (h : Stored bad audio s) {owner : Owner} (howner : bad owner.ingressIdentity = false)
    (data : List UInt8) (encoding : String) (sampleRate : Nat) :
    Stored bad audio (s.audioData owner data encoding sampleRate) := by
  have hqueued : ∀ x : STTInput, bad x.owner.ingressIdentity = false → audio = true →
      ∀ i ∈ s.sttIn ++ [x], bad i.owner.ingressIdentity = false := by
    intro x hx haudio i hi
    rcases List.mem_append.mp hi with hold | hnew
    · exact h.sttIn haudio i hold
    · rwa [List.mem_singleton.mp hnew]
  unfold StreamSession.audioData
  split
  · exact h
  · split
    · refine ⟨h.attachments, h.videos, ?_, hqueued _ howner, h.recognition⟩
      intro u hu
      cases hu
      exact howner
    · rename_i u hopen
      split
      · exact h
      · refine ⟨h.attachments, h.videos, ?_, hqueued _ (h.utterance u hopen), h.recognition⟩
        intro v hv
        cases hv
        exact h.utterance u hopen

theorem Stored.audioEnd (h : Stored bad audio s) (owner : Owner) : Stored bad audio (s.audioEnd owner) := by
  unfold StreamSession.audioEnd
  split
  · exact h
  · rename_i u hopen
    split
    · exact h
    · refine ⟨h.attachments, h.videos, (nofun), ?_, h.recognition⟩
      intro haudio i hi
      rcases List.mem_append.mp hi with hold | hnew
      · exact h.sttIn haudio i hold
      · rw [List.mem_singleton.mp hnew]
        exact h.utterance u hopen

theorem Stored.revokeIngressDevice (h : Stored bad audio s) (deviceId : String) (epoch : Nat) :
    Stored bad audio (s.revokeIngressDevice deviceId epoch) := by
  unfold StreamSession.revokeIngressDevice
  have hdropped := h.frames (kept_dropRevoked s deviceId epoch).toFrames
  dsimp only
  split
  · exact ⟨hdropped.attachments, hdropped.videos, (nofun), hdropped.sttIn,
      hdropped.recognition⟩
  · exact hdropped.frames (keeps_revokeTurn _ _ _).toFrames

theorem Stored.enter (h : Stored bad audio s) (hlock : s.lock = none) (w : Waiter) :
    Stored bad audio (s.enter settings w) := by
  obtain ⟨caller, -, hkeeps⟩ | ⟨deviceId, epoch, rfl⟩ := @enter_cases settings s hlock w
  · exact h.frames hkeeps.toFrames
  · exact h.revokeIngressDevice deviceId epoch

variable {e : Step}

theorem Stored.approaches (h : Stored bad audio s) (hbarred : ∀ i, bad i = true → s.ingressIsRevoked i = true)
    (happroaches : Approaches settings s e s') : Stored bad audio s' := by
  have hfresh : ∀ {ingress}, s.ingressIsRevoked ingress = false → bad ingress = false := by
    intro ingress hkept
    rw [← Bool.not_eq_true] at hkept ⊢
    exact fun hbad => hkept (hbarred ingress hbad)
  cases happroaches with
  | dropped | told => exact h.of_eq rfl rfl rfl rfl rfl
  | @spoken q rest data endOfSpeech encoding sampleRate hinbound hkept =>
    have htaken : Stored bad audio { s with inbound := rest } := h.of_eq rfl rfl rfl rfl rfl
    have hheard := htaken.audioData (hfresh hkept) data encoding sampleRate
    split
    · exact hheard.audioEnd q.owner
    · exact hheard
  | filmed hinbound hkept =>
    refine ⟨h.attachments, ?_, h.utterance, h.sttIn, h.recognition⟩
    intro key hkey
    rcases Dict.mem_keys_assign.mp hkey with rfl | hold
    · exact hfresh hkept
    · exact h.videos key hold
  | attached hinbound hkept =>
    refine ⟨?_, h.videos, h.utterance, h.sttIn, h.recognition⟩
    intro i hi
    rcases List.mem_append.mp hi with hold | hnew
    · exact h.attachments i hold
    · rw [List.mem_singleton.mp hnew]
      exact hfresh hkept
  | waits hcomes => cases hcomes <;> exact h.of_eq rfl rfl rfl rfl rfl
  | @enters e w t hcomes hfree =>
    have ht : Stored bad audio t := by cases hcomes <;> exact h.of_eq rfl rfl rfl rfl rfl
    exact ht.enter ((lock_comes hcomes).trans (lock_of_lockFree hfree)) w
  | @granted w rest hlock =>
    have hgranted : Stored bad audio { s with waiters := rest } := h.of_eq rfl rfl rfl rfl rfl
    exact hgranted.enter hlock w

theorem Stored.hears (h : Stored bad audio s) (hhears : Hears s s') : Stored bad audio s' := by
  have hrest : ∀ {piece rest}, s.sttIn = piece :: rest → audio = true →
      ∀ i ∈ rest, bad i.owner.ingressIdentity = false :=
    fun hsttIn haudio i hi => h.sttIn haudio i (hsttIn ▸ .tail _ hi)
  have hsame : ∀ {r r' : Recognition} {piece rest}, s.recognition = some r → s.sttIn = piece :: rest →
      r'.owner = r.owner → Stored bad audio { s with sttIn := rest, recognition := some r' } := by
    intro r r' piece rest hsome hsttIn howner
    refine ⟨h.attachments, h.videos, h.utterance, hrest hsttIn, ?_⟩
    intro haudio r'' hr''
    rw [← some.inj hr'', howner]
    exact h.recognition haudio r hsome
  cases hhears with
  | passed _ hsttIn | skipped _ hsttIn =>
    exact ⟨h.attachments, h.videos, h.utterance, hrest hsttIn, h.recognition⟩
  | @opened first rest encoding sampleRate hnone hsttIn =>
    refine ⟨h.attachments, h.videos, h.utterance, hrest hsttIn, ?_⟩
    intro haudio r hr
    cases hr
    exact h.sttIn haudio first (hsttIn ▸ List.mem_cons_self)
  | ended hsome hsttIn | heard hsome hsttIn => exact hsame hsome hsttIn rfl
  | closed => exact ⟨h.attachments, h.videos, h.utterance, h.sttIn, nofun⟩
  | interim | final => exact h.of_eq rfl rfl rfl rfl rfl

theorem Stored.step (h : Stored bad audio s) (hbarred : ∀ i, bad i = true → s.ingressIsRevoked i = true)
    (hstep : step settings s e = some s') : Stored bad audio s' := by
  cases e with
  | push event owner =>
    obtain ⟨queued, waiting, heq⟩ := pushIn_eq s { event, owner }
    rw [← some.inj hstep, heq]
    exact h.of_eq rfl rfl rfl rfl rfl
  | journaled k =>
    obtain ⟨queued, waiting, rfl⟩ := journaled_eq hstep
    exact h.of_eq rfl rfl rfl rfl rfl
  | take | grant | timer | revoke => exact h.approaches hbarred (approaches_step rfl hstep)
  | requestAnswered | drained | expired =>
    obtain ⟨-, -, hframes, -⟩ := frames_resumed rfl hstep
    exact h.frames hframes
  | hooked error =>
    obtain ⟨-, -, -, -, hframes, -⟩ := frames_hooked hstep
    exact h.frames hframes
  | pumpStopped =>
    obtain ⟨_, _, _, -, rfl⟩ := pumpStopped_cases hstep
    refine Stored.frames ?_ (keeps_revokeTurn _ _ _).toFrames
    refine ⟨h.attachments, h.videos, h.utterance, ?_, fun _ _ h => nomatch h⟩
    exact fun haudio i hi => h.sttIn haudio i (List.mem_filter.mp hi).1
  | runner j move =>
    rw [Session.step] at hstep
    split at hstep
    · rename_i turn hturn
      obtain ⟨t', started, frames, -, -, rfl⟩ := runnerStep_eq hturn hstep
      exact h.of_eq rfl rfl rfl rfl rfl
    · cases hstep
  | listen | pull | recognise | recognised => exact h.hears (hears_cases rfl hstep).2

/-! ### Who comes to wait -/

def Joins (s : StreamSession) (waiters : List Waiter) : Prop :=
  ∃ w : Option Waiter, (∀ v ∈ w, ∀ m ∈ v.messages, s.ingressIsRevoked m.ingress = false) ∧
    waiters.Sublist (s.waiters ++ w.toList)

theorem joins_sublist {waiters : List Waiter} (h : waiters.Sublist s.waiters) : Joins s waiters :=
  ⟨none, by simp, by simpa using h⟩

theorem joins_silent {w : Waiter} (hw : w.messages = []) : Joins s (s.waiters ++ [w]) := by
  refine ⟨some w, ?_, .refl _⟩
  intro v hv m hm
  cases hv
  simp [hw] at hm

theorem waiters_revokeIngressDevice (s : StreamSession) (deviceId : String) (epoch : Nat) :
    (s.revokeIngressDevice deviceId epoch).waiters.Sublist s.waiters := by
  unfold StreamSession.revokeIngressDevice
  have hdropped := kept_dropRevoked s deviceId epoch
  dsimp only
  split
  · exact hdropped.waiters
  · exact (keeps_revokeTurn _ _ _).waiters.trans hdropped.waiters

theorem waiters_enter (hlock : s.lock = none) (w : Waiter) : (s.enter settings w).waiters.Sublist s.waiters := by
  obtain ⟨caller, -, hkeeps⟩ | ⟨deviceId, epoch, rfl⟩ := @enter_cases settings s hlock w
  · exact hkeeps.waiters
  · exact waiters_revokeIngressDevice s deviceId epoch

theorem joins_approaches (happroaches : Approaches settings s e s') : Joins s s'.waiters := by
  cases happroaches with
  | dropped | filmed | attached | told => exact joins_sublist (.refl _)
  | spoken => exact of_spoken (p := fun s' => Joins s s'.waiters) fun _ _ _ => joins_sublist (.refl _)
  | waits hcomes =>
    cases hcomes with
    | text hinbound hkept hsays serial =>
      refine ⟨some _, ?_, .refl _⟩
      intro v hv m hm
      cases hv
      rw [List.mem_singleton.mp hm]
      exact hkept
    | interrupt | timer | revoke => exact joins_silent rfl
  | @enters e w t hcomes hfree =>
    have hwaiters : t.waiters = s.waiters := by cases hcomes <;> rfl
    apply joins_sublist
    rw [← hwaiters]
    exact waiters_enter ((lock_comes hcomes).trans (lock_of_lockFree hfree)) w
  | @granted w rest hlock hwaiters =>
    apply joins_sublist
    rw [hwaiters]
    exact (@waiters_enter settings { s with waiters := rest } hlock w).cons w

theorem joins_step (hstep : step settings s e = some s') : Joins s s'.waiters := by
  cases e with
  | push | journaled | runner | listen | pull | recognise | recognised =>
    obtain ⟨_, _, _, _, _, _, _, -, rfl⟩ := away_eq rfl hstep
    exact joins_sublist (.refl _)
  | take | grant | timer | revoke => exact joins_approaches (approaches_step rfl hstep)
  | requestAnswered | drained | expired =>
    obtain ⟨-, -, hframes, -⟩ := frames_resumed rfl hstep
    exact joins_sublist hframes.waiters
  | hooked error =>
    obtain ⟨-, -, -, -, hframes, -⟩ := frames_hooked hstep
    exact joins_sublist hframes.waiters
  | pumpStopped =>
    obtain ⟨deviceId, epoch, _, -, rfl⟩ := pumpStopped_cases hstep
    exact joins_sublist (keeps_revokeTurn (s.silenced deviceId epoch) deviceId epoch).waiters

def Queues (s : StreamSession) : Prop := s.waiters.Pairwise fun w v => ∀ deviceId epoch,
  w = .revocation deviceId epoch → ∀ m ∈ v.messages, isRevokedOwner deviceId epoch m.ingress = false

theorem Queues.step (h : Queues s) (hbarred : Barred s) (hstep : step settings s e = some s') :
    Queues s' := by
  obtain ⟨w, hfresh, hsub⟩ := joins_step hstep
  refine List.Pairwise.sublist hsub ?_
  rw [List.pairwise_append]
  refine ⟨h, ?_, ?_⟩
  · cases w with
    | none => exact List.Pairwise.nil
    | some v => exact List.pairwise_singleton _ v
  · intro v hv u hu deviceId epoch heq m hm
    rw [← Bool.not_eq_true]
    intro hrevoked
    subst heq
    have hheld := revoked_of_bars (hbarred.waiters deviceId epoch hv) hrevoked
    simp [hfresh u (Option.mem_toList.mp hu) m hm] at hheld

/-! ### Beside a holder of the lock -/

def Step.beside : Step → Bool
  | .requestAnswered _ | .drained | .expired | .hooked _ | .pumpStopped => false
  | .listen | .pull | .recognise _ _ | .recognised => false
  | _ => true

structure Beside (s s' : StreamSession) : Prop where
  lock : s'.lock = s.lock
  burst : s'.pendingBurst = s.pendingBurst
  returned : s'.returned = s.returned
  recognition : s'.recognition = s.recognition

theorem lockFree_of_lock {h : Holder} (hlock : s.lock = some h) : ¬ s.lockFree = true := by
  simp [StreamSession.lockFree, hlock]

theorem beside_approaches {h : Holder} (hlock : s.lock = some h)
    (happroaches : Approaches settings s e s') : Beside s s' := by
  cases happroaches with
  | dropped | filmed | attached | told => exact ⟨rfl, rfl, rfl, rfl⟩
  | spoken => exact of_spoken (p := Beside s) fun _ _ _ => ⟨rfl, rfl, rfl, rfl⟩
  | waits hcomes => cases hcomes <;> exact ⟨rfl, rfl, rfl, rfl⟩
  | enters hcomes hfree => exact absurd hfree (lockFree_of_lock hlock)
  | granted hnone =>
    simp [hlock] at hnone

theorem beside_step {h : Holder} (hlock : s.lock = some h) (he : e.beside = true)
    (hstep : step settings s e = some s') : Beside s s' := by
  cases e with
  | push event owner =>
    obtain ⟨queued, waiting, heq⟩ := pushIn_eq s { event, owner }
    rw [← some.inj hstep, heq]
    exact ⟨rfl, rfl, rfl, rfl⟩
  | journaled k =>
    obtain ⟨queued, waiting, rfl⟩ := journaled_eq hstep
    exact ⟨rfl, rfl, rfl, rfl⟩
  | take | grant | timer | revoke => exact beside_approaches hlock (approaches_step rfl hstep)
  | runner j move =>
    rw [Session.step] at hstep
    split at hstep
    · rename_i turn hturn
      obtain ⟨t', started, frames, -, -, rfl⟩ := runnerStep_eq hturn hstep
      exact ⟨rfl, rfl, rfl, rfl⟩
    · cases hstep
  | _ => cases he

def Begins (s : StreamSession) (e : Step) (deviceId : String) (epoch : Nat) (t : StreamSession) : Prop :=
  (∃ asked, e = .revoke deviceId asked ∧ s.lockFree = true ∧ epoch = s.revocationEpoch deviceId asked ∧
    t = s.barrier deviceId epoch) ∨
  ∃ rest, e = .grant ∧ s.waiters = .revocation deviceId epoch :: rest ∧ t = { s with waiters := rest }

def Unrevoked (s s' : StreamSession) : Prop :=
  s'.returned = s.returned ∧ ∀ h deviceId epoch, s'.lock = some h → h.caller ≠ .revocation deviceId epoch

theorem Keeps.unrevoked {caller : Caller} (h : Keeps caller s s')
    (hcaller : ∀ deviceId epoch, caller ≠ .revocation deviceId epoch) : Unrevoked s s' := by
  constructor
  · refine h.returned.resolve_right ?_
    rintro ⟨-, deviceId, epoch, heq, -⟩
    exact hcaller deviceId epoch heq
  · intro holder deviceId epoch hsome heq
    exact hcaller deviceId epoch ((h.lock holder hsome).symm.trans heq)

theorem unrevoked_of_eq (hlock : s.lock = none) (hlock' : s'.lock = s.lock)
    (hreturned : s'.returned = s.returned) : Unrevoked s s' := by
  refine ⟨hreturned, ?_⟩
  intro h _ _ hsome
  simp [hlock', hlock] at hsome

theorem unlocked_approaches (hlock : s.lock = none) (happroaches : Approaches settings s e s') :
    Unrevoked s s' ∨ ∃ deviceId epoch t, Begins s e deviceId epoch t ∧
      s' = t.revokeIngressDevice deviceId epoch := by
  cases happroaches with
  | dropped | filmed | attached | told => exact .inl (unrevoked_of_eq hlock rfl rfl)
  | spoken => exact of_spoken (p := fun s' => Unrevoked s s' ∨ _) fun _ _ _ => .inl (unrevoked_of_eq hlock rfl rfl)
  | waits hcomes => cases hcomes <;> exact .inl (unrevoked_of_eq hlock rfl rfl)
  | @enters e w t hcomes hfree =>
    obtain ⟨caller, hcaller, hkeeps⟩ | ⟨deviceId, epoch, rfl⟩ := @enter_cases settings t
      ((lock_comes hcomes).trans hlock) w
    · have hreturned : t.returned = s.returned := by cases hcomes <;> rfl
      have hunrevoked := hkeeps.unrevoked hcaller
      exact .inl ⟨hunrevoked.1.trans hreturned, hunrevoked.2⟩
    · cases hcomes
      exact .inr ⟨_, _, _, .inl ⟨_, rfl, hfree, rfl, rfl⟩, rfl⟩
  | @granted w rest _ hwaiters =>
    obtain ⟨caller, hcaller, hkeeps⟩ | ⟨deviceId, epoch, rfl⟩ := @enter_cases settings
      { s with waiters := rest } hlock w
    · exact .inl (hkeeps.unrevoked hcaller)
    · exact .inr ⟨deviceId, epoch, _, .inr ⟨rest, rfl, hwaiters, rfl⟩, rfl⟩

theorem unlocked_step (hlock : s.lock = none) (hstep : step settings s e = some s') :
    Unrevoked s s' ∨ ∃ deviceId epoch t, Begins s e deviceId epoch t ∧
      s' = t.revokeIngressDevice deviceId epoch := by
  cases e with
  | push | journaled | runner | listen | pull | recognise | recognised =>
    obtain ⟨_, _, _, _, _, _, _, -, rfl⟩ := away_eq rfl hstep
    exact .inl (unrevoked_of_eq hlock rfl rfl)
  | take | grant | timer | revoke => exact unlocked_approaches hlock (approaches_step rfl hstep)
  | requestAnswered | drained | expired =>
    obtain ⟨h, hsome, -⟩ := frames_resumed rfl hstep
    simp [hlock] at hsome
  | hooked error =>
    obtain ⟨h, -, hsome, -⟩ := frames_hooked hstep
    simp [hlock] at hsome
  | pumpStopped =>
    obtain ⟨_, _, _, hsome, -⟩ := pumpStopped_cases hstep
    simp [hlock] at hsome

end OpenAgent.Session
