import OpenAgent.Session.Ownership
import OpenAgent.Session.Speech

/-!
# No turn mixes owners

The texts of a turn are of its owner while the burst is. Attachments and video frames wait by connection
and not by host, and a chunk joins an utterance by connection and not by host, so a connection that speaks
for two hosts has to be told apart there as well.
-/

namespace OpenAgent.Session

open Lib List Option Bool

variable {settings : Settings} {s s' : StreamSession}

/-- Everything that goes into a turn is of the owner it runs under, and the author it is attributed to wrote
all of its text; the recogniser hears one utterance of one owner. -/
structure Unmixed (settings : Settings) (s : StreamSession) : Prop where
  pieces : ∀ t ∈ s.turns, ∀ p ∈ t.message.pieces,
    p.owner = t.message.owner ∧ (p.author <|> settings.handle) = t.author
  speech : ∀ t ∈ s.turns, ∀ p ∈ t.message.pieces, ∀ i ∈ p.speech, i.pushedBy = t.message.owner
  text : ∀ t ∈ s.turns, strip t.message.text = joinTexts (t.message.pieces.map (·.text))
  attachments : ∀ t ∈ s.turns, ∀ i ∈ t.attachments, i.owner = t.message.owner
  consecutive : ∀ r, s.recognition = some r →
    r.heard.IsChain fun a b => b.utterance = a.utterance ∧ b.place = a.place + 1
  heard : ∀ r, s.recognition = some r → ∀ i ∈ r.heard, i.pushedBy = r.owner

def mixingRule (settings : Settings) : Rule where
  credit author := author <|> settings.handle
  sound owner speech := ∀ i ∈ speech, i.pushedBy = owner
  past := true

def speaksApart (s : StreamSession) (q : Queued) : Bool :=
  match q.event with
  | .audioChunk data _ _ _ => data = [] || s.sttUtterance.all fun u =>
    u.owner.ingressIdentity ≠ q.owner.ingressIdentity || u.owner = q.owner
  | _ => true

def startsApart (s : StreamSession) (m : Message) : Bool :=
  (s.pendingAttachments.all fun i =>
    i.owner.ingressIdentity ≠ m.owner.ingressIdentity || i.owner = m.owner) &&
  s.videoBuffers.entries.all fun e =>
    e.1.1 ≠ m.owner.ingressIdentity || e.2.imageBytes.isEmpty || e.2.pushedBy = m.owner

def staysApart (settings : Settings) (s : StreamSession) (e : Step) : Bool :=
  mergesApart (mixingRule settings) s e &&
    match e with
    | .take => s.inbound.head?.all (speaksApart s)
    | .hooked _ => s.lock.all fun h =>
      match h.await with
      | .hook m => startsApart s m
      | .cancelling _ | .pump => true
    | _ => true

/-! ### The audio is of its owner -/

/-- Recognised speech and the chunks on their way to the recogniser were pushed by the owner they carry. -/
structure Voiced (s : StreamSession) : Prop where
  queued : ∀ q ∈ s.journaling ++ s.inbound, ∀ i ∈ q.speech, i.pushedBy = q.owner
  waiting : ∀ i ∈ s.sttIn, i.pushedBy = i.owner ∨ i.endOfUtterance = true
  heard : ∀ r, s.recognition = some r → ∀ i ∈ r.heard, i.pushedBy = i.owner

theorem Voiced.frames (h : Voiced s) (hframes : Frames s s') : Voiced s' where
  queued := by
    rw [hframes.journaling, hframes.inbound]
    exact h.queued
  waiting := by
    rw [hframes.sttIn]
    exact h.waiting
  heard := by
    rw [hframes.recognition]
    exact h.heard

theorem Voiced.of_eq (h : Voiced s) (hjournaling : s'.journaling = s.journaling)
    (hinbound : ∀ q ∈ s'.inbound, q ∈ s.inbound) (hsttIn : s'.sttIn = s.sttIn)
    (hrecognition : s'.recognition = s.recognition) : Voiced s' where
  queued q hq := by
    rw [hjournaling] at hq
    rcases List.mem_append.mp hq with hold | hnew
    · exact h.queued q (mem_append_left _ hold)
    · exact h.queued q (mem_append_right _ (hinbound q hnew))
  waiting := hsttIn ▸ h.waiting
  heard := hrecognition ▸ h.heard

theorem Voiced.pushIn (h : Voiced s) {q : Queued} (hq : ∀ i ∈ q.speech, i.pushedBy = q.owner) :
    Voiced (s.pushIn q) := by
  have hqueued : Voiced { s with inbound := s.inbound ++ [q] } := by
    refine ⟨?_, h.waiting, h.heard⟩
    intro p hp
    rw [← append_assoc] at hp
    rcases List.mem_append.mp hp with hold | hnew
    · exact h.queued p hold
    · rw [List.mem_singleton.mp hnew]
      exact hq
  have hjournaling : Voiced { s with journaling := s.journaling ++ [q] } := by
    refine ⟨?_, h.waiting, h.heard⟩
    intro p hp
    rcases List.mem_append.mp hp with hwaiting | hold
    · rcases List.mem_append.mp hwaiting with hold | hnew
      · exact h.queued p (mem_append_left _ hold)
      · rw [List.mem_singleton.mp hnew]
        exact hq
    · exact h.queued p (mem_append_right _ hold)
  unfold StreamSession.pushIn
  split
  · exact h
  · split
    · split
      · exact hqueued
      · exact hjournaling
    · exact hqueued

theorem Voiced.journaled (h : Voiced s) {k : Nat} (hstep : s.journaled k = some s') : Voiced s' := by
  unfold StreamSession.journaled at hstep
  split at hstep
  · cases hstep
  · rename_i q hq
    have hkept : ∀ p ∈ s.journaling.eraseIdx k ++ s.inbound ++ [q], ∀ i ∈ p.speech, i.pushedBy = p.owner := by
      intro p hp
      apply h.queued p
      rcases List.mem_append.mp hp with hold | hnew
      · rcases List.mem_append.mp hold with hwaiting | hinbound
        · exact mem_append_left _ (mem_of_mem_eraseIdx hwaiting)
        · exact mem_append_right _ hinbound
      · rw [List.mem_singleton.mp hnew]
        exact mem_append_left _ (mem_of_getElem? hq)
    dsimp only at hstep
    split at hstep
    · cases hstep
      exact ⟨fun p hp => hkept p (mem_append_left _ hp), h.waiting, h.heard⟩
    · cases hstep
      refine ⟨?_, h.waiting, h.heard⟩
      intro p hp
      apply hkept p
      rw [append_assoc]
      exact hp

theorem Voiced.queue (h : Voiced s) {x : STTInput} (hx : x.pushedBy = x.owner ∨ x.endOfUtterance = true)
    {utterance : Option Utterance} {number : Nat} :
    Voiced { s with sttUtterance := utterance, utterances := number, sttIn := s.sttIn ++ [x] } where
  queued := h.queued
  waiting i hi := by
    rcases List.mem_append.mp hi with hold | hnew
    · exact h.waiting i hold
    · rwa [List.mem_singleton.mp hnew]
  heard := h.heard

theorem Voiced.audioData (h : Voiced s) {owner : Owner} {data : List UInt8} {encoding : String}
    {sampleRate : Nat} (hapart : data = [] ∨ ∀ u, s.sttUtterance = some u →
      u.owner.ingressIdentity = owner.ingressIdentity → u.owner = owner) :
    Voiced (s.audioData owner data encoding sampleRate) := by
  unfold StreamSession.audioData
  split
  · exact h
  · rename_i hdata
    split
    · exact h.queue (.inl rfl)
    · rename_i u hopen
      split
      · exact h
      · rename_i hsame
        obtain hempty | hjoins := hapart
        · exact absurd hempty hdata
        · exact h.queue (.inl (hjoins u hopen (not_not.mp hsame).symm).symm)

theorem Voiced.audioEnd (h : Voiced s) (owner : Owner) : Voiced (s.audioEnd owner) := by
  unfold StreamSession.audioEnd
  split
  · exact h
  · split
    · exact h
    · exact h.queue (.inr rfl)

theorem Voiced.revokeIngressDevice (h : Voiced s) (deviceId : String) (epoch : Nat) :
    Voiced (s.revokeIngressDevice deviceId epoch) := by
  unfold StreamSession.revokeIngressDevice
  have hdropped := h.frames (kept_dropRevoked s deviceId epoch).toFrames
  dsimp only
  split
  · exact hdropped.of_eq rfl (fun _ hp => hp) rfl rfl
  · exact hdropped.frames (keeps_revokeTurn _ _ _).toFrames

theorem Voiced.enter (h : Voiced s) (hlock : s.lock = none) (w : Waiter) : Voiced (s.enter settings w) := by
  obtain ⟨caller, -, hkeeps⟩ | ⟨deviceId, epoch, rfl⟩ := @enter_cases settings s hlock w
  · exact h.frames hkeeps.toFrames
  · exact h.revokeIngressDevice deviceId epoch

theorem Voiced.comes (h : Voiced s) {e : Step} {w : Waiter} {t : StreamSession} (hcomes : Comes s e w t) :
    Voiced t := by
  cases hcomes with
  | text hinbound | interrupt hinbound => exact h.of_eq rfl (fun p hp => hinbound ▸ .tail _ hp) rfl rfl
  | timer | revoke => exact h.of_eq rfl (fun _ hp => hp) rfl rfl

theorem Voiced.approaches (h : Voiced s) {e : Step} (hapart : staysApart settings s e = true)
    (happroaches : Approaches settings s e s') : Voiced s' := by
  cases happroaches with
  | dropped hinbound | filmed hinbound | attached hinbound | told hinbound =>
    exact h.of_eq rfl (fun p hp => hinbound ▸ .tail _ hp) rfl rfl
  | @spoken q rest data endOfSpeech encoding sampleRate hinbound hkept hevent =>
    have htaken : Voiced { s with inbound := rest } :=
      h.of_eq rfl (fun p hp => hinbound ▸ .tail q hp) rfl rfl
    have hjoins : data = [] ∨ ∀ u, s.sttUtterance = some u →
        u.owner.ingressIdentity = q.owner.ingressIdentity → u.owner = q.owner := by
      have hspeaks := (Bool.and_eq_true_iff.mp hapart).2
      simp only [hinbound, head?_cons, all_some, speaksApart, hevent] at hspeaks
      rw [or_eq_true, decide_eq_true_eq] at hspeaks
      refine hspeaks.imp_right ?_
      intro hall u hopen hsame
      rw [hopen, all_some] at hall
      simpa [hsame] using hall
    split
    · exact (htaken.audioData hjoins).audioEnd q.owner
    · exact htaken.audioData hjoins
  | waits hcomes => exact (h.comes hcomes).of_eq rfl (fun _ hp => hp) rfl rfl
  | enters hcomes hfree => exact (h.comes hcomes).enter ((lock_comes hcomes).trans (lock_of_lockFree hfree)) _
  | @granted w rest hlock =>
    have hgranted : Voiced { s with waiters := rest } := h.of_eq rfl (fun _ hp => hp) rfl rfl
    exact hgranted.enter hlock w

theorem Voiced.hears (h : Voiced s) (hhearing : Hearing s) (hhears : Hears s s') : Voiced s' := by
  have hrest : ∀ {piece rest}, s.sttIn = piece :: rest → ∀ i ∈ rest, i.pushedBy = i.owner ∨ i.endOfUtterance = true :=
    fun haudio i hi => h.waiting i (haudio ▸ .tail _ hi)
  cases hhears with
  | passed _ haudio | skipped _ haudio => exact ⟨h.queued, hrest haudio, h.heard⟩
  | @opened first rest encoding sampleRate hnone haudio hspeech =>
    refine ⟨h.queued, hrest haudio, ?_⟩
    intro r hr i hi
    rw [← some.inj hr] at hi
    rw [List.mem_singleton.mp hi]
    exact (h.waiting first (haudio ▸ mem_cons_self)).resolve_right (Bool.eq_false_iff.mp hspeech)
  | @ended r piece rest hsome haudio =>
    refine ⟨h.queued, hrest haudio, ?_⟩
    intro r' hr'
    cases hr'
    exact h.heard r hsome
  | @heard r piece rest hsome haudio hlive hspeech =>
    refine ⟨h.queued, hrest haudio, ?_⟩
    intro r' hr' i hi
    rw [← some.inj hr'] at hi
    rcases List.mem_append.mp hi with hold | hnew
    · exact h.heard r hsome i hold
    · rw [List.mem_singleton.mp hnew]
      exact (h.waiting piece (haudio ▸ mem_cons_self)).resolve_right (Bool.eq_false_iff.mp hspeech)
  | closed => exact ⟨h.queued, h.waiting, fun _ hr => nomatch hr⟩
  | interim => exact h.of_eq rfl (fun _ hp => hp) rfl rfl
  | @final r hsome =>
    refine ⟨?_, h.waiting, h.heard⟩
    intro q hq i hi
    rw [← append_assoc] at hq
    rcases List.mem_append.mp hq with hold | hnew
    · exact h.queued q hold i hi
    · obtain rfl := List.mem_singleton.mp hnew
      exact (h.heard r hsome i hi).trans ((hhearing.together r hsome).owned i hi)

theorem Voiced.step (h : Voiced s) (hhearing : Hearing s) {e : Step} (hapart : staysApart settings s e = true)
    (hstep : step settings s e = some s') : Voiced s' := by
  cases e with
  | push event owner =>
    cases hstep
    exact h.pushIn fun i hi => by cases hi
  | journaled k => exact h.journaled hstep
  | take | grant | timer | revoke => exact h.approaches hapart (approaches_step rfl hstep)
  | requestAnswered | drained | expired =>
    obtain ⟨-, -, hframes, -⟩ := frames_resumed rfl hstep
    exact h.frames hframes
  | hooked error =>
    obtain ⟨-, -, -, -, hframes, -⟩ := frames_hooked hstep
    exact h.frames hframes
  | pumpStopped =>
    obtain ⟨_, _, _, -, rfl⟩ := pumpStopped_cases hstep
    refine Voiced.frames ?_ (keeps_revokeTurn _ _ _).toFrames
    exact ⟨h.queued, fun i hi => h.waiting i (List.mem_filter.mp hi).1, fun _ hr => by cases hr⟩
  | runner j move =>
    rw [Session.step] at hstep
    split at hstep
    · rename_i turn hturn
      obtain ⟨t', started, frames, -, -, rfl⟩ := runnerStep_eq hturn hstep
      exact h.of_eq rfl (fun _ hp => hp) rfl rfl
    · cases hstep
  | listen | pull | recognise | recognised => exact h.hears hhearing (hears_cases rfl hstep).2

/-! ### What a turn is started with -/

def Charged (settings : Settings) (charge : Message × List Item × Option String) : Prop :=
  charge.2.2 = (charge.1.author <|> settings.handle) ∧ ∀ i ∈ charge.2.1, i.owner = charge.1.owner

theorem charged_startTurn {m : Message} (hm : ∀ i ∈ m.attachments, i.owner = m.owner)
    (hapart : startsApart s m = true) (h : ∀ charge ∈ s.turns.map Turn.charge, Charged settings charge) :
    ∀ charge ∈ (s.startTurn settings m).turns.map Turn.charge, Charged settings charge := by
  rw [startsApart, and_eq_true] at hapart
  have hpending : ∀ i ∈ s.pendingAttachments,
      i.owner.ingressIdentity = m.owner.ingressIdentity → i.owner = m.owner := by
    intro i hi hsame
    have hall := List.all_eq_true.mp hapart.1 i hi
    simpa [hsame] using hall
  have hframes : ∀ i ∈ s.snapshotVideoFrames m.owner.ingressIdentity, i.owner = m.owner := by
    intro i hi
    obtain ⟨e, he, rfl⟩ := List.mem_map.mp hi
    obtain ⟨hentry, hlatest⟩ := List.mem_filter.mp he
    have hall := List.all_eq_true.mp hapart.2 e hentry
    simp only [and_eq_true, decide_eq_true_eq, not_eq_true'] at hlatest
    simpa [hlatest.1, hlatest.2] using hall
  unfold StreamSession.startTurn
  dsimp only
  split
  · exact h
  · intro charge hcharge
    rw [map_append] at hcharge
    rcases List.mem_append.mp hcharge with hold | hnew
    · exact h charge hold
    · rw [List.mem_singleton.mp hnew]
      refine ⟨rfl, ?_⟩
      intro i hi
      rcases List.mem_append.mp hi with hready | hframe
      · rcases List.mem_append.mp hready with hown | hwaiting
        · exact hm i hown
        · obtain ⟨hmem, hsame⟩ := List.mem_filter.mp hwaiting
          exact hpending i hmem (of_decide_eq_true hsame)
      · exact hframes i hframe

theorem charged_refuse {m : Message} {error : String}
    (h : ∀ charge ∈ s.turns.map Turn.charge, Charged settings charge) :
    ∀ charge ∈ (s.refuse settings m error).turns.map Turn.charge, Charged settings charge := by
  intro charge hcharge
  rw [StreamSession.refuse, map_append] at hcharge
  rcases List.mem_append.mp hcharge with hold | hnew
  · exact h charge hold
  · rw [List.mem_singleton.mp hnew]
    exact ⟨rfl, fun i hi => nomatch hi⟩

theorem charged_step (howned : Owned (mixingRule settings) s) {e : Step}
    (hapart : staysApart settings s e = true) (hstep : step settings s e = some s')
    (h : ∀ charge ∈ s.turns.map Turn.charge, Charged settings charge) :
    ∀ charge ∈ s'.turns.map Turn.charge, Charged settings charge := by
  by_cases hhook : ∃ error, e = .hooked error
  · obtain ⟨error, rfl⟩ := hhook
    obtain ⟨holder, m, hlock, hawait, hanswer⟩ := hooked_cases hstep
    have hm : m.Pure (mixingRule settings) := by
      apply (howned.lock holder hlock).awaited
      rw [hawait]
      exact List.mem_singleton.mpr rfl
    have hready := (Bool.and_eq_true_iff.mp hapart).2
    simp only [hlock, all_some, hawait] at hready
    obtain ⟨-, rfl⟩ | ⟨-, rfl⟩ := hanswer
    · rw [(keeps_proceed _ _ _).charges]
      exact charged_startTurn hm.attachments hready h
    · rw [(keeps_proceed _ _ _).charges]
      exact charged_refuse h
  · rw [(grown_step hstep fun error heq => hhook ⟨error, heq⟩).charges]
    exact h

/-! ### Runs -/

/-- What holds of every state in which nothing was brought together that is of two owners or authors. -/
structure Apart (settings : Settings) (s : StreamSession) : Prop where
  owned : Owned (mixingRule settings) s
  barred : Barred s
  hearing : Hearing s
  voiced : Voiced s
  charged : ∀ charge ∈ s.turns.map Turn.charge, Charged settings charge

theorem apart_empty (settings : Settings) : Apart settings {} where
  owned := ⟨⟨(fun _ hm => nomatch hm), uniform_nil, (fun _ hw => nomatch hw), (fun _ hm => nomatch hm)⟩,
    fun _ hlock => nomatch hlock⟩
  barred := barred_empty
  hearing := hearing_empty
  voiced := ⟨(fun _ hq => nomatch hq), (fun _ hi => nomatch hi), fun _ hr => nomatch hr⟩
  charged _ hcharge := nomatch hcharge

theorem Apart.step (h : Apart settings s) {e : Step} (hapart : staysApart settings s e = true)
    (hstep : step settings s e = some s') : Apart settings s' where
  owned := by
    refine h.owned.step ?_ (Bool.and_eq_true_iff.mp hapart).1 hstep
    intro q hq _ _ _
    exact h.voiced.queued q (mem_append_right _ hq)
  barred := h.barred.step hstep
  hearing := h.hearing.step h.barred hstep
  voiced := h.voiced.step h.hearing hapart hstep
  charged := charged_step h.owned hapart hstep h.charged

theorem Apart.unmixed (h : Apart settings s) : Unmixed settings s := by
  have hpure : ∀ t ∈ s.turns, t.message.Pure (mixingRule settings) :=
    fun t ht => h.owned.turns t ht (.inl rfl)
  have hcharged : ∀ t ∈ s.turns, Charged settings t.charge :=
    fun t ht => h.charged _ (mem_map_of_mem ht)
  have hkey : ∀ t ∈ s.turns, ∀ p ∈ t.message.pieces,
      p.owner = t.message.owner ∧ (p.author <|> settings.handle) = (t.message.author <|> settings.handle) :=
    fun t ht p hp => Prod.mk.inj ((hpure t ht).pieces p hp)
  refine ⟨?_, ?_, ?_, ?_, ?_, ?_⟩
  · intro t ht p hp
    exact ⟨(hkey t ht p hp).1, (hkey t ht p hp).2.trans (hcharged t ht).1.symm⟩
  · intro t ht p hp i hi
    exact ((hpure t ht).sound p hp i hi).trans (hkey t ht p hp).1
  · intro t ht
    rw [strip, (hpure t ht).joined, String.ofList_toList]
  · intro t ht
    exact (hcharged t ht).2
  · intro r hr
    refine (h.hearing.together r hr).consecutive.imp ?_
    intro a b hcontinues
    exact ⟨hcontinues.1, hcontinues.2.1⟩
  · intro r hr i hi
    exact (h.voiced.heard r hr i hi).trans ((h.hearing.together r hr).owned i hi)

/-- In a session that brings nothing of two owners or authors together, no turn mixes any. -/
theorem turns_unmixed (settings : Settings) (events : List Step) (s : StreamSession)
    (hapart : Along (step settings) (fun s e => staysApart settings s e = true) {} events)
    (hrun : run (step settings) {} events = some s) : Unmixed settings s := by
  apply Apart.unmixed
  exact run_invariant_along (fun _ _ _ hI hC hstep => Apart.step hI hC hstep) (apart_empty settings)
    hapart hrun

/-- Two typed texts with an attachment and a video frame become one turn, and what the phone says while it
runs becomes the next. -/
theorem turns_unmixed_spoken : ∃ s, Unmixed ⟨1200, true, none⟩ s ∧
    s.turns.map (fun t => (t.message.text, t.attachments.length)) = [("a\n\nb", 2), ("hello", 0)] := by
  let events : List Step :=
    [.push (.attachment { kind := "file", artifactId := some "f" } false) laptop, .take,
      .push (.videoFrame "cam" [1]) laptop, .take] ++ types laptop "a" ++ types laptop "b" ++
    [.push (.audioChunk [1] false "" 0) phone, .take, .push (.audioChunk [2] true "" 0) phone, .take,
      .listen, .pull, .timer, .hooked none, .recognise "hello" true, .recognised, .take,
      .requestAnswered true, .runner 0 .start, .runner 0 .hand, .runner 0 (.finish none),
      .runner 0 .answer, .runner 0 (.complete false), .runner 0 .exit, .drained, .hooked none]
  have htrace : (run (step ⟨1200, true, none⟩) {} events).map
      (fun s => s.turns.map fun t => (t.message.text, t.attachments.length)) =
        some [("a\n\nb", 2), ("hello", 0)] := rfl
  obtain ⟨s, hrun, hturns⟩ := Option.map_eq_some_iff.mp htrace
  exact ⟨s, turns_unmixed ⟨1200, true, none⟩ events s (by decide) hrun, hturns⟩

/-- The laptop's turn is put back before the phone's burst, and its next text joins them. -/
theorem burst_mixed : ∃ settings events s, run (step settings) {} events = some s ∧
    ¬ Unmixed settings s := by
  let events : List Step :=
    types laptop "a" ++ [.timer, .hooked none] ++
    types phone "b" ++ [.runner 0 .interrupted, .drained, .hooked none] ++
    types laptop "c" ++ [.runner 1 .interrupted, .drained, .timer, .hooked none]
  have htrace : (run (step ⟨1200, true, none⟩) {} events).map (fun s => s.turns.all fun t =>
      t.message.pieces.all fun p => p.owner = t.message.owner) = some false := rfl
  obtain ⟨s, hrun, hmixed⟩ := Option.map_eq_some_iff.mp htrace
  refine ⟨_, events, s, hrun, ?_⟩
  intro hunmixed
  rw [List.all_eq_false] at hmixed
  obtain ⟨t, ht, hpieces⟩ := hmixed
  apply hpieces
  rw [List.all_eq_true]
  intro p hp
  exact decide_eq_true (hunmixed.pieces t ht p hp).1

end OpenAgent.Session
