import OpenAgent.Session.Sweep

/-!
# Device revocation

A revocation that has returned has left nothing of its device below its epoch: nothing buffered, nothing on
its way to the recogniser and no turn that is not over. On its way it leaves the work of everyone else as it
was. Both need that no message holds texts of two owners, that no turn outlives its cancellation, and that
what the recogniser is at is of the device exactly when the device's utterance is still open.
-/

namespace OpenAgent.Session

open Lib Option Bool

variable {settings : Settings} {s s' t : StreamSession} {bad : Option Ingress → Bool} {deviceId : String}
  {epoch : Nat}

/-! ### What is asked of a revocation -/

def StreamSession.messages (s : StreamSession) : List Message :=
  s.pendingBurst ++ s.waiters.flatMap Waiter.messages ++
    (s.lock.toList.flatMap fun h => h.await.messages ++ h.rest.map Work.message) ++
    (s.turns.filter fun t => !t.over).map (·.message)

structure Cleared (bad : Option Ingress → Bool) (s : StreamSession) : Prop where
  messages : ∀ m ∈ s.messages, bad m.ingress = false ∧
    (∀ p ∈ m.pieces, bad p.owner.ingressIdentity = false) ∧
    ∀ i ∈ m.attachments, bad i.owner.ingressIdentity = false
  stored : Stored bad true s

def Message.ofOthers (bad : Option Ingress → Bool) (m : Message) : Bool :=
  !bad m.ingress || m.pieces.any fun p => !bad p.owner.ingressIdentity

structure Undisturbed (bad : Option Ingress → Bool) (s s' : StreamSession) : Prop where
  admitted : ∀ ingress, bad ingress = false → s'.ingressIsRevoked ingress = s.ingressIsRevoked ingress
  journaling : s'.journaling = s.journaling
  inbound : s'.inbound = s.inbound
  burst : s'.pendingBurst.filter (·.ofOthers bad) = s.pendingBurst.filter (·.ofOthers bad)
  timer : s.pendingBurst.any (·.ofOthers bad) = true →
    s'.burstTimer = s.burstTimer ∧ (.burstDrain ∈ s.waiters → .burstDrain ∈ s'.waiters)
  waiters : s'.waiters.flatMap Waiter.messages = s.waiters.flatMap Waiter.messages
  attachments : (s'.pendingAttachments.filter fun i => !bad i.owner.ingressIdentity) =
    s.pendingAttachments.filter fun i => !bad i.owner.ingressIdentity
  videos : (s'.videoBuffers.entries.filter fun e => !bad e.1.1) =
    s.videoBuffers.entries.filter fun e => !bad e.1.1
  utterance : (s'.sttUtterance.filter fun u => !bad u.owner.ingressIdentity) =
    s.sttUtterance.filter fun u => !bad u.owner.ingressIdentity
  sttIn : (s'.sttIn.filter fun i => !bad i.owner.ingressIdentity) =
    s.sttIn.filter fun i => !bad i.owner.ingressIdentity
  recognition : (s'.recognition.filter fun r => !bad r.owner.ingressIdentity) =
    s.recognition.filter fun r => !bad r.owner.ingressIdentity
  turns : ∀ (j : Nat) t, s.turns[j]? = some t → t.message.ofOthers bad = true → s'.turns[j]? = some t
  current : ∀ (j : Nat) t, s.running = some j → s.turns[j]? = some t → t.message.ofOthers bad = true →
    s'.currentTurn = some j ∧ s'.currentTurnStarted = s.currentTurnStarted
  suppress : s'.suppressRunnerCompletion = s.suppressRunnerCompletion
  outbound : s'.outbound = s.outbound

def StreamSession.revoking (s : StreamSession) : Step → Option (String × Nat)
  | .revoke deviceId epoch => some (deviceId, s.revocationEpoch deviceId epoch)
  | .grant =>
    match s.waiters with
    | .revocation deviceId epoch :: _ => some (deviceId, epoch)
    | _ => none
  | .requestAnswered _ | .drained | .expired | .pumpStopped =>
    match s.lock with
    | some ⟨.revocation deviceId epoch, _, _⟩ => some (deviceId, epoch)
    | _ => none
  | _ => none

def RevocationExact (settings : Settings) (events : List Step) : Prop :=
  ∀ front e s s', front ++ [e] <+: events → run (step settings) {} front = some s →
    step settings s e = some s' → ∀ r, s.revoking e = some r → Undisturbed (isRevokedOwner r.1 r.2) s s'

/-- A revocation that has returned has left nothing, and none has touched what is not its own. -/
structure RevocationSound (settings : Settings) (events : List Step) (s : StreamSession) : Prop where
  complete : ∀ r ∈ s.returned, Cleared (isRevokedOwner r.1 r.2) s
  exact : RevocationExact settings events

/-! ### The condition -/

def hearsApart (s : StreamSession) (deviceId : String) (epoch : Nat) : Bool :=
  let bad := isRevokedOwner deviceId epoch
  if s.sttUtterance.any fun u : Utterance => bad u.owner.ingressIdentity then
    s.recognition.all fun r : Recognition => bad r.owner.ingressIdentity
  else
    (s.recognition.all fun r : Recognition => !bad r.owner.ingressIdentity) &&
      s.sttIn.all fun i => !bad i.owner.ingressIdentity

def ownerRule : Rule where
  credit _ := none
  sound _ _ := True
  past := true

/-- No message holds texts of two owners, no turn outlives its cancellation, and a revocation that begins is
of a named device and finds the recogniser at the device's audio exactly while its utterance is open. -/
def revokesApart (s : StreamSession) (e : Step) : Bool :=
  mergesApart ownerRule s e && !outlives s e &&
    match e with
    | .revoke deviceId epoch =>
      deviceId ≠ "" && (!s.lockFree || hearsApart s deviceId (s.revocationEpoch deviceId epoch))
    | .grant =>
      match s.waiters with
      | .revocation deviceId epoch :: _ => deviceId ≠ "" && hearsApart s deviceId epoch
      | _ => true
    | _ => true

/-! ### Messages of others -/

def clearedRule (deviceId : String) (epoch : Nat) : Rule where
  credit _ := none
  sound owner _ := isRevokedOwner deviceId epoch owner.ingressIdentity = false
  past := false

theorem Message.Pure.owner {rule : Rule} {m : Message} (h : m.Pure rule) {p : Piece} (hp : p ∈ m.pieces) :
    p.owner = m.owner := congrArg Prod.fst (h.pieces p hp)

theorem Message.Pure.cleared {m : Message} (h : m.Pure ownerRule)
    (hm : isRevokedOwner deviceId epoch m.ingress = false) : m.Pure (clearedRule deviceId epoch) where
  pieces := h.pieces
  sound p hp := by
    show isRevokedOwner deviceId epoch p.owner.ingressIdentity = false
    rw [h.owner hp]
    exact hm
  nonempty := h.nonempty
  attachments := h.attachments
  joined := h.joined

theorem Message.Pure.others {m : Message} (h : m.Pure (clearedRule deviceId epoch)) :
    isRevokedOwner deviceId epoch m.ingress = false ∧
      (∀ p ∈ m.pieces, isRevokedOwner deviceId epoch p.owner.ingressIdentity = false) ∧
      ∀ i ∈ m.attachments, isRevokedOwner deviceId epoch i.owner.ingressIdentity = false := by
  have hm : isRevokedOwner deviceId epoch m.ingress = false := by
    obtain ⟨p, hp⟩ := List.exists_mem_of_ne_nil _ h.nonempty
    have hsound := h.sound p hp
    rw [h.owner hp] at hsound
    exact hsound
  refine ⟨hm, h.sound, ?_⟩
  intro i hi
  rw [h.attachments i hi]
  exact hm

theorem Message.Pure.ofOthers {rule : Rule} {m : Message} (h : m.Pure rule) :
    m.ofOthers bad = !bad m.ingress := by
  rw [Message.ofOthers]
  cases hm : bad m.ingress with
  | false => rfl
  | true =>
    rw [Bool.not_true, Bool.false_or, List.any_eq_false]
    intro p hp
    rw [h.owner hp]
    simpa [Message.ingress] using hm

theorem filter_ofOthers {rule : Rule} {msgs : List Message} (h : ∀ m ∈ msgs, m.Pure rule) :
    msgs.filter (·.ofOthers bad) = msgs.filter fun m => !bad m.ingress :=
  List.filter_congr fun m hm => (h m hm).ofOthers

theorem owned_messages {rule : Rule} (h : Owned rule s) : ∀ m ∈ s.messages, m.Pure rule := by
  intro m hm
  rw [StreamSession.messages] at hm
  rcases List.mem_append.mp hm with hm | hturn
  · rcases List.mem_append.mp hm with hm | hheld
    · rcases List.mem_append.mp hm with hburst | hwaits
      · exact h.burst m hburst
      · obtain ⟨w, hw, hmem⟩ := List.mem_flatMap.mp hwaits
        exact h.waiters w hw m hmem
    · obtain ⟨holder, hlock, hmem⟩ := List.mem_flatMap.mp hheld
      have hfits := h.lock holder (Option.mem_toList.mp hlock)
      rcases List.mem_append.mp hmem with hawait | hrest
      · exact hfits.awaited m hawait
      · obtain ⟨w, hw, rfl⟩ := List.mem_map.mp hrest
        exact hfits.rest w hw
  · obtain ⟨t, ht, rfl⟩ := List.mem_map.mp hturn
    obtain ⟨hmem, hlive⟩ := List.mem_filter.mp ht
    exact h.turns t hmem (.inr (by simpa using hlive))

theorem cleared_of_owned (howned : Owned (clearedRule deviceId epoch) s)
    (hstored : Stored (isRevokedOwner deviceId epoch) true s) :
    Cleared (isRevokedOwner deviceId epoch) s where
  messages m hm := (owned_messages howned m hm).others
  stored := hstored

/-! ### What a revocation under way has done -/

def Await.pumps : Await → Bool
  | .pump => true
  | .cancelling _ | .hook _ => false

structure Swept (bad : Option Ingress → Bool) (s : StreamSession) : Prop where
  burst : ∀ m ∈ s.pendingBurst, bad m.ingress = false
  waiters : ∀ w ∈ s.waiters, ∀ m ∈ w.messages, bad m.ingress = false

structure Sweeping (bad : Option Ingress → Bool) (s : StreamSession) (h : Holder) : Prop
    extends Swept bad s, Stored bad (!h.await.pumps) s where
  heard : h.await.pumps = true → ∀ r, s.recognition = some r → bad r.owner.ingressIdentity = true

theorem revokeTurn_cases (s : StreamSession) (deviceId : String) (epoch : Nat) :
    (s.revokeTurn deviceId epoch =
        { s with lock := none, returned := s.returned ++ [(deviceId, epoch)] } ∧
      ∀ j t, s.running = some j → s.turns[j]? = some t →
        isRevokedOwner deviceId epoch t.message.ingress = false) ∨
    ∃ j c t, s.running = some j ∧ s.turns[j]? = some t ∧
      isRevokedOwner deviceId epoch t.message.ingress = true ∧ s.revokeTurn deviceId epoch =
        { s with lock := some ⟨.revocation deviceId epoch, .cancelling c, []⟩ } := by
  unfold StreamSession.revokeTurn
  dsimp only
  split
  · rename_i j hj
    split
    · rename_i hrevoked
      rw [any_eq_true] at hrevoked
      obtain ⟨t, ht, howner⟩ := hrevoked
      refine .inr ⟨j, ⟨j, "device_revoked", false, none, .asking⟩, t, hj, ht, howner, ?_⟩
      simp [StreamSession.cancelActiveTurn]
    · rename_i hother
      refine .inl ⟨rfl, ?_⟩
      intro i t hi ht
      cases hj.symm.trans hi
      rw [ht, any_some] at hother
      simpa [Message.ingress] using hother
  · rename_i hnone
    refine .inl ⟨rfl, ?_⟩
    intro i t hi
    simp [hnone] at hi

theorem isRevokedOwner_some {ingress : Option Ingress} (h : isRevokedOwner deviceId epoch ingress = true) :
    (ingress.any fun i : Ingress => i.deviceId = deviceId && i.authEpoch < epoch) = true := by
  cases ingress with
  | none => simp [isRevokedOwner, ingressDeviceId] at h
  | some i =>
    simp only [isRevokedOwner, ingressDeviceId, ingressAuthEpoch, and_eq_true] at h
    obtain ⟨hdevice, hepoch⟩ := h
    have hsame := of_decide_eq_true hdevice
    split at hsame
    · cases hsame
    · rw [any_some, and_eq_true]
      exact ⟨decide_eq_true (some.inj hsame), hepoch⟩

theorem isRevokedOwner_of_any {ingress : Option Ingress} (hdevice : deviceId ≠ "")
    (h : (ingress.any fun i : Ingress => i.deviceId = deviceId && i.authEpoch < epoch) = true) :
    isRevokedOwner deviceId epoch ingress = true := by
  cases ingress with
  | none => cases h
  | some i =>
    simp only [any_some, and_eq_true, decide_eq_true_eq] at h
    obtain ⟨rfl, hepoch⟩ := h
    simp [isRevokedOwner, ingressDeviceId, ingressAuthEpoch, hdevice, hepoch]

theorem dropRevoked_eq (s : StreamSession) (deviceId : String) (epoch : Nat) : ∃ timer waiters,
    s.dropRevoked deviceId epoch = { s with
      burstTimer := timer
      waiters := waiters
      pendingBurst := s.pendingBurst.filter fun m => !isRevokedOwner deviceId epoch m.ingress
      pendingAttachments := s.pendingAttachments.filter fun i =>
        !isRevokedOwner deviceId epoch i.owner.ingressIdentity
      videoBuffers := s.videoBuffers.filter fun key _ =>
        !key.1.any fun ingress : Ingress => ingress.deviceId = deviceId && ingress.authEpoch < epoch } ∧
    ((timer = s.burstTimer ∧ waiters = s.waiters) ∨
      ((s.pendingBurst.filter fun m => !isRevokedOwner deviceId epoch m.ingress) = [] ∧
        waiters = s.waiters.filter fun w => !w.drains)) := by
  unfold StreamSession.dropRevoked
  dsimp only
  split
  · rename_i hempty
    exact ⟨_, _, rfl, .inr ⟨List.isEmpty_iff.mp hempty, rfl⟩⟩
  · exact ⟨_, _, rfl, .inl ⟨rfl, rfl⟩⟩

theorem swept_dropRevoked (hwaiters : ∀ w ∈ s.waiters, ∀ m ∈ w.messages,
      isRevokedOwner deviceId epoch m.ingress = false) :
    Swept (isRevokedOwner deviceId epoch) (s.dropRevoked deviceId epoch) := by
  have hkept := kept_dropRevoked s deviceId epoch
  obtain ⟨timer, waiters, heq, -⟩ := dropRevoked_eq s deviceId epoch
  refine ⟨?_, fun w hw => hwaiters w (hkept.waiters.subset hw)⟩
  rw [heq]
  intro m hm
  simpa using (List.mem_filter.mp hm).2

theorem dropped_attachments (s : StreamSession) (deviceId : String) (epoch : Nat) :
    ∀ i ∈ (s.dropRevoked deviceId epoch).pendingAttachments,
      isRevokedOwner deviceId epoch i.owner.ingressIdentity = false := by
  obtain ⟨timer, waiters, heq, -⟩ := dropRevoked_eq s deviceId epoch
  rw [heq]
  intro i hi
  simpa using (List.mem_filter.mp hi).2

theorem dropped_videos (s : StreamSession) (deviceId : String) (epoch : Nat) :
    ∀ key ∈ (s.dropRevoked deviceId epoch).videoBuffers.keys,
      isRevokedOwner deviceId epoch key.1 = false := by
  obtain ⟨timer, waiters, heq, -⟩ := dropRevoked_eq s deviceId epoch
  rw [heq]
  intro key hkey
  obtain ⟨e, he, rfl⟩ := List.mem_map.mp hkey
  have hkept := (List.mem_filter.mp he).2
  dsimp only at hkept
  rw [← not_eq_true]
  intro hrevoked
  simp [isRevokedOwner_some hrevoked] at hkept

theorem sweeping_revokeIngressDevice (hwaiters : ∀ w ∈ s.waiters, ∀ m ∈ w.messages,
      isRevokedOwner deviceId epoch m.ingress = false) (hhears : hearsApart s deviceId epoch = true) :
    Swept (isRevokedOwner deviceId epoch) (s.revokeIngressDevice deviceId epoch) ∧
      (∀ h, (s.revokeIngressDevice deviceId epoch).lock = some h →
        Sweeping (isRevokedOwner deviceId epoch) (s.revokeIngressDevice deviceId epoch) h) ∧
      ((s.revokeIngressDevice deviceId epoch).lock = none →
        Stored (isRevokedOwner deviceId epoch) true (s.revokeIngressDevice deviceId epoch)) := by
  have hswept := swept_dropRevoked hwaiters
  have hkept := kept_dropRevoked s deviceId epoch
  unfold StreamSession.revokeIngressDevice
  dsimp only
  rw [hkept.sttUtterance]
  split
  · rename_i hopen
    rw [hearsApart] at hhears
    rw [if_pos hopen] at hhears
    refine ⟨⟨hswept.burst, hswept.waiters⟩, ?_, fun hnone => nomatch hnone⟩
    intro h hsome
    cases hsome
    refine { toSwept := ⟨hswept.burst, hswept.waiters⟩, toStored := ?_, heard := ?_ }
    · exact ⟨dropped_attachments s deviceId epoch, dropped_videos s deviceId epoch, (fun _ hu => nomatch hu),
        (fun hfalse => nomatch hfalse), fun hfalse => nomatch hfalse⟩
    · intro _ r hr
      replace hr : (s.dropRevoked deviceId epoch).recognition = some r := hr
      rw [hkept.recognition] at hr
      rw [hr, all_some] at hhears
      exact hhears
  · rename_i hclosed
    rw [hearsApart] at hhears
    rw [if_neg hclosed, and_eq_true] at hhears
    have hstored : Stored (isRevokedOwner deviceId epoch) true (s.dropRevoked deviceId epoch) := by
      refine ⟨dropped_attachments s deviceId epoch, dropped_videos s deviceId epoch, ?_, ?_, ?_⟩
      · intro u hu
        rw [hkept.sttUtterance] at hu
        rw [hu, any_some] at hclosed
        simpa using hclosed
      · intro _ i hi
        rw [hkept.sttIn] at hi
        simpa using List.all_eq_true.mp hhears.2 i hi
      · intro _ r hr
        rw [hkept.recognition] at hr
        have hall := hhears.1
        rw [hr, all_some] at hall
        simpa using hall
    obtain ⟨heq, -⟩ | ⟨j, c, u, -, -, -, heq⟩ := revokeTurn_cases (s.dropRevoked deviceId epoch) deviceId epoch
    · rw [heq]
      refine ⟨⟨hswept.burst, hswept.waiters⟩, (fun _ hsome => nomatch hsome), fun _ => ?_⟩
      exact hstored.of_eq rfl rfl rfl rfl rfl
    · rw [heq]
      refine ⟨⟨hswept.burst, hswept.waiters⟩, ?_, fun hnone => nomatch hnone⟩
      intro h hsome
      cases hsome
      refine { toSwept := ⟨hswept.burst, hswept.waiters⟩, toStored := ?_, heard := fun hfalse => nomatch hfalse }
      exact hstored.of_eq rfl rfl rfl rfl rfl

/-! ### The invariant -/

structure Revoking (s : StreamSession) : Prop where
  owned : Owned ownerRule s
  barred : Barred s
  attended : Attended s
  alone : Alone s
  queues : Queues s
  held : ∀ h deviceId epoch, s.lock = some h → h.caller = .revocation deviceId epoch →
    Sweeping (isRevokedOwner deviceId epoch) s h
  returned : ∀ r ∈ s.returned, Owned (clearedRule r.1 r.2) s ∧ Stored (isRevokedOwner r.1 r.2) true s

theorem revoked_of_bad (hbars : s.Bars deviceId epoch) (ingress : Option Ingress)
    (hbad : isRevokedOwner deviceId epoch ingress = true) : s.ingressIsRevoked ingress = true :=
  revoked_of_bars hbars hbad

theorem owned_swept (howned : Owned ownerRule s) (hlock : s.lock = none)
    (hswept : Swept (isRevokedOwner deviceId epoch) s)
    (hturns : ∀ t ∈ s.turns, t.over = false → isRevokedOwner deviceId epoch t.message.ingress = false) :
    Owned (clearedRule deviceId epoch) s := by
  refine Sorted.unlocked ⟨?_, howned.uniform, ?_, ?_⟩ hlock
  · exact fun m hm => (howned.burst m hm).cleared (hswept.burst m hm)
  · exact fun w hw m hm => (howned.waiters w hw m hm).cleared (hswept.waiters w hw m hm)
  · intro t ht hlive
    exact (howned.turns t ht (.inl rfl)).cleared (hturns t ht (hlive.resolve_left false_ne_true))

theorem Queues.behind {rest : List Waiter} (h : Queues s)
    (hwaiters : s.waiters = .revocation deviceId epoch :: rest) :
    ∀ w ∈ rest, ∀ m ∈ w.messages, isRevokedOwner deviceId epoch m.ingress = false := by
  intro w hw
  rw [Queues, hwaiters] at h
  exact (List.pairwise_cons.mp h).1 w hw deviceId epoch rfl

variable {e : Step}

theorem begins_clean (h : Revoking s) (hapart : revokesApart s e = true)
    (hbegins : Begins s e deviceId epoch t) :
    deviceId ≠ "" ∧ hearsApart t deviceId epoch = true ∧
      ∀ w ∈ t.waiters, ∀ m ∈ w.messages, isRevokedOwner deviceId epoch m.ingress = false := by
  have hcond := (Bool.and_eq_true_iff.mp hapart).2
  obtain ⟨asked, rfl, hfree, rfl, rfl⟩ | ⟨rest, rfl, hwaiters, rfl⟩ := hbegins
  · simp only [hfree, Bool.and_eq_true, decide_eq_true_eq, Bool.not_true, Bool.false_or] at hcond
    refine ⟨hcond.1, hcond.2, ?_⟩
    intro w hw
    have hnone : s.waiters = [] := by
      rw [StreamSession.lockFree, and_eq_true] at hfree
      exact List.isEmpty_iff.mp hfree.2
    replace hw : w ∈ s.waiters := hw
    simp [hnone] at hw
  · simp only [hwaiters, and_eq_true, decide_eq_true_eq] at hcond
    exact ⟨hcond.1, hcond.2, h.queues.behind hwaiters⟩

theorem lock_revokeIngressDevice {h : Holder}
    (hlock : (s.revokeIngressDevice deviceId epoch).lock = some h) : h.caller = .revocation deviceId epoch := by
  unfold StreamSession.revokeIngressDevice at hlock
  dsimp only at hlock
  split at hlock
  · rw [← some.inj hlock]
  · exact (keeps_revokeTurn _ _ _).lock h hlock

theorem returned_revokeIngressDevice (s : StreamSession) (deviceId : String) (epoch : Nat) :
    (s.revokeIngressDevice deviceId epoch).returned = s.returned ∨
      ((s.revokeIngressDevice deviceId epoch).lock = none ∧
        (s.revokeIngressDevice deviceId epoch).returned = s.returned ++ [(deviceId, epoch)] ∧
        ∀ j t, (s.revokeIngressDevice deviceId epoch).running = some j →
          (s.revokeIngressDevice deviceId epoch).turns[j]? = some t →
          isRevokedOwner deviceId epoch t.message.ingress = false) := by
  have hdropped := kept_dropRevoked s deviceId epoch
  unfold StreamSession.revokeIngressDevice
  dsimp only
  split
  · exact .inl hdropped.returned
  · obtain ⟨heq, hother⟩ | ⟨j, c, t, -, -, -, heq⟩ :=
      revokeTurn_cases (s.dropRevoked deviceId epoch) deviceId epoch
    · rw [heq, ← hdropped.returned]
      exact .inr ⟨rfl, rfl, hother⟩
    · rw [heq]
      exact .inl hdropped.returned

theorem Alone.others (h : Alone s) (hrunning : ∀ j t, s.running = some j → s.turns[j]? = some t →
      isRevokedOwner deviceId epoch t.message.ingress = false) :
    ∀ t ∈ s.turns, t.over = false → isRevokedOwner deviceId epoch t.message.ingress = false := by
  intro t ht hlive
  obtain ⟨j, hj⟩ := List.mem_iff_getElem?.mp ht
  exact hrunning j t (running_eq_some.mpr ⟨h j t hj hlive, t, hj, hlive⟩) hj

theorem settleCancel_revocation {h : Holder} {c : Cancel} (hcaller : h.caller = .revocation deviceId epoch)
    (hrest : h.rest = []) (hsalvaged : c.salvaged = none) (hsuppress : c.suppressCompletion = false) :
    s.settleCancel h c = { s with
      currentTurn := none
      currentTurnStarted := false
      lock := none
      returned := s.returned ++ [(deviceId, epoch)] } := by
  rw [StreamSession.settleCancel, hcaller, hrest, hsalvaged, hsuppress]
  rfl

theorem Sweeping.beside {h : Holder} (hsweep : Sweeping (isRevokedOwner deviceId epoch) s h)
    (hbars : s.Bars deviceId epoch) (hstep : step settings s e = some s')
    (hburst : s'.pendingBurst = s.pendingBurst)
    (hrecognition : h.await.pumps = true → s'.recognition = s.recognition) :
    Sweeping (isRevokedOwner deviceId epoch) s' h := by
  have hheld := revoked_of_bad hbars
  refine { toSwept := ⟨?_, ?_⟩, toStored := hsweep.toStored.step hheld hstep, heard := ?_ }
  · exact hburst ▸ hsweep.burst
  · obtain ⟨v, hfresh, hsub⟩ := joins_step hstep
    intro w hw m hm
    rcases List.mem_append.mp (hsub.subset hw) with hold | hnew
    · exact hsweep.waiters w hold m hm
    · rw [← not_eq_true]
      intro hrevoked
      have hlet := hfresh w (Option.mem_toList.mp hnew) m hm
      simp [hheld _ hrevoked] at hlet
  · intro hpumps r hr
    rw [hrecognition hpumps] at hr
    exact hsweep.heard hpumps r hr

theorem Step.kinds (e : Step) : e.beside = true ∨ e.hears = true ∨ e.resumes = true ∨
    (∃ error, e = .hooked error) ∨ e = .pumpStopped := by
  cases e <;> simp [Step.beside, Step.hears, Step.resumes]

theorem Revoking.bars (h : Revoking s) {holder : Holder} (hlock : s.lock = some holder)
    (hcaller : holder.caller = .revocation deviceId epoch) : s.Bars deviceId epoch :=
  h.barred.lock holder deviceId epoch hlock hcaller

theorem Revoking.held_step (h : Revoking s) (hapart : revokesApart s e = true)
    (hstep : step settings s e = some s') {holder' : Holder} (hlock' : s'.lock = some holder')
    (hcaller' : holder'.caller = .revocation deviceId epoch) :
    Sweeping (isRevokedOwner deviceId epoch) s' holder' := by
  cases hlock : s.lock with
  | none =>
    obtain hunrevoked | ⟨d, n, t, hbegins, rfl⟩ := unlocked_step hlock hstep
    · exact absurd hcaller' (hunrevoked.2 holder' deviceId epoch hlock')
    · have hsame := (lock_revokeIngressDevice hlock').symm.trans hcaller'
      cases hsame
      obtain ⟨-, hhears, hwaiters⟩ := begins_clean h hapart hbegins
      exact (sweeping_revokeIngressDevice hwaiters hhears).2.1 holder' hlock'
  | some holder =>
    obtain he | he | he | ⟨error, rfl⟩ | rfl := e.kinds
    · have hbeside := beside_step hlock he hstep
      rw [hbeside.lock, hlock] at hlock'
      obtain rfl := some.inj hlock'
      exact (h.held holder deviceId epoch hlock hcaller').beside (h.bars hlock hcaller') hstep
        hbeside.burst fun _ => hbeside.recognition
    · have hruns := (hears_cases he hstep).1
      obtain ⟨recognition, audio, frames, queued, rfl⟩ := hears_eq he hstep
      obtain rfl := some.inj (hlock.symm.trans hlock')
      refine (h.held holder deviceId epoch hlock hcaller').beside (h.bars hlock hcaller') hstep rfl ?_
      intro hpumps
      rw [StreamSession.pumpRuns, hlock, all_some] at hruns
      cases hawait : holder.await with
      | pump =>
        simp [hawait] at hruns
      | cancelling c =>
        rw [hawait] at hpumps
        cases hpumps
      | hook m =>
        rw [hawait] at hpumps
        cases hpumps
    · obtain ⟨holder₁, c, hlock₁, hawait, hend⟩ := resumed_cases he hstep
      cases hlock.symm.trans hlock₁
      have hkept : ∀ t : StreamSession, t.pendingBurst = s.pendingBurst → t.waiters = s.waiters →
          Stored (isRevokedOwner deviceId epoch) true t → holder'.await.pumps = false →
          holder.caller = .revocation deviceId epoch →
          Sweeping (isRevokedOwner deviceId epoch) t holder' := by
        intro t hburst hwaiters hstored hpumps hcaller
        have hsweep := h.held holder deviceId epoch hlock hcaller
        refine { toSwept := ⟨hburst ▸ hsweep.burst, hwaiters ▸ hsweep.waiters⟩, toStored := ?_, heard := ?_ }
        · rw [hpumps]
          exact hstored
        · rw [hpumps]
          exact fun hfalse => nomatch hfalse
      have hstored : holder.caller = .revocation deviceId epoch →
          Stored (isRevokedOwner deviceId epoch) true s := by
        intro hcaller
        have hsweep := h.held holder deviceId epoch hlock hcaller
        have hstored := hsweep.toStored
        rw [hawait] at hstored
        exact hstored
      obtain rfl | rfl | ⟨rfl, -⟩ := hend
      · cases hlock'
        exact hkept _ rfl rfl ((hstored hcaller').of_eq rfl rfl rfl rfl rfl) rfl hcaller'
      · cases hlock'
        exact hkept _ rfl rfl ((hstored hcaller').of_eq rfl rfl rfl rfl rfl) rfl hcaller'
      · have hcaller := ((keeps_settleCancel s holder c).lock holder' hlock').symm.trans hcaller'
        obtain ⟨hrest, hpump | ⟨c', hc', hrevokes⟩⟩ :=
          (h.attended holder hlock).revoking deviceId epoch hcaller
        · simp [hawait] at hpump
        · rw [hawait] at hc'
          cases hc'
          simp [settleCancel_revocation hcaller hrest hrevokes.salvaged hrevokes.suppress] at hlock'
    · obtain ⟨holder₁, m, hlock₁, hawait, -, hcaller, -⟩ := frames_hooked hstep
      cases hlock.symm.trans hlock₁
      obtain ⟨-, hpump | ⟨c, hc, -⟩⟩ := (h.attended holder hlock).revoking deviceId epoch
        ((hcaller holder' hlock').symm.trans hcaller')
      · simp [hawait] at hpump
      · simp [hawait] at hc
    · obtain ⟨d, n, rest, hlock₁, rfl⟩ := pumpStopped_cases hstep
      have hsame := ((keeps_revokeTurn _ d n).lock holder' hlock').symm.trans hcaller'
      cases hsame
      have hsweep := h.held _ deviceId epoch hlock₁ rfl
      obtain ⟨heq, -⟩ | ⟨j, c, t, -, -, -, heq⟩ :=
        revokeTurn_cases (s.silenced deviceId epoch) deviceId epoch
      · simp [heq] at hlock'
      · rw [heq] at hlock' ⊢
        cases hlock'
        refine { toSwept := ⟨hsweep.burst, hsweep.waiters⟩, toStored := ?_, heard := ?_ }
        · refine ⟨hsweep.attachments, hsweep.videos, hsweep.utterance, ?_, fun _ _ hr => nomatch hr⟩
          intro _ i hi
          simpa using (List.mem_filter.mp hi).2
        · exact fun hfalse => nomatch hfalse

theorem Revoking.returned_step (h : Revoking s) (hapart : revokesApart s e = true)
    (hstep : step settings s e = some s') (howned : Owned ownerRule s') (halone : Alone s')
    {r : String × Nat} (hr : r ∈ s'.returned) :
    r ∈ s.returned ∨ (Owned (clearedRule r.1 r.2) s' ∧ Stored (isRevokedOwner r.1 r.2) true s') := by
  cases hlock : s.lock with
  | none =>
    obtain hunrevoked | ⟨d, n, t, hbegins, rfl⟩ := unlocked_step hlock hstep
    · exact .inl (hunrevoked.1 ▸ hr)
    · have hreturned : t.returned = s.returned := by
        obtain ⟨_, _, _, _, rfl⟩ | ⟨_, _, _, rfl⟩ := hbegins <;> rfl
      obtain ⟨-, hhears, hwaiters⟩ := begins_clean h hapart hbegins
      obtain ⟨hswept, -, hstored⟩ := sweeping_revokeIngressDevice hwaiters hhears
      obtain hsame | ⟨hfree, hmore, hothers⟩ := returned_revokeIngressDevice t d n
      · exact .inl (hreturned ▸ hsame ▸ hr)
      · rw [hmore, hreturned] at hr
        rcases List.mem_append.mp hr with hold | hnew
        · exact .inl hold
        · obtain rfl := List.mem_singleton.mp hnew
          exact .inr ⟨owned_swept howned hfree hswept (halone.others hothers), hstored hfree⟩
  | some holder =>
    obtain he | he | he | ⟨error, rfl⟩ | rfl := e.kinds
    · exact .inl ((beside_step hlock he hstep).returned ▸ hr)
    · obtain ⟨recognition, audio, frames, queued, rfl⟩ := hears_eq he hstep
      exact .inl hr
    · obtain ⟨holder₁, c, hlock₁, hawait, hend⟩ := resumed_cases he hstep
      cases hlock.symm.trans hlock₁
      obtain rfl | rfl | ⟨rfl, -⟩ := hend
      · exact .inl hr
      · exact .inl hr
      · obtain hsame | ⟨hfree, d, n, hcaller, hmore⟩ := (keeps_settleCancel s holder c).returned
        · rw [hsame] at hr
          exact .inl hr
        · obtain ⟨hrest, hpump | ⟨c', hc', hrevokes⟩⟩ := (h.attended holder hlock).revoking d n hcaller
          · simp [hawait] at hpump
          · rw [hawait] at hc'
            cases hc'
            rw [hmore] at hr
            rcases List.mem_append.mp hr with hold | hnew
            · exact .inl hold
            · obtain rfl := List.mem_singleton.mp hnew
              have hsweep := h.held holder d n hlock hcaller
              have hstored := hsweep.toStored
              rw [hawait] at hstored
              rw [settleCancel_revocation hcaller hrest hrevokes.salvaged hrevokes.suppress]
                at howned halone ⊢
              refine .inr ⟨owned_swept howned rfl ⟨hsweep.burst, hsweep.waiters⟩ ?_,
                hstored.of_eq rfl rfl rfl rfl rfl⟩
              apply halone.others
              intro j t hrunning
              rw [running_of_currentTurn rfl] at hrunning
              cases hrunning
    · obtain ⟨holder₁, m, hlock₁, hawait, -, -, hsame | ⟨-, d, n, hcaller, -⟩⟩ := frames_hooked hstep
      · exact .inl (hsame ▸ hr)
      · cases hlock.symm.trans hlock₁
        obtain ⟨-, hpump | ⟨c, hc, -⟩⟩ := (h.attended holder hlock).revoking d n hcaller
        · simp [hawait] at hpump
        · simp [hawait] at hc
    · obtain ⟨d, n, rest, hlock₁, rfl⟩ := pumpStopped_cases hstep
      have hsweep := h.held _ d n hlock₁ rfl
      obtain ⟨heq, hothers⟩ | ⟨j, c, t, -, -, -, heq⟩ := revokeTurn_cases (s.silenced d n) d n
      · rw [heq] at hr howned halone ⊢
        rcases List.mem_append.mp hr with hold | hnew
        · exact .inl hold
        · obtain rfl := List.mem_singleton.mp hnew
          refine .inr ⟨owned_swept howned rfl ⟨hsweep.burst, hsweep.waiters⟩ (halone.others hothers), ?_⟩
          refine ⟨hsweep.attachments, hsweep.videos, hsweep.utterance, ?_, fun _ _ hr => nomatch hr⟩
          intro _ i hi
          simpa using (List.mem_filter.mp hi).2
      · rw [heq] at hr
        exact .inl hr

theorem Revoking.step (h : Revoking s) (hapart : revokesApart s e = true)
    (hstep : step settings s e = some s') : Revoking s' := by
  have hparts := Bool.and_eq_true_iff.mp (Bool.and_eq_true_iff.mp hapart).1
  have howned := h.owned.step (fun _ _ _ _ _ => trivial) hparts.1 hstep
  have halone := h.alone.step h.attended (by simpa using hparts.2) hstep
  refine ⟨howned, h.barred.step hstep, h.attended.step hstep, halone, h.queues.step h.barred hstep, ?_, ?_⟩
  · intro holder deviceId epoch hlock hcaller
    exact h.held_step hapart hstep hlock hcaller
  · intro r hr
    obtain hold | hnew := h.returned_step hapart hstep howned halone hr
    · have hbad := revoked_of_bad (h.barred.returned r hold)
      obtain ⟨hcleared, hstored⟩ := h.returned r hold
      refine ⟨hcleared.step ?_ hparts.1 hstep, hstored.step hbad hstep⟩
      intro q _ hkept author hauthor
      rw [text_ingress hauthor] at hkept
      rw [← not_eq_true] at hkept
      show isRevokedOwner r.1 r.2 q.owner.ingressIdentity = false
      rw [← not_eq_true]
      exact fun hrevoked => hkept (hbad _ hrevoked)
    · exact hnew

/-! ### Everyone else -/

theorem filter_filter_self {α : Type} (p : α → Bool) (xs : List α) :
    (xs.filter p).filter p = xs.filter p := by
  rw [List.filter_filter]
  apply List.filter_congr
  simp

theorem flatMap_messages_drains (waiters : List Waiter) :
    (waiters.filter fun w => !w.drains).flatMap Waiter.messages = waiters.flatMap Waiter.messages := by
  induction waiters with
  | nil => rfl
  | cons w rest ih =>
    cases w with
    | burstDrain => exact ih
    | text m | interrupt reason | revocation deviceId epoch =>
      rw [List.filter_cons_of_pos rfl, List.flatMap_cons, List.flatMap_cons, ih]

theorem undisturbed_dropRevoked (howned : Owned ownerRule s) (hdevice : deviceId ≠ "") :
    Undisturbed (isRevokedOwner deviceId epoch) s (s.dropRevoked deviceId epoch) := by
  have hburst : s.pendingBurst.filter (·.ofOthers (isRevokedOwner deviceId epoch)) =
      s.pendingBurst.filter fun m => !isRevokedOwner deviceId epoch m.ingress := filter_ofOthers howned.burst
  obtain ⟨timer, waiters, heq, htimer⟩ := dropRevoked_eq s deviceId epoch
  have hmessages : waiters.flatMap Waiter.messages = s.waiters.flatMap Waiter.messages := by
    obtain ⟨-, rfl⟩ | ⟨-, rfl⟩ := htimer
    · rfl
    · exact flatMap_messages_drains s.waiters
  rw [heq]
  refine ⟨fun _ _ => rfl, rfl, rfl, ?_, ?_, hmessages, filter_filter_self _ _, ?_, rfl, rfl, rfl,
    fun _ _ ht _ => ht, ?_, rfl, rfl⟩
  · show (s.pendingBurst.filter fun m => !isRevokedOwner deviceId epoch m.ingress).filter _ = _
    rw [← hburst, filter_filter_self]
  · intro hothers
    obtain ⟨rfl, rfl⟩ | ⟨hempty, -⟩ := htimer
    · exact ⟨rfl, id⟩
    · rw [← hburst, List.filter_eq_nil_iff] at hempty
      obtain ⟨m, hm, hother⟩ := List.any_eq_true.mp hothers
      exact absurd hother (hempty m hm)
  · show (s.videoBuffers.entries.filter _).filter _ = _
    rw [List.filter_filter]
    apply List.filter_congr
    intro e _
    rw [and_eq_left_iff_imp]
    intro hother
    rw [not_eq_true', ← not_eq_true] at hother ⊢
    exact fun hany => hother (isRevokedOwner_of_any hdevice hany)
  · intro j t hrunning _ _
    exact ⟨(running_eq_some.mp hrunning).1, rfl⟩

/-- A step that leaves all but the lock, the calls that are over and the device's own utterance alone. -/
theorem Undisturbed.locked (h : Undisturbed bad s t) {lock : Option Holder} {returned : List (String × Nat)}
    {utterance : Option Utterance} (hutterance : (utterance.filter fun u => !bad u.owner.ingressIdentity) =
      t.sttUtterance.filter fun u => !bad u.owner.ingressIdentity) :
    Undisturbed bad s { t with lock := lock, returned := returned, sttUtterance := utterance } :=
  ⟨h.admitted, h.journaling, h.inbound, h.burst, h.timer, h.waiters, h.attachments, h.videos,
    hutterance.trans h.utterance, h.sttIn, h.recognition, h.turns, h.current, h.suppress, h.outbound⟩

theorem undisturbed_revokeTurn (h : Undisturbed (isRevokedOwner deviceId epoch) s t) :
    Undisturbed (isRevokedOwner deviceId epoch) s (t.revokeTurn deviceId epoch) := by
  obtain ⟨heq, -⟩ | ⟨j, c, u, -, -, -, heq⟩ := revokeTurn_cases t deviceId epoch
  · rw [heq]
    exact h.locked rfl
  · rw [heq]
    exact h.locked rfl

theorem undisturbed_revokeIngressDevice (howned : Owned ownerRule s) (hdevice : deviceId ≠ "") :
    Undisturbed (isRevokedOwner deviceId epoch) s (s.revokeIngressDevice deviceId epoch) := by
  have hdropped : Undisturbed (isRevokedOwner deviceId epoch) s (s.dropRevoked deviceId epoch) :=
    undisturbed_dropRevoked howned hdevice
  unfold StreamSession.revokeIngressDevice
  dsimp only
  split
  · rename_i hopen
    apply hdropped.locked
    obtain ⟨u, hu, hrevoked⟩ := (any_eq_true _ _).mp hopen
    rw [hu, filter_some, hrevoked]
    rfl
  · exact undisturbed_revokeTurn hdropped

theorem admitted_barrier (s : StreamSession) (deviceId : String) (asked : Option Nat) (ingress : Option Ingress)
    (h : isRevokedOwner deviceId (s.revocationEpoch deviceId asked) ingress = false) :
    (s.barrier deviceId (s.revocationEpoch deviceId asked)).ingressIsRevoked ingress =
      s.ingressIsRevoked ingress := by
  rw [StreamSession.ingressIsRevoked, StreamSession.ingressIsRevoked]
  cases hdevice : ingressDeviceId ingress with
  | none => rfl
  | some d =>
    dsimp only [StreamSession.barrier]
    by_cases hsame : d = deviceId
    · subst hsame
      rw [Dict.get?_set_self]
      have hepoch : ¬ ingressAuthEpoch ingress < s.revocationEpoch d asked := by
        simpa [isRevokedOwner, hdevice] using h
      cases hblocked : s.revokedIngressEpochs.get? d with
      | none => simpa using hepoch
      | some blocked =>
        have hle := le_revocationEpoch s d asked hblocked
        have hnot : ¬ ingressAuthEpoch ingress < blocked := fun hlt => hepoch (hlt.trans_le hle)
        simp [hepoch, hnot]
    · rw [Dict.get?_set_ne _ _ hsame]

theorem Undisturbed.begins (hbegins : Begins s e deviceId epoch t)
    (h : Undisturbed (isRevokedOwner deviceId epoch) t s') :
    Undisturbed (isRevokedOwner deviceId epoch) s s' := by
  obtain ⟨asked, rfl, -, rfl, rfl⟩ | ⟨rest, rfl, hwaiters, rfl⟩ := hbegins
  · refine ⟨?_, h.journaling, h.inbound, h.burst, h.timer, h.waiters, h.attachments, h.videos, h.utterance,
      h.sttIn, h.recognition, h.turns, h.current, h.suppress, h.outbound⟩
    exact fun ingress hother => (h.admitted ingress hother).trans (admitted_barrier s deviceId asked ingress hother)
  · refine ⟨h.admitted, h.journaling, h.inbound, h.burst, ?_, ?_, h.attachments, h.videos, h.utterance,
      h.sttIn, h.recognition, h.turns, h.current, h.suppress, h.outbound⟩
    · intro hothers
      obtain ⟨htimer, hdrains⟩ := h.timer hothers
      refine ⟨htimer, fun hmem => hdrains ?_⟩
      rw [hwaiters] at hmem
      exact (List.mem_cons.mp hmem).resolve_left (by simp)
    · rw [h.waiters, hwaiters]
      rfl

theorem undisturbed_refl (s : StreamSession) : Undisturbed bad s s :=
  ⟨fun _ _ => rfl, rfl, rfl, rfl, fun _ => ⟨rfl, id⟩, rfl, rfl, rfl, rfl, rfl, rfl, fun _ _ ht _ => ht,
    fun _ _ hrunning _ _ => ⟨(running_eq_some.mp hrunning).1, rfl⟩, rfl, rfl⟩

theorem undisturbed_silenced (hheard : ∀ r, s.recognition = some r →
      isRevokedOwner deviceId epoch r.owner.ingressIdentity = true) :
    Undisturbed (isRevokedOwner deviceId epoch) s (s.silenced deviceId epoch) := by
  have hself : Undisturbed (isRevokedOwner deviceId epoch) s s := undisturbed_refl s
  refine ⟨hself.admitted, rfl, rfl, rfl, hself.timer, rfl, rfl, rfl, rfl, ?_, ?_, hself.turns,
    hself.current, rfl, rfl⟩
  · exact filter_filter_self _ _
  · cases hr : s.recognition with
    | none => rw [StreamSession.silenced]
    | some r =>
      rw [StreamSession.silenced, filter_some, hheard r hr]
      rfl

theorem undisturbed_kill (howned : Owned ownerRule s) {j : Nat} (hturn : ∀ t, s.turns[j]? = some t →
      isRevokedOwner deviceId epoch t.message.ingress = true) :
    Undisturbed (isRevokedOwner deviceId epoch) s (s.kill j) := by
  have hself : Undisturbed (isRevokedOwner deviceId epoch) s s := undisturbed_refl s
  refine ⟨hself.admitted, rfl, rfl, rfl, hself.timer, rfl, rfl, rfl, rfl, rfl, rfl, ?_, hself.current, rfl, rfl⟩
  intro i t ht hother
  rw [StreamSession.kill, List.getElem?_modify]
  have hne : j ≠ i := by
    rintro rfl
    simp [(howned.turns t (List.mem_of_getElem? ht) (.inl rfl)).ofOthers, hturn t ht] at hother
  rw [ht, map_eq_map, map_some, if_neg hne]

theorem undisturbed_resumed (h : Revoking s) (he : e.resumes = true) (hstep : step settings s e = some s')
    {holder : Holder} (hlock : s.lock = some holder) (hcaller : holder.caller = .revocation deviceId epoch) :
    Undisturbed (isRevokedOwner deviceId epoch) s s' := by
  obtain ⟨holder₁, c, hlock₁, hawait, hend⟩ := resumed_cases he hstep
  cases hlock.symm.trans hlock₁
  obtain ⟨hrest, hpump | ⟨c', hc', hrevokes⟩⟩ := (h.attended holder hlock).revoking deviceId epoch hcaller
  · simp [hawait] at hpump
  · rw [hawait] at hc'
    cases hc'
    obtain rfl | rfl | ⟨rfl, -⟩ := hend
    · exact (undisturbed_refl s).locked rfl
    · exact (undisturbed_kill h.owned hrevokes.turn).locked rfl
    · rw [settleCancel_revocation hcaller hrest hrevokes.salvaged hrevokes.suppress]
      have hself : Undisturbed (isRevokedOwner deviceId epoch) s s := undisturbed_refl s
      refine ⟨hself.admitted, rfl, rfl, rfl, hself.timer, rfl, rfl, rfl, rfl, rfl, rfl, hself.turns, ?_, rfl, rfl⟩
      intro j t hrunning ht hother
      exfalso
      have hcurrent := (running_eq_some.mp hrunning).1
      rw [(h.attended holder hlock).cancelling c hawait] at hcurrent
      cases hcurrent
      simp [(h.owned.turns t (List.mem_of_getElem? ht) (.inl rfl)).ofOthers, hrevokes.turn t ht] at hother

theorem undisturbed_step (h : Revoking s) (hapart : revokesApart s e = true)
    (hstep : step settings s e = some s') (hrevoking : s.revoking e = some (deviceId, epoch)) :
    Undisturbed (isRevokedOwner deviceId epoch) s s' := by
  have hbegun : ∀ t, Begins s e deviceId epoch t →
      Undisturbed (isRevokedOwner deviceId epoch) s (t.revokeIngressDevice deviceId epoch) := by
    intro t hbegins
    have howned : Owned ownerRule t := by
      obtain ⟨asked, -, -, -, rfl⟩ | ⟨rest, -, hwaiters, rfl⟩ := hbegins
      · exact h.owned.of_eq rfl rfl rfl (.refl _)
      · exact ⟨⟨h.owned.burst, h.owned.uniform, fun w hw => h.owned.waiters w (hwaiters ▸ .tail _ hw),
          h.owned.turns⟩, h.owned.lock⟩
    exact (undisturbed_revokeIngressDevice howned (begins_clean h hapart hbegins).1).begins hbegins
  cases e with
  | revoke d asked =>
    obtain ⟨rfl, rfl⟩ := Prod.mk.inj (some.inj hrevoking)
    by_cases hfree : s.lockFree = true
    · have heq : s' = (s.barrier d (s.revocationEpoch d asked)).revokeIngressDevice d
          (s.revocationEpoch d asked) := by
        cases hstep
        unfold StreamSession.revoke
        exact if_pos hfree
      rw [heq]
      exact hbegun _ (.inl ⟨asked, rfl, hfree, rfl, rfl⟩)
    · have heq : s' = { s.barrier d (s.revocationEpoch d asked) with
          waiters := s.waiters ++ [.revocation d (s.revocationEpoch d asked)] } := by
        cases hstep
        unfold StreamSession.revoke
        exact if_neg hfree
      have hself : Undisturbed (isRevokedOwner d (s.revocationEpoch d asked)) s s := undisturbed_refl s
      rw [heq]
      refine ⟨admitted_barrier s d asked, rfl, rfl, rfl, fun _ => ⟨rfl, ?_⟩, ?_, rfl, rfl, rfl, rfl, rfl,
        hself.turns, hself.current, rfl, rfl⟩
      · exact fun hmem => List.mem_append_left _ hmem
      · show (s.waiters ++ [_]).flatMap Waiter.messages = _
        rw [List.flatMap_append]
        exact List.append_nil _
  | grant =>
    rw [StreamSession.revoking] at hrevoking
    split at hrevoking
    · rename_i d n rest hwaiters
      cases hrevoking
      replace hstep : s.grant settings = some s' := hstep
      unfold StreamSession.grant at hstep
      split at hstep
      · rename_i w others hlock hline
        rw [hwaiters] at hline
        cases hline
        cases hstep
        exact hbegun _ (.inr ⟨rest, rfl, hwaiters, rfl⟩)
      · cases hstep
    · cases hrevoking
  | requestAnswered | drained | expired =>
    rw [StreamSession.revoking] at hrevoking
    split at hrevoking
    · rename_i d n await rest hlock
      cases hrevoking
      exact undisturbed_resumed h rfl hstep hlock rfl
    · cases hrevoking
  | pumpStopped =>
    obtain ⟨d, n, rest, hlock, rfl⟩ := pumpStopped_cases hstep
    rw [StreamSession.revoking, hlock] at hrevoking
    cases hrevoking
    have hsweep := h.held _ deviceId epoch hlock rfl
    exact undisturbed_revokeTurn (undisturbed_silenced (hsweep.heard rfl))
  | _ => cases hrevoking

/-! ### Runs -/

theorem revoking_empty : Revoking {} where
  owned := ⟨⟨(fun _ hm => nomatch hm), uniform_nil, (fun _ hw => nomatch hw), (fun _ ht => nomatch ht)⟩,
    fun _ hlock => nomatch hlock⟩
  barred := ⟨(fun _ _ hw => nomatch hw), (fun _ _ _ hlock => nomatch hlock), fun _ hr => nomatch hr⟩
  attended := attended_unlocked rfl
  alone _ _ ht := nomatch ht
  queues := List.Pairwise.nil
  held _ _ _ hlock := nomatch hlock
  returned _ hr := nomatch hr

theorem revoking_run {events : List Step}
    (hapart : Along (step settings) (fun s e => revokesApart s e = true) {} events)
    (hrun : run (step settings) {} events = some s) : Revoking s :=
  run_invariant_along (fun _ _ _ hI hC hstep => Revoking.step hI hC hstep) revoking_empty hapart hrun

/-- In a session in which no message holds texts of two owners, no turn outlives its cancellation and the
recogniser is at a revoked device's audio exactly while its utterance is open, revocation is complete and
exact. -/
theorem revocation_sound (settings : Settings) (events : List Step) (s : StreamSession)
    (hapart : Along (step settings) (fun s e => revokesApart s e = true) {} events)
    (hrun : run (step settings) {} events = some s) : RevocationSound settings events s where
  complete r hr := by
    obtain ⟨howned, hstored⟩ := (revoking_run hapart hrun).returned r hr
    exact cleared_of_owned howned hstored
  exact front e m m' hbegin hfront hstep r hrevoking := by
    obtain ⟨rest, rfl⟩ := hbegin
    have hparts := along_append.mp (along_append.mp hapart).1
    exact undisturbed_step (revoking_run hparts.1 hfront) (hparts.2 m hfront).1 hstep hrevoking

/-- The laptop is revoked while its turn runs and it speaks; the phone's attachment stays. -/
theorem revocation_sound_speaking : ∃ events s, RevocationSound ⟨1200, true, none⟩ events s ∧
    s.returned = [("laptop", 1)] ∧ s.pendingAttachments.length = 1 := by
  let events : List Step := types laptop "a" ++ [.timer, .hooked none, .runner 0 .start, .runner 0 .hand,
    .push (.attachment { kind := "file", artifactId := some "f" } false) phone, .take,
    .push (.audioChunk [1] false "" 0) laptop, .take, .listen, .revoke "laptop" none, .pumpStopped,
    .requestAnswered false, .runner 0 .interrupted, .runner 0 .answer, .runner 0 (.complete true),
    .runner 0 .exit, .drained]
  have htrace : (run (step ⟨1200, true, none⟩) {} events).map
      (fun s => (s.returned, s.pendingAttachments.length)) = some ([("laptop", 1)], 1) := rfl
  obtain ⟨s, hrun, heq⟩ := Option.map_eq_some_iff.mp htrace
  obtain ⟨hreturned, hkept⟩ := Prod.mk.inj heq
  exact ⟨events, s, revocation_sound ⟨1200, true, none⟩ events s (by decide) hrun, hreturned, hkept⟩

/-- The phone has spoken and is being transcribed when the laptop, which is speaking, is revoked: the
phone's recognition is aborted. -/
theorem recognition_aborted : ∃ settings events s, run (step settings) {} events = some s ∧
    ¬ RevocationSound settings events s := by
  let front : List Step := [.push (.audioChunk [1] true "" 0) phone, .take, .listen,
    .push (.audioChunk [2] false "" 0) laptop, .take, .revoke "laptop" none]
  have htrace : (run (step ⟨1200, true, none⟩) {} front).bind (fun s =>
      (step ⟨1200, true, none⟩ s .pumpStopped).map fun s' => (s.revoking .pumpStopped,
        s.recognition.any fun r => r.owner = phone, s'.recognition.isNone)) =
      some (some ("laptop", 1), true, true) := rfl
  obtain ⟨s, hfront, hrest⟩ := Option.bind_eq_some_iff.mp htrace
  obtain ⟨s', hstep, heq⟩ := Option.map_eq_some_iff.mp hrest
  simp only [Prod.mk.injEq] at heq
  obtain ⟨hrevoking, hbefore, hafter⟩ := heq
  refine ⟨⟨1200, true, none⟩, front ++ [.pumpStopped], s', ?_, ?_⟩
  · exact run_append.mpr ⟨s, hfront, run_cons.mpr ⟨s', hstep, rfl⟩⟩
  · intro hsound
    have hsame := (hsound.exact front .pumpStopped s s' (List.prefix_refl _) hfront hstep _ hrevoking).recognition
    obtain ⟨r, hr, howner⟩ := (Option.any_eq_true _ _).mp hbefore
    rw [Option.isNone_iff_eq_none.mp hafter, hr, Option.filter_some, of_decide_eq_true howner] at hsame
    cases hsame

end OpenAgent.Session
