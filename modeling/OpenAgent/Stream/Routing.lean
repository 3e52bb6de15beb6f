import OpenAgent.Stream.Channel
import OpenAgent.Lib.Place
import Mathlib.Data.List.Pairwise

/-!
# Frames go to their own device

A route leads to the transport of a binding of its key, or of a later binding of the same device and client
instance. The queue keeps the order of publication, and the ingress kept under the address of a frame that is
queued is its own, as long as no frame without an ingress is kept where a frame that was refused had left its
ingress. The one pump serves every device: what holds for the others while it waits for one is a condition on
the frames and transports that come meanwhile.
-/

namespace OpenAgent.Stream.Realtime

open Lib List Bool

variable {c c' : RealtimeChannel} {f g : Frame} {key : Key} {identity : Identity} {transport : Nat}

/-! ### Routes -/

def Routed (bound : List Binding) (key : Key) (transport : Nat) : Prop :=
  ∃ (j : Nat) (b : Binding), bound[j]? = some b ∧ b.transport = transport ∧
    (ingressKey (some b.identity) = key ∨ ∃ (i : Nat) (a : Binding), i < j ∧ bound[i]? = some a ∧ ingressKey (some a.identity) = key ∧
      sameInstance b.identity a.identity = true)

theorem Routed.append {bound : List Binding} (h : Routed bound key transport) (b : Binding) :
    Routed (bound ++ [b]) key transport := by
  obtain ⟨j, b', hj, htransport, hkey⟩ := h
  refine ⟨j, b', getElem?_append_singleton.mpr (.inl hj), htransport, ?_⟩
  rcases hkey with hown | ⟨i, a, hlt, hi, hsame⟩
  · exact .inl hown
  · exact .inr ⟨i, a, hlt, getElem?_append_singleton.mpr (.inl hi), hsame⟩

theorem sameInstance_of_key {a b : Identity} (h : ingressKey (some a) = ingressKey (some b)) (d : Identity) :
    sameInstance d a = sameInstance d b := by
  have hsame : a.deviceId = b.deviceId ∧ a.clientInstanceId = b.clientInstanceId := by
    unfold ingressKey at h
    dsimp only at h
    split at h <;> split at h
    · rename_i ha _ _ _ _ _ hb _
      simp only [Key.gateway.injEq] at h
      exact ⟨ha.trans ((congrArg some h.1).trans hb.symm), h.2.2.1⟩
    · cases h
    · cases h
    · obtain rfl := Key.value.inj h
      exact ⟨rfl, rfl⟩
  unfold sameInstance
  rw [hsame.1, hsame.2]

theorem get?_adopt {routes : Dict Key Nat} {olds : List (Key × Identity)} {t : Nat}
    (h : (RealtimeChannel.adopt identity transport routes olds).get? key = some t) :
    routes.get? key = some t ∨
      t = transport ∧ ∃ old ∈ olds, old.1 = key ∧ sameInstance identity old.2 = true := by
  unfold RealtimeChannel.adopt at h
  induction olds generalizing routes with
  | nil => exact .inl h
  | cons old rest ih =>
    rw [foldl_cons] at h
    rcases ih h with hroutes | ⟨ht, old', hold', hkey⟩
    · split at hroutes
      · rename_i hsame
        rw [Dict.get?_set] at hroutes
        split at hroutes
        · rename_i heq
          exact .inr ⟨(Option.some.inj hroutes).symm, old, mem_cons_self, heq.symm, hsame⟩
        · exact .inl hroutes
      · exact .inl hroutes
    · exact .inr ⟨ht, old', .tail old hold', hkey⟩

structure RealtimeChannel.Routes (c : RealtimeChannel) : Prop where
  sends : ∀ key t, c.routeSends.get? key = some t → Routed c.bound key t
  identities : ∀ key identity, c.routeIdentities.get? key = some identity →
    ingressKey (some identity) = key ∧
      ∃ (i : Nat) (a : Binding), c.bound[i]? = some a ∧ ingressKey (some a.identity) = key

theorem RealtimeChannel.Routes.bindTransport (h : c.Routes) (identity : Identity) (transport : Nat) :
    (c.bindTransport identity transport).Routes where
  sends key t hget := by
    have hnew : (c.bound ++ [⟨identity, transport⟩])[c.bound.length]? = some ⟨identity, transport⟩ := by simp
    rcases get?_adopt hget with hroutes | ⟨rfl, old, hold, hkey, hsame⟩
    · rw [Dict.get?_set] at hroutes
      split at hroutes
      · rename_i heq
        exact ⟨c.bound.length, ⟨identity, transport⟩, hnew, Option.some.inj hroutes, .inl heq.symm⟩
      · exact (h.sends key t hroutes).append _
    · have hentry : (c.routeIdentities.set (ingressKey (some identity)) identity).get? old.1 = some old.2 :=
        Dict.get?_eq_some_iff.mpr hold
      rw [Dict.get?_set] at hentry
      split at hentry
      · rename_i heq
        exact ⟨c.bound.length, ⟨identity, t⟩, hnew, rfl, .inl (heq.symm.trans hkey)⟩
      · obtain ⟨hown, i, a, hi, ha⟩ := h.identities _ _ hentry
        refine ⟨c.bound.length, ⟨identity, t⟩, hnew, rfl, .inr ⟨i, a, ?_, ?_, ha.trans hkey, ?_⟩⟩
        · exact (List.getElem?_eq_some_iff.mp hi).1
        · exact getElem?_append_singleton.mpr (.inl hi)
        · rw [sameInstance_of_key (ha.trans hown.symm)]
          exact hsame
  identities key other hget := by
    have hentry : (c.routeIdentities.set (ingressKey (some identity)) identity).get? key = some other := hget
    rw [Dict.get?_set] at hentry
    split at hentry
    · rename_i heq
      cases hentry
      exact ⟨heq.symm, c.bound.length, ⟨identity, transport⟩, by simp [RealtimeChannel.bindTransport], heq.symm⟩
    · obtain ⟨hown, i, a, hi, ha⟩ := h.identities key other hentry
      exact ⟨hown, i, a, getElem?_append_singleton.mpr (.inl hi), ha⟩

theorem RealtimeChannel.Routes.same (h : c.Routes) (hsends : c'.routeSends = c.routeSends)
    (hidentities : c'.routeIdentities = c.routeIdentities) (hbound : c'.bound = c.bound) : c'.Routes := by
  refine ⟨fun key t hget => ?_, fun key identity hget => ?_⟩
  · rw [hbound]
    exact h.sends key t (hsends ▸ hget)
  · rw [hbound]
    exact h.identities key identity (hidentities ▸ hget)

/-! ### Deliveries -/

/-- The transport a frame may go to, where `n` transports had been bound. -/
def Rightly (bound : List Binding) (ingress : Option Identity) (transport fallback n : Nat) : Prop :=
  match ingress with
  | none => transport = fallback
  | some _ => Routed (bound.take n) (ingressKey ingress) transport

variable {ingress : Option Identity}

theorem Rightly.append {bound : List Binding} {t fallback n : Nat} (h : Rightly bound ingress t fallback n)
    (hn : n ≤ bound.length) (b : Binding) :
    Rightly (bound ++ [b]) ingress t fallback n := by
  unfold Rightly at *
  rwa [take_append_of_le_length hn]

theorem RealtimeChannel.Routes.rightly (h : c.Routes) (hsend : c.sendForIngress ingress = some transport) :
    Rightly c.bound ingress transport c.send c.bound.length := by
  cases ingress with
  | none => exact (Option.some.inj hsend).symm
  | some identity =>
    show Routed (c.bound.take c.bound.length) _ _
    rw [take_length]
    exact h.sends _ _ hsend

/-! ### The queue -/

def RealtimeChannel.Keeps (c : RealtimeChannel) (f : Frame) : Prop := c.ingresses.get? f.address = f.ingress

def RealtimeChannel.line (c : RealtimeChannel) : List Nat :=
  c.sent.map (fun d => d.frame.seq) ++ (c.pump.hand.toList ++ c.queue).map Frame.seq

def RealtimeChannel.Hand (c : RealtimeChannel) : Pump → Prop
  | .checking f => c.Keeps f ∧ c.evt = some f.address
  | .authorizing f ingress _ | .sleeping f ingress => ingress = f.ingress
  | .sending f transport fallback n ingress _ => ingress = f.ingress ∧ n ≤ c.bound.length ∧
    ∀ t, transport = some t → Rightly c.bound f.ingress t fallback n
  | .unstarted | .getting | .stopped _ => True

def RealtimeChannel.reachable (c : RealtimeChannel) (ingress : Option Identity) : Bool :=
  match c.sendForIngress ingress with
  | some transport => transport ∈ c.live
  | none => false

def RealtimeChannel.ready (c : RealtimeChannel) (f : Frame) : List Frame :=
  c.queue.filter fun g => g.key ≠ f.key && c.reachable g.ingress

structure RealtimeChannel.Sound (c : RealtimeChannel) : Prop where
  routes : c.Routes
  keeps : ∀ f ∈ c.queue, c.Keeps f
  apart : (c.queue.map Frame.address).Nodup
  fresh : ∀ f ∈ c.queue, c.evt ≠ some f.address
  hand : c.Hand c.pump
  ordered : c.line.Pairwise (· < ·)
  published : ∀ n ∈ c.line, n < c.published
  sent : ∀ d ∈ c.sent, d.bindings ≤ c.bound.length ∧
    Rightly c.bound d.frame.ingress d.transport d.fallback d.bindings

/-! ### Conditions -/

def RealtimeChannel.clear (c : RealtimeChannel) (stuck : Option Frame) : Bool :=
  match stuck with
  | some f => (c.ready f).isEmpty
  | none => true

def RealtimeChannel.orderly (c : RealtimeChannel) : Event → Bool
  | .publish address ingress _ =>
    (ingress.isSome || (c.ingresses.get? address).isNone) &&
      match c.pump.stuck with
      | some f => ingressKey ingress = f.key || !c.reachable ingress
      | none => true
  | .bind identity transport => (c.bindTransport identity transport).clear c.pump.stuck
  | .rebind transport => { c with send := transport }.clear c.pump.stuck
  | .up transport => { c with live := transport :: c.live }.clear c.pump.stuck
  | .failed | .surrender | .broken => c.clear c.pump.hand
  | _ => true

/-! ### Steps -/

theorem RealtimeChannel.Sound.publish (h : c.Sound) {address : Nat} (wireable : Bool)
    (hfree : c.free address = true) (hentry : ingress = none → c.ingresses.get? address = none) :
    (c.publish address ingress wireable).Sound := by
  simp only [RealtimeChannel.free, and_eq_true, decide_eq_true_eq, all_eq_true] at hfree
  obtain ⟨hevt, hqueue⟩ := hfree
  have hother (a : Nat) (ha : a ≠ address) :
      (c.publish address ingress wireable).ingresses.get? a = c.ingresses.get? a := by
    cases ingress with
    | none => rfl
    | some identity => exact Dict.get?_set_ne _ _ ha
  have hown : (c.publish address ingress wireable).ingresses.get? address = ingress := by
    cases ingress with
    | none => exact hentry rfl
    | some identity => exact Dict.get?_set_self _ _ _
  have hline : (c.publish address ingress wireable).line = c.line ++ [c.published] := by
    simp [RealtimeChannel.line, RealtimeChannel.publish]
  refine ⟨h.routes.same rfl rfl rfl, fun f hf => ?_, ?_, fun f hf => ?_, ?_, ?_, fun n hn => ?_, h.sent⟩
  · rcases List.mem_append.mp hf with hold | hnew
    · exact (hother f.address (hqueue f hold)).trans (h.keeps f hold)
    · rw [List.mem_singleton.mp hnew]
      exact hown
  · simp only [RealtimeChannel.publish, map_append, map_cons, map_nil]
    refine List.nodup_append.mpr ⟨h.apart, nodup_singleton _, fun a ha b hb => ?_⟩
    obtain ⟨f, hf, rfl⟩ := List.mem_map.mp ha
    rw [List.mem_singleton.mp hb]
    exact hqueue f hf
  · rcases List.mem_append.mp hf with hold | hnew
    · exact h.fresh f hold
    · rw [List.mem_singleton.mp hnew]
      exact hevt
  · have hhand := h.hand
    show RealtimeChannel.Hand _ c.pump
    cases hpump : c.pump with
    | checking f =>
      rw [hpump] at hhand
      refine ⟨(hother f.address fun heq => hevt ?_).trans hhand.1, hhand.2⟩
      rw [hhand.2, heq]
    | unstarted | getting | authorizing | sending | sleeping | stopped =>
      rw [hpump] at hhand
      exact hhand
  · rw [hline]
    refine List.pairwise_append.mpr ⟨h.ordered, pairwise_singleton _ _, fun n hn m hm => ?_⟩
    rw [List.mem_singleton.mp hm]
    exact h.published n hn
  · rw [hline] at hn
    show n < c.published + 1
    rcases List.mem_append.mp hn with hold | hnew
    · exact Nat.lt_succ_of_lt (h.published n hold)
    · rw [List.mem_singleton.mp hnew]
      exact Nat.lt_succ_self _

theorem get?_foldl_pop_ne {removed : List Frame} {ingresses : Dict Nat Identity} {a : Nat}
    (h : ∀ f ∈ removed, f.address ≠ a) :
    (removed.foldl (fun ingresses f => ingresses.pop f.address) ingresses).get? a = ingresses.get? a := by
  induction removed generalizing ingresses with
  | nil => rfl
  | cons f rest ih =>
    rw [foldl_cons, ih fun g hg => h g (.tail f hg)]
    exact Dict.get?_pop_ne _ (Ne.symm (h f mem_cons_self))

theorem eq_of_address {fs : List Frame} (hapart : (fs.map Frame.address).Nodup) (hf : f ∈ fs) (hg : g ∈ fs)
    (h : f.address = g.address) : f = g :=
  inj_on_of_nodup_map hapart hf hg h

theorem RealtimeChannel.Sound.purge (h : c.Sound) (seqs : List Nat) : (c.purge seqs).Sound := by
  have hsub : ((c.purge seqs).queue).Sublist c.queue := filter_sublist
  have hkept : ∀ a, (∀ f ∈ c.queue, f.seq ∈ seqs → f.address ≠ a) →
      (c.purge seqs).ingresses.get? a = c.ingresses.get? a := by
    refine fun a ha => get?_foldl_pop_ne fun f hf => ?_
    obtain ⟨hin, hseq⟩ := List.mem_filter.mp hf
    exact ha f hin (of_decide_eq_true hseq)
  have hline : ((c.purge seqs).line).Sublist c.line :=
    (List.Sublist.refl _).append (((List.Sublist.refl _).append hsub).map _)
  refine ⟨h.routes.same rfl rfl rfl, fun f hf => ?_, h.apart.sublist (hsub.map _), fun f hf => ?_, ?_,
    h.ordered.sublist hline, fun n hn => h.published n (hline.subset hn), h.sent⟩
  · obtain ⟨hin, hseq⟩ := List.mem_filter.mp hf
    refine (hkept f.address fun g hg hgone heq => ?_).trans (h.keeps f hin)
    obtain rfl := eq_of_address h.apart hg hin heq
    exact of_decide_eq_true hseq hgone
  · exact h.fresh f (hsub.subset hf)
  · have hhand := h.hand
    show RealtimeChannel.Hand _ c.pump
    cases hpump : c.pump with
    | checking f =>
      rw [hpump] at hhand
      refine ⟨(hkept f.address fun g hg _ heq => h.fresh g hg ?_).trans hhand.1, hhand.2⟩
      rw [hhand.2, heq]
    | unstarted | getting | authorizing | sending | sleeping | stopped =>
      rw [hpump] at hhand
      exact hhand

theorem RealtimeChannel.Sound.bindTransport (h : c.Sound) (identity : Identity) (transport : Nat) :
    (c.bindTransport identity transport).Sound := by
  have hlength (n : Nat) (hn : n ≤ c.bound.length) : n ≤ (c.bindTransport identity transport).bound.length := by
    simp only [RealtimeChannel.bindTransport, length_append]
    omega
  refine ⟨h.routes.bindTransport identity transport, h.keeps, h.apart, h.fresh, ?_, h.ordered, h.published,
    fun d hd => ⟨hlength _ (h.sent d hd).1, (h.sent d hd).2.append (h.sent d hd).1 _⟩⟩
  have hhand := h.hand
  show RealtimeChannel.Hand _ c.pump
  cases hpump : c.pump with
  | sending f t fallback n ingress again =>
    rw [hpump] at hhand
    obtain ⟨hingress, hn, hrightly⟩ := hhand
    exact ⟨hingress, hlength n hn, fun t ht => (hrightly t ht).append hn _⟩
  | unstarted | getting | checking | authorizing | sleeping | stopped =>
    rw [hpump] at hhand
    exact hhand

/-- The pump goes on to `pump` with the frame in hand, or without one. -/
theorem RealtimeChannel.Sound.moved (h : c.Sound) {pump : Pump} (hhand : c.Hand pump)
    (hline : pump.hand = c.pump.hand ∨ pump.hand = none) : ({ c with pump := pump } : RealtimeChannel).Sound := by
  have hsub : (({ c with pump := pump } : RealtimeChannel).line).Sublist c.line := by
    refine (List.Sublist.refl _).append ((List.Sublist.append ?_ (List.Sublist.refl _)).map _)
    show pump.hand.toList.Sublist c.pump.hand.toList
    rcases hline with hsame | hnone
    · rw [hsame]
    · rw [hnone]
      exact nil_sublist _
  refine ⟨h.routes.same rfl rfl rfl, h.keeps, h.apart, h.fresh, ?_, h.ordered.sublist hsub,
    fun n hn => h.published n (hsub.subset hn), h.sent⟩
  show RealtimeChannel.Hand _ pump
  cases pump <;> exact hhand

theorem RealtimeChannel.Sound.get (h : c.Sound) {rest : List Frame} (hpump : c.pump = .getting)
    (hqueue : c.queue = f :: rest) :
    ({ c with pump := .checking f, queue := rest, evt := some f.address } : RealtimeChannel).Sound := by
  have hin : ∀ g ∈ rest, g ∈ c.queue := fun g hg => hqueue ▸ .tail f hg
  have hline : ({ c with pump := .checking f, queue := rest, evt := some f.address } : RealtimeChannel).line
      = c.line := by
    simp [RealtimeChannel.line, Pump.hand, hpump, hqueue]
  have hapart := h.apart
  rw [hqueue, map_cons, nodup_cons] at hapart
  refine ⟨h.routes.same rfl rfl rfl, fun g hg => h.keeps g (hin g hg), hapart.2, fun g hg heq => ?_,
    ⟨h.keeps f (hqueue ▸ mem_cons_self), rfl⟩, ?_, ?_, h.sent⟩
  · refine hapart.1 ?_
    rw [Option.some.inj heq]
    exact mem_map_of_mem hg
  · rw [hline]
    exact h.ordered
  · rw [hline]
    exact h.published

theorem RealtimeChannel.Sound.taken (h : c.Sound) (hpump : c.pump = .checking f) : (c.taken f).Sound := by
  have hhand := h.hand
  rw [hpump] at hhand
  obtain ⟨hkeeps, hevt⟩ := hhand
  have hmoved : ({ c with pump := (c.taken f).pump } : RealtimeChannel).Sound := by
    refine h.moved ?_ ?_
    · unfold RealtimeChannel.taken
      dsimp only
      split
      · exact hkeeps
      · trivial
    · rw [hpump]
      unfold RealtimeChannel.taken
      dsimp only
      split
      · exact .inl rfl
      · exact .inr rfl
  refine ⟨hmoved.routes.same rfl rfl rfl, fun g hg => ?_, hmoved.apart, hmoved.fresh, ?_, hmoved.ordered,
    hmoved.published, hmoved.sent⟩
  · refine (Dict.get?_pop_ne _ fun heq => h.fresh g hg ?_).trans (h.keeps g hg)
    rw [hevt, heq]
  · unfold RealtimeChannel.taken
    dsimp only
    split
    · exact hkeeps
    · trivial

theorem RealtimeChannel.Sound.delivered (h : c.Sound) {fallback n : Nat} {again : Bool}
    (hpump : c.pump = .sending f (some transport) fallback n ingress again) :
    ({ c with pump := .getting, sent := c.sent ++ [⟨f, transport, fallback, n⟩] } : RealtimeChannel).Sound := by
  have hhand := h.hand
  rw [hpump] at hhand
  obtain ⟨-, hn, hrightly⟩ := hhand
  have hline : ({ c with pump := .getting, sent := c.sent ++ [⟨f, transport, fallback, n⟩] } :
      RealtimeChannel).line = c.line := by
    simp [RealtimeChannel.line, Pump.hand, hpump]
  refine ⟨h.routes.same rfl rfl rfl, h.keeps, h.apart, h.fresh, trivial, ?_, ?_, fun d hd => ?_⟩
  · rw [hline]
    exact h.ordered
  · rw [hline]
    exact h.published
  · rcases List.mem_append.mp hd with hold | hnew
    · exact h.sent d hold
    · rw [List.mem_singleton.mp hnew]
      exact ⟨hn, hrightly transport rfl⟩

theorem hand_same {pump : Pump} (h : c.Hand pump) (hingresses : c'.ingresses = c.ingresses)
    (hevt : c'.evt = c.evt) (hbound : c'.bound = c.bound) : c'.Hand pump := by
  cases pump with
  | checking f =>
    refine ⟨?_, hevt.trans h.2⟩
    unfold RealtimeChannel.Keeps
    rw [hingresses]
    exact h.1
  | sending f t fallback n ingress again =>
    obtain ⟨hingress, hn, hrightly⟩ := h
    refine ⟨hingress, ?_, fun t ht => ?_⟩
    · rw [hbound]
      exact hn
    · rw [hbound]
      exact hrightly t ht
  | unstarted | getting | authorizing | sleeping | stopped => exact h

theorem RealtimeChannel.Sound.environment (h : c.Sound) (send : Nat) (live : List Nat) :
    ({ c with send := send, live := live } : RealtimeChannel).Sound :=
  ⟨h.routes.same rfl rfl rfl, h.keeps, h.apart, h.fresh, hand_same h.hand rfl rfl rfl, h.ordered, h.published,
    h.sent⟩

theorem sound_step {e : Event} (h : c.Sound) (horderly : c.orderly e = true) (hstep : c.step e = some c') :
    c'.Sound := by
  cases e with
  | publish address ingress wireable =>
    simp only [RealtimeChannel.step] at hstep
    split at hstep
    · rename_i hfree
      cases hstep
      refine h.publish wireable hfree fun hnone => ?_
      subst hnone
      simp only [RealtimeChannel.orderly, Option.isSome_none, Bool.false_or, Bool.and_eq_true,
        Option.isNone_iff_eq_none] at horderly
      exact horderly.1
    · cases hstep
  | purge seqs =>
    cases hstep
    exact h.purge seqs
  | bind identity transport =>
    cases hstep
    exact h.bindTransport identity transport
  | rebind transport =>
    cases hstep
    exact h.environment transport c.live
  | up transport | down transport =>
    cases hstep
    exact h.environment c.send _
  | start =>
    simp only [RealtimeChannel.step] at hstep
    split at hstep
    · cases hstep
      exact h.moved trivial (.inr rfl)
    · cases hstep
      exact h.moved trivial (.inr rfl)
    · cases hstep
      exact h
  | get =>
    simp only [RealtimeChannel.step] at hstep
    split at hstep
    · rename_i f rest hpump hqueue
      cases hstep
      exact h.get hpump hqueue
    · cases hstep
  | authorized =>
    simp only [RealtimeChannel.step] at hstep
    split at hstep
    · rename_i f hpump
      cases hstep
      exact h.taken hpump
    · rename_i f ingress again hpump
      cases hstep
      have hhand := h.hand
      rw [hpump] at hhand
      obtain rfl : ingress = f.ingress := hhand
      refine h.moved ⟨rfl, Nat.le_refl _, fun t ht => h.routes.rightly ht⟩ (.inl ?_)
      rw [hpump]
      rfl
    · cases hstep
  | fenced | broken =>
    simp only [RealtimeChannel.step] at hstep
    split at hstep
    · cases hstep
      exact h.moved trivial (.inr rfl)
    · cases hstep
      exact h.moved trivial (.inr rfl)
    · cases hstep
  | delivered =>
    simp only [RealtimeChannel.step] at hstep
    split at hstep
    · rename_i f t fallback n ingress again hpump
      split at hstep
      · cases hstep
        exact h.delivered hpump
      · cases hstep
    · cases hstep
  | failed =>
    simp only [RealtimeChannel.step] at hstep
    split at hstep
    · rename_i f t fallback n ingress again hpump
      cases hstep
      have hhand := h.hand
      rw [hpump] at hhand
      exact h.moved hhand.1 (.inl (by rw [hpump]; rfl))
    · cases hstep
  | surrender =>
    simp only [RealtimeChannel.step] at hstep
    split at hstep
    · cases hstep
      exact h.moved trivial (.inr rfl)
    · cases hstep
  | wake =>
    simp only [RealtimeChannel.step] at hstep
    split at hstep
    · rename_i f ingress hpump
      cases hstep
      have hhand := h.hand
      rw [hpump] at hhand
      exact h.moved hhand (.inl (by rw [hpump]; rfl))
    · cases hstep

/-! ### Isolation -/

def phone : Identity := { deviceId := some "phone", connectionId := some "c9", clientInstanceId := some "app" }

end OpenAgent.Stream.Realtime
