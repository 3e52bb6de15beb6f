import OpenAgent.Lib.Transition
import OpenAgent.Runtime.Progress

/-!
# Sessions are serial

A task that is past the authorization to execute holds the lock of its session until it leaves the body of `_execute`,
whatever cancels it, times it out or makes it raise. So the executor runs for one task of a session at a time, and the
two authorizations stand in the log before what they allow.
-/

namespace OpenAgent

open Lib List

variable {D P : Type}

/-! ### What holds of every task -/

def Entries (log : List SessionEvent) : Prop :=
  ∀ front t, front ++ [.entered t] <+: log →
    List.Sublist [.acquired t, .executeAuthorized t] front ∧ .released t ∉ front

theorem Entries.push {log : List SessionEvent} (h : Entries log) {event : SessionEvent}
    (hevent : ∀ t, event = .entered t → List.Sublist [.acquired t, .executeAuthorized t] log ∧ .released t ∉ log) :
    Entries (log ++ [event]) := by
  intro front t hbegin
  rcases List.prefix_concat_iff.mp hbegin with heq | hbegin
  · obtain ⟨rfl, hlast⟩ := append_inj' heq rfl
    exact hevent t (List.singleton_inj.mp hlast).symm
  · exact h front t hbegin

theorem Entries.append {log events : List SessionEvent} (h : Entries log) (hnone : ∀ t, .entered t ∉ events) :
    Entries (log ++ events) := by
  induction events using List.reverseRecOn with
  | nil => rwa [append_nil]
  | append_singleton events event ih =>
    rw [← append_assoc]
    refine (ih fun t ht => hnone t (mem_append_left _ ht)).push ?_
    rintro t rfl
    exact absurd (mem_append_right _ (mem_singleton_self _)) (hnone t)

namespace Serial

/-- The lock, the gates and the log agree with where the tasks are; `recorded` is what was a success from the start. -/
structure Sound (recorded : String → Prop) (s : Serial D P) : Prop where
  held : ∀ (t : Nat) e, s.runtime.executions[t]? = some e → (s.gate t).holds = true →
    s.sessions.get? e.context.session = some (.run t)
  releasing : ∀ (j : Nat) call, s.releases[j]? = some call → call.phase = .releasing →
    s.sessions.get? call.context.session = some (.release j)
  within : ∀ (t : Nat) e, s.runtime.executions[t]? = some e → e.phase.within = true →
    s.gate t = .admitted ∨ s.gate t = .publishable
  known : ∀ t, s.runtime.executions.length ≤ t → s.gate t = .outside
  succeeding : ∀ (t : Nat) e output handler, s.runtime.executions[t]? = some e → e.phase = .settling .success output handler →
    s.gate t = .publishable
  honest : ∀ (t : Nat) e output, s.runtime.executions[t]? = some e → e.phase ≠ .settling .success output true
  unreleased : ∀ t, s.gate t ≠ .left → .released t ∉ s.log
  acquired : ∀ t, s.gate t = .locked → .acquired t ∈ s.log
  authorized : ∀ t, s.gate t = .admitted ∨ s.gate t = .publishable → List.Sublist [.acquired t, .executeAuthorized t] s.log
  running : ∀ (t : Nat) e, s.runtime.executions[t]? = some e → e.phase = .executing → .entered t ∈ s.log
  returned : ∀ (t : Nat) e output, s.runtime.executions[t]? = some e → e.phase = .publishing output → .returned t ∈ s.log
  published : ∀ t, s.gate t = .publishable → List.Sublist [.returned t, .publishAuthorized t] s.log
  entries : Entries s.log
  successes : ∀ id, s.runtime.ledger.succeeded id = true → recorded id ∨
    ∃ (t : Nat) (e : Execution), s.runtime.executions[t]? = some e ∧ e.request.runId = id ∧ List.Sublist [.returned t, .publishAuthorized t] s.log

variable {recorded : String → Prop} {s s' : Serial D P} {t : Nat} {e : Execution}

theorem gate_setGate (s : Serial D P) (t u : Nat) (g : Gate) :
    (s.setGate t g).gate u = if u = t then g else s.gate u := by
  rw [gate, setGate, Dict.get?_set]
  split <;> rfl

theorem sound_construct (runtime : Runtime D P) (hempty : runtime.executions = []) :
    (construct runtime).Sound fun id => runtime.ledger.succeeded id = true where
  held t e he := by simp [construct, hempty] at he
  releasing j call hcall := by cases hcall
  within t e he := by simp [construct, hempty] at he
  known t _ := rfl
  succeeding t e output handler he := by simp [construct, hempty] at he
  honest t e output he := by simp [construct, hempty] at he
  unreleased t _ := not_mem_nil
  acquired t h := by cases h
  authorized t h := by rcases h with h | h <;> cases h
  running t e he := by simp [construct, hempty] at he
  returned t e output he := by simp [construct, hempty] at he
  published t h := by cases h
  entries front t h := by simp [construct] at h
  successes id h := .inl h

theorem Sound.beside {r : Runtime D P} (hs : s.Sound recorded) (hunmoved : s.runtime.Unmoved r)
    (hgains : ∀ {p}, Ledger.Gains p s.runtime.ledger r.ledger) : Sound recorded { s with runtime := r } where
  held t e' he' hholds := by
    rcases hunmoved.back t e' he' with ⟨e, he, hidle⟩ | ⟨rfl, -⟩
    · rw [hidle.context]
      exact hs.held t e he hholds
    · have houtside := hs.known _ (Nat.le_refl _)
      have hgate : (s.gate s.runtime.executions.length).holds = true := hholds
      rw [houtside] at hgate
      cases hgate
  releasing := hs.releasing
  within t e' he' hwithin := by
    rcases hunmoved.back t e' he' with ⟨e, he, hidle⟩ | ⟨-, hphase⟩
    · exact hs.within t e he (by rw [← hidle.phase]; exact hwithin)
    · rw [hphase] at hwithin
      cases hwithin
  known t ht := hs.known t (Nat.le_trans hunmoved.length ht)
  succeeding t e' output handler he' hsettling := by
    rcases hunmoved.back t e' he' with ⟨e, he, hidle⟩ | ⟨-, hphase⟩
    · exact hs.succeeding t e output handler he (by rw [← hidle.phase]; exact hsettling)
    · simp [hphase] at hsettling
  honest t e' output he' hsettling := by
    rcases hunmoved.back t e' he' with ⟨e, he, hidle⟩ | ⟨-, hphase⟩
    · exact hs.honest t e output he (by rw [← hidle.phase]; exact hsettling)
    · simp [hphase] at hsettling
  unreleased := hs.unreleased
  acquired := hs.acquired
  authorized := hs.authorized
  running t e' he' hexecuting := by
    rcases hunmoved.back t e' he' with ⟨e, he, hidle⟩ | ⟨-, hphase⟩
    · exact hs.running t e he (by rw [← hidle.phase]; exact hexecuting)
    · simp [hphase] at hexecuting
  returned t e' output he' hpublishing := by
    rcases hunmoved.back t e' he' with ⟨e, he, hidle⟩ | ⟨-, hphase⟩
    · exact hs.returned t e output he (by rw [← hidle.phase]; exact hpublishing)
    · simp [hphase] at hpublishing
  published := hs.published
  entries := hs.entries
  successes id hid := by
    rcases hgains (p := fun _ => False) id hid with hold | hfalse
    · rcases hs.successes id hold with hrecorded | ⟨t, e, he, hrun, hlog⟩
      · exact .inl hrecorded
      · obtain ⟨e', he', hidle⟩ := hunmoved.forth t e he
        exact .inr ⟨t, e', he', by rw [hidle.request]; exact hrun, hlog⟩
    · exact hfalse.elim

theorem mem_notes {event : SessionEvent} {a : ExecutionAction D P} (h : event ∈ notes t a) :
    event = .entered t ∧ a = .launch ∨ event = .returned t ∧ ∃ output, a = .returns output := by
  cases a with
  | launch => exact .inl ⟨List.mem_singleton.mp h, rfl⟩
  | returns output => exact .inr ⟨List.mem_singleton.mp h, output, rfl⟩
  | _ => cases h

theorem Sound.advance {r : Runtime D P} {a : ExecutionAction D P} {e' : Execution} (hs : s.Sound recorded)
    (he : s.runtime.executions[t]? = some e) (hpermits : s.permits t a = true)
    (h : Advanced s.runtime r t a e e') :
    Sound recorded { s with runtime := r, log := s.log ++ notes t a } := by
  have hback : ∀ (u : Nat) f, r.executions[u]? = some f →
      u = t ∧ f = e' ∨ u ≠ t ∧ s.runtime.executions[u]? = some f := by
    intro u f hf
    rw [h.executions] at hf
    rcases (getElem?_set_eq_some he).mp hf with ⟨rfl, rfl⟩ | ⟨hne, hold⟩
    · exact .inl ⟨rfl, rfl⟩
    · exact .inr ⟨fun heq => hne heq.symm, hold⟩
  have hnew : r.executions[t]? = some e' := by
    rw [h.executions]
    exact (getElem?_set_eq_some he).mpr (.inl ⟨rfl, rfl⟩)
  have hgrows : ∀ {events : List SessionEvent}, events.Sublist s.log → events.Sublist (s.log ++ notes t a) :=
    fun hsub => hsub.trans (sublist_append_left _ _)
  have hwithin : ∀ {phase phase' : Phase}, e.phase = phase → e'.phase = phase' → Progress a phase phase' →
      phase'.within = true → s.gate t = .admitted ∨ s.gate t = .publishable := by
    intro phase phase' hphase hphase' hprogress hinside
    cases hprogress with
    | advanced => exact .inl (by simpa [permits] using hpermits)
    | read | claimed | launched | returned | absorbed | published =>
      exact hs.within t e he (by rw [hphase]; rfl)
    | kept _ _ hkept => exact hs.within t e he (by rw [hphase]; exact hkept)
    | dropped | entered | handled | ended => cases hinside
  exact {
    held := fun u f hf hholds => by
      rcases hback u f hf with ⟨rfl, rfl⟩ | ⟨-, hold⟩
      · rw [h.context]
        exact hs.held u e he hholds
      · exact hs.held u f hold hholds
    releasing := hs.releasing
    within := fun u f hf hinside => by
      rcases hback u f hf with ⟨rfl, rfl⟩ | ⟨-, hold⟩
      · exact hwithin rfl rfl h.progress hinside
      · exact hs.within u f hold hinside
    known := fun u hu => by
      have hlength : r.executions.length ≤ u := hu
      rw [h.executions, length_set] at hlength
      exact hs.known u hlength
    succeeding := fun u f output handler hf hsettling => by
      rcases hback u f hf with ⟨rfl, rfl⟩ | ⟨-, hold⟩
      · have hprogress := h.progress
        rw [hsettling] at hprogress
        generalize e.phase = phase at hprogress
        cases hprogress with
        | published diagnostic output =>
          have hgate : s.gate u = .publishable := by simpa [permits] using hpermits
          exact hgate
        | kept _ hstatus | handled _ hstatus => exact absurd rfl hstatus
      · exact hs.succeeding u f output handler hold hsettling
    honest := fun u f output hf hsettling => by
      rcases hback u f hf with ⟨rfl, rfl⟩ | ⟨-, hold⟩
      · have hprogress := h.progress
        rw [hsettling] at hprogress
        generalize e.phase = phase at hprogress
        cases hprogress with
        | handled _ hstatus => exact absurd rfl hstatus
      · exact hs.honest u f output hold hsettling
    unreleased := fun u hu hmem => by
      rcases List.mem_append.mp hmem with hold | hnote
      · exact hs.unreleased u hu hold
      · rcases mem_notes hnote with ⟨hevent, -⟩ | ⟨hevent, -⟩ <;> cases hevent
    acquired := fun u hu => mem_append_left _ (hs.acquired u hu)
    authorized := fun u hu => hgrows (hs.authorized u hu)
    running := fun u f hf hexecuting => by
      rcases hback u f hf with ⟨rfl, rfl⟩ | ⟨-, hold⟩
      · have hprogress := h.progress
        rw [hexecuting] at hprogress
        generalize hphase : e.phase = phase at hprogress
        cases hprogress with
        | launched => exact mem_append_right _ (mem_singleton_self _)
        | absorbed => exact mem_append_left _ (hs.running u e he hphase)
      · exact mem_append_left _ (hs.running u f hold hexecuting)
    returned := fun u f output hf hpublishing => by
      rcases hback u f hf with ⟨rfl, rfl⟩ | ⟨-, hold⟩
      · have hprogress := h.progress
        rw [hpublishing] at hprogress
        generalize e.phase = phase at hprogress
        cases hprogress with
        | returned => exact mem_append_right _ (mem_singleton_self _)
      · exact mem_append_left _ (hs.returned u f output hold hpublishing)
    published := fun u hu => hgrows (hs.published u hu)
    entries := by
      cases a with
      | launch =>
        refine hs.entries.push fun u hu => ?_
        obtain rfl := SessionEvent.entered.inj hu
        have hgate : s.gate t = .admitted ∨ s.gate t = .publishable := by
          have hprogress := h.progress
          generalize hphase : e.phase = phase at hprogress
          generalize e'.phase = phase' at hprogress
          cases hprogress with
          | launched => exact hs.within t e he (by rw [hphase]; rfl)
          | kept hquiet | handled hquiet | ended hquiet => cases hquiet 0
        refine ⟨hs.authorized t hgate, hs.unreleased t ?_⟩
        rcases hgate with hgate | hgate <;> rw [hgate] <;> decide
      | returns output => exact hs.entries.push fun u hu => by cases hu
      | _ => simpa [notes] using hs.entries
    successes := fun id hid => by
      rcases h.gains id hid with hold | ⟨rfl, output, handler, hsettling⟩
      · rcases hs.successes id hold with hrecorded | ⟨u, f, hf, hrun, hlog⟩
        · exact .inl hrecorded
        · by_cases hut : u = t
          · subst hut
            cases he.symm.trans hf
            exact .inr ⟨u, e', hnew, by rw [h.request]; exact hrun, hgrows hlog⟩
          · refine .inr ⟨u, f, ?_, hrun, hgrows hlog⟩
            rw [h.executions]
            exact (getElem?_set_eq_some he).mpr (.inr ⟨fun heq => hut heq.symm, hf⟩)
      · refine .inr ⟨t, e', hnew, by rw [h.request], hgrows (hs.published t ?_)⟩
        exact hs.succeeding t e output handler he hsettling }

theorem Sound.regate {g : Gate} {sessions : Dict (String × String) Occupant} {events : List SessionEvent}
    (hs : s.Sound recorded) (he : s.runtime.executions[t]? = some e)
    (hheld : ∀ (u : Nat) f, s.runtime.executions[u]? = some f → (if u = t then g else s.gate u).holds = true →
      sessions.get? f.context.session = some (.run u))
    (hreleasing : ∀ (j : Nat) call, s.releases[j]? = some call → call.phase = .releasing →
      sessions.get? call.context.session = some (.release j))
    (hwithin : e.phase.within = true → g = .admitted ∨ g = .publishable)
    (hsucceeding : ∀ output handler, e.phase = .settling .success output handler → g = .publishable)
    (hunreleased : ∀ u, .released u ∈ events → u = t ∧ g = .left) (hleft : s.gate t = .left → g = .left)
    (hacquired : g = .locked → .acquired t ∈ s.log ++ events)
    (hauthorized : g = .admitted ∨ g = .publishable →
      List.Sublist [.acquired t, .executeAuthorized t] (s.log ++ events))
    (hpublished : g = .publishable → List.Sublist [.returned t, .publishAuthorized t] (s.log ++ events))
    (hentries : ∀ u, .entered u ∉ events) :
    Sound recorded { s.setGate t g with sessions := sessions, log := s.log ++ events } := by
  have hgate : ∀ u, gate { s.setGate t g with sessions := sessions, log := s.log ++ events } u =
      if u = t then g else s.gate u := fun u => gate_setGate s t u g
  have hgrows : ∀ {xs : List SessionEvent}, xs.Sublist s.log → xs.Sublist (s.log ++ events) :=
    fun hsub => hsub.trans (sublist_append_left _ _)
  exact {
    held := fun u f hf hholds => hheld u f hf (by rw [← hgate]; exact hholds)
    releasing := hreleasing
    within := fun u f hf hinside => by
      rw [hgate]
      split
      · rename_i hut
        subst hut
        cases he.symm.trans hf
        exact hwithin hinside
      · exact hs.within u f hf hinside
    known := fun u hu => by
      rw [hgate, if_neg]
      · exact hs.known u hu
      · rintro rfl
        have habsent : s.runtime.executions[u]? = none := getElem?_eq_none hu
        simp [he] at habsent
    succeeding := fun u f output handler hf hsettling => by
      rw [hgate]
      split
      · rename_i hut
        subst hut
        cases he.symm.trans hf
        exact hsucceeding output handler hsettling
      · exact hs.succeeding u f output handler hf hsettling
    honest := hs.honest
    unreleased := fun u hu hmem => by
      rw [hgate] at hu
      rcases List.mem_append.mp hmem with hold | hnew
      · by_cases hut : u = t
        · subst hut
          rw [if_pos rfl] at hu
          exact hs.unreleased u (fun h => hu (hleft h)) hold
        · rw [if_neg hut] at hu
          exact hs.unreleased u hu hold
      · obtain ⟨rfl, hg⟩ := hunreleased u hnew
        rw [if_pos rfl] at hu
        exact hu hg
    acquired := fun u hu => by
      rw [hgate] at hu
      split at hu
      · rename_i hut
        subst hut
        exact hacquired hu
      · exact mem_append_left _ (hs.acquired u hu)
    authorized := fun u hu => by
      rw [hgate] at hu
      split at hu
      · rename_i hut
        subst hut
        exact hauthorized hu
      · exact hgrows (hs.authorized u hu)
    running := fun u f hf hexecuting => mem_append_left _ (hs.running u f hf hexecuting)
    returned := fun u f output hf hpublishing => mem_append_left _ (hs.returned u f output hf hpublishing)
    published := fun u hu => by
      rw [hgate] at hu
      split at hu
      · rename_i hut
        subst hut
        exact hpublished hu
      · exact hgrows (hs.published u hu)
    entries := hs.entries.append hentries
    successes := fun id hid => by
      rcases hs.successes id hid with hrecorded | ⟨u, f, hf, hrun, hlog⟩
      · exact .inl hrecorded
      · exact .inr ⟨u, f, hf, hrun, hgrows hlog⟩ }

theorem Sound.regate_quiet {g : Gate} (hs : s.Sound recorded) (he : s.runtime.executions[t]? = some e)
    (hphase : e.phase = .entering) (hgate : s.gate t ≠ .left) (hg : g.holds = false) :
    (s.setGate t g).Sound recorded := by
  have hregated := @Sound.regate D P recorded s t e g s.sessions [] hs he
    (fun u f hf hholds => by
      split at hholds
      · simp [hg] at hholds
      · exact hs.held u f hf hholds)
    hs.releasing (by rw [hphase]; exact nofun) (by rw [hphase]; exact nofun) (fun u hu => by cases hu)
    (fun h => absurd h hgate) (by rintro rfl; cases hg) (by rintro (rfl | rfl) <;> cases hg)
    (by rintro rfl; cases hg) (fun u hu => by cases hu)
  rw [append_nil] at hregated
  exact hregated

theorem Sound.leave (hs : s.Sound recorded) (he : s.runtime.executions[t]? = some e) : (s.leave t e).Sound recorded := by
  rw [Serial.leave]
  split
  · exact hs
  rename_i hbody
  rw [Execution.inBody_eq] at hbody
  have hwithin : e.phase.within = true → Gate.left = .admitted ∨ Gate.left = .publishable :=
    fun h => absurd (Phase.inBody_of_within h) hbody
  have hsucceeding : ∀ output handler, e.phase = .settling .success output handler → Gate.left = .publishable := by
    intro output handler hsettling
    cases handler with
    | false => exact absurd (by rw [hsettling]; rfl) hbody
    | true => exact absurd hsettling (hs.honest t e output he)
  split
  · rename_i hholds
    have hkey := hs.held t e he hholds
    refine hs.regate he ?_ ?_ hwithin hsucceeding ?_ (fun _ => rfl) nofun nofun nofun (by simp)
    · intro u f hf hheld
      split at hheld
      · cases hheld
      · rename_i hut
        have hother := hs.held u f hf hheld
        rw [Dict.get?_pop_ne _ (fun hsame => ?_)]
        · exact hother
        · rw [hsame, hkey] at hother
          exact hut (Occupant.run.inj (Option.some.inj hother)).symm
    · intro j call hcall hphase
      have hother := hs.releasing j call hcall hphase
      rw [Dict.get?_pop_ne _ (fun hsame => ?_)]
      · exact hother
      · simp [hsame, hkey] at hother
    · intro u hu
      exact ⟨SessionEvent.released.inj (List.mem_singleton.mp hu), rfl⟩
  · rename_i hholds
    have hregated := @Sound.regate D P recorded s t e .left s.sessions [] hs he
      (fun u f hf hheld => by
        split at hheld
        · cases hheld
        · exact hs.held u f hf hheld)
      hs.releasing hwithin hsucceeding (fun u hu => by cases hu) (fun _ => rfl) nofun nofun nofun
      (fun u hu => by cases hu)
    rw [append_nil] at hregated
    exact hregated

variable {env : Environment D}

theorem Sound.executionStep {a : ExecutionAction D P} (hs : s.Sound recorded)
    (h : s.executionStep env t a = some s') : s'.Sound recorded := by
  rw [Serial.executionStep] at h
  split at h
  · rename_i hpermits
    split at h
    · cases h
    rename_i r hr
    obtain ⟨e, he, e', hadvanced⟩ := Runtime.executionStep_advanced hr
    have hnew : r.executions[t]? = some e' := by
      rw [hadvanced.executions]
      exact (getElem?_set_eq_some he).mpr (.inl ⟨rfl, rfl⟩)
    simp only [hnew, Option.some.injEq] at h
    subst h
    exact (hs.advance he hpermits hadvanced).leave hnew
  · cases h

theorem Sound.steer {attempt : Attempt D P} (hs : s.Sound recorded) (he : s.runtime.executions[t]? = some e)
    (hphase : e.phase = .entering) (hgate : s.gate t = .outside) (h : s.steer env t e attempt = some s') :
    s'.Sound recorded := by
  rw [Serial.steer] at h
  split at h
  · cases h
  split at h
  · rename_i record hrecord
    split at h
    · split at h
      · rename_i sequence ledger happend
        cases h
        have hbeside : Sound recorded { s with runtime := Runtime.cancelCall { s.runtime with ledger } record.runId e.context false } :=
          hs.beside (.of_same (.refl _)) (Store.appendEvent_gains (Store.transaction_ok happend))
        have hopen : s.gate t ≠ .left := by simp [hgate]
        exact hbeside.regate_quiet he hphase hopen rfl
      · cases h
    · cases h
  · cases h

theorem Sound.gateStep {a : GateAction D P} (hs : s.Sound recorded) (h : s.gateStep env t a = some s') :
    s'.Sound recorded := by
  rw [Serial.gateStep] at h
  split at h
  · cases h
  rename_i e he
  split at h
  · rename_i attempt hphase hgate
    exact hs.steer he hphase hgate h
  · rename_i k hphase hgate
    split at h
    · cases h
      exact hs.regate_quiet he hphase (by simp [hgate]) rfl
    · cases h
  · rename_i hphase hgate
    split at h
    · cases h
      exact hs.regate_quiet he hphase (by simp [hgate]) rfl
    · cases h
  · rename_i hphase hgate
    split at h
    · cases h
    rename_i hfree
    cases h
    have hfree : s.sessions.get? e.context.session = none := by simpa [Dict.contains] using hfree
    refine hs.regate he ?_ ?_ (by simp [hphase, Phase.within]) (by simp [hphase]) (by simp) (by simp [hgate])
      (fun _ => mem_append_right _ (mem_singleton_self _)) (by simp) (by simp) (by simp)
    · intro u f hf hheld
      split at hheld
      · rename_i hut
        subst hut
        cases he.symm.trans hf
        exact Dict.get?_set_self _ _ _
      · have hother := hs.held u f hf hheld
        rw [Dict.get?_set_ne _ _ fun hsame => by rw [hsame, hfree] at hother; cases hother]
        exact hother
    · intro j call hcall hreleasing
      have hother := hs.releasing j call hcall hreleasing
      rw [Dict.get?_set_ne _ _ fun hsame => by rw [hsame, hfree] at hother; cases hother]
      exact hother
  · rename_i hphase hgate
    cases h
    have hacquired : List.Sublist [.acquired t, .executeAuthorized t] (s.log ++ [.executeAuthorized t]) :=
      (List.singleton_sublist.mpr (hs.acquired t hgate)).append (.refl _)
    refine hs.regate he ?_ hs.releasing (by simp [hphase, Phase.within]) (by simp [hphase]) (by simp) (by simp [hgate])
      (by simp) (fun _ => hacquired) (by simp) (by simp)
    intro u f hf hheld
    split at hheld
    · rename_i hut
      subst hut
      exact hs.held u f hf (by rw [hgate]; rfl)
    · exact hs.held u f hf hheld
  · rename_i output hphase hgate
    cases h
    have hreturned : List.Sublist [.returned t, .publishAuthorized t] (s.log ++ [.publishAuthorized t]) :=
      (List.singleton_sublist.mpr (hs.returned t e output he hphase)).append (.refl _)
    refine hs.regate he ?_ hs.releasing (fun _ => .inr rfl) (fun _ _ _ => rfl) (by simp) (by simp [hgate]) (by simp)
      (fun _ => (hs.authorized t (.inl hgate)).trans (sublist_append_left _ _)) (fun _ => hreturned) (by simp)
    intro u f hf hheld
    split at hheld
    · rename_i hut
      subst hut
      exact hs.held u f hf (by rw [hgate]; rfl)
    · exact hs.held u f hf hheld
  · cases h

theorem Sound.rerelease {sessions : Dict (String × String) Occupant} {releases : List Release} (hs : s.Sound recorded)
    (hheld : ∀ (u : Nat) f, s.runtime.executions[u]? = some f → (s.gate u).holds = true →
      sessions.get? f.context.session = some (.run u))
    (hreleasing : ∀ (j : Nat) call, releases[j]? = some call → call.phase = .releasing →
      sessions.get? call.context.session = some (.release j)) :
    Sound recorded { s with sessions := sessions, releases := releases } where
  held := hheld
  releasing := hreleasing
  within := hs.within
  known := hs.known
  succeeding := hs.succeeding
  honest := hs.honest
  unreleased := hs.unreleased
  acquired := hs.acquired
  authorized := hs.authorized
  running := hs.running
  returned := hs.returned
  published := hs.published
  entries := hs.entries
  successes := hs.successes

theorem Sound.releaseStep {j : Nat} {a : ReleaseAction} (hs : s.Sound recorded) (h : s.releaseStep j a = some s') :
    s'.Sound recorded := by
  rw [Serial.releaseStep] at h
  split at h
  · cases h
  rename_i call hcall
  have hback : ∀ {phase : ReleasePhase} (k : Nat) other, (s.releases.set j { call with phase })[k]? = some other →
      k = j ∧ other = { call with phase } ∨ k ≠ j ∧ s.releases[k]? = some other := by
    intro phase k other hk
    rcases (getElem?_set_eq_some hcall).mp hk with ⟨rfl, rfl⟩ | ⟨hne, hold⟩
    · exact .inl ⟨rfl, rfl⟩
    · exact .inr ⟨fun heq => hne heq.symm, hold⟩
  have hquiet : ∀ {phase : ReleasePhase}, phase ≠ .releasing → Sound recorded (s.setRelease j call phase) := by
    intro phase hphase
    refine hs.rerelease hs.held fun k other hk hreleasing => ?_
    rcases hback k other hk with ⟨rfl, rfl⟩ | ⟨-, hold⟩
    · exact absurd hreleasing hphase
    · exact hs.releasing k other hold hreleasing
  split at h
  · cases h
    exact hquiet (by simp)
  · split at h
    · cases h
    rename_i hfree
    cases h
    have hfree : s.sessions.get? call.context.session = none := by simpa [Dict.contains] using hfree
    refine hs.rerelease (fun u f hf hheld => ?_) fun k other hk hreleasing => ?_
    · have hother := hs.held u f hf hheld
      rw [Dict.get?_set_ne _ _ fun hsame => by rw [hsame, hfree] at hother; cases hother]
      exact hother
    · rcases hback k other hk with ⟨rfl, rfl⟩ | ⟨-, hold⟩
      · exact Dict.get?_set_self _ _ _
      · have hother := hs.releasing k other hold hreleasing
        rw [Dict.get?_set_ne _ _ fun hsame => by rw [hsame, hfree] at hother; cases hother]
        exact hother
  · rename_i hphase
    cases h
    have hkey := hs.releasing j call hcall hphase
    refine hs.rerelease (fun u f hf hheld => ?_) fun k other hk hreleasing => ?_
    · have hother := hs.held u f hf hheld
      rw [Dict.get?_pop_ne _ fun hsame => by rw [hsame, hkey] at hother; cases hother]
      exact hother
    · rcases hback k other hk with ⟨rfl, rfl⟩ | ⟨hne, hold⟩
      · cases hreleasing
      · have hother := hs.releasing k other hold hreleasing
        rw [Dict.get?_pop_ne _ fun hsame => hne ?_]
        · exact hother
        · rw [hsame, hkey] at hother
          exact (Occupant.release.inj (Option.some.inj hother)).symm
  · cases h
    exact hquiet (by simp)
  · cases h
    exact hquiet (by simp)
  · cases h

theorem sound_step [DecidableEq D] {a : SerialAction D P} (hs : s.Sound recorded) (h : s.step env a = some s') : s'.Sound recorded := by
  cases a with
  | runtime a =>
    rw [step] at h
    split at h
    · rename_i hbeside
      obtain ⟨r, hr, rfl⟩ := Option.map_eq_some_iff.mp h
      exact hs.beside (Runtime.beside_unmoved hbeside hr) (Runtime.beside_gains hbeside hr)
    · cases h
  | execution t a => exact hs.executionStep h
  | gate t a => exact hs.gateStep h
  | release context =>
    cases h
    refine hs.rerelease hs.held fun j call hcall hreleasing => ?_
    rcases getElem?_append_singleton.mp hcall with hold | ⟨-, rfl⟩
    · exact hs.releasing j call hold hreleasing
    · cases hreleasing
  | releasing j a => exact hs.releaseStep h

end Serial

/-! ### Every run -/

variable [DecidableEq D] {env : Environment D}

namespace Serial

theorem step_refines {s s' : Serial D P} {a : SerialAction D P} (h : s.step env a = some s') :
    ∃ schedule, run (Runtime.step env) s.runtime schedule = some s'.runtime := by
  cases a with
  | runtime a =>
    rw [step] at h
    split at h
    · obtain ⟨r, hr, rfl⟩ := Option.map_eq_some_iff.mp h
      exact ⟨[a], run_cons.mpr ⟨r, hr, rfl⟩⟩
    · cases h
  | execution t a =>
    rw [step, executionStep] at h
    split at h
    · split at h
      · cases h
      rename_i r hr
      refine ⟨[.execution t a], run_cons.mpr ⟨r, hr, congrArg some ?_⟩⟩
      split at h <;> cases h
      · rfl
      · rw [leave]
        split
        · rfl
        · split <;> rfl
    · cases h
  | gate t a =>
    rw [step, gateStep] at h
    split at h
    · cases h
    rename_i e he
    split at h
    · rename_i attempt hphase hgate
      rw [steer] at h
      split at h
      · cases h
      split at h
      · rename_i record hrecord
        split at h
        · split at h
          · rename_i sequence ledger happend
            cases h
            refine ⟨[.host (.append attempt e.request.runId "run.steering" (.obj [("target_run_id", .str record.runId)])),
              .call (.cancel record.runId e.context false)], ?_⟩
            simp only [run_cons, Runtime.step, Runtime.hostStep, Option.some.injEq, exists_eq_left', happend]
            rfl
          · cases h
        · cases h
      · cases h
    · split at h <;> cases h
      exact ⟨[], rfl⟩
    · split at h <;> cases h
      exact ⟨[], rfl⟩
    · split at h <;> cases h
      exact ⟨[], rfl⟩
    · cases h
      exact ⟨[], rfl⟩
    · cases h
      exact ⟨[], rfl⟩
    · cases h
  | release context =>
    cases h
    exact ⟨[], rfl⟩
  | releasing j a =>
    rw [step, releaseStep] at h
    split at h
    · cases h
    split at h
    · cases h
      exact ⟨[], rfl⟩
    · split at h <;> cases h
      exact ⟨[], rfl⟩
    · cases h
      exact ⟨[], rfl⟩
    · cases h
      exact ⟨[], rfl⟩
    · cases h
      exact ⟨[], rfl⟩
    · cases h

theorem addressed_step {s s' : Serial D P} {a : SerialAction D P} (hs : s.runtime.Addressed)
    (h : s.step env a = some s') : s'.runtime.Addressed := by
  obtain ⟨schedule, hrun⟩ := step_refines h
  exact run_invariant (fun _ _ _ hs h => Runtime.addressed_step hs h) hs hrun

end Serial

/-- In every run of a runtime with its sessions, the executor runs for one task of a tenant's session at a time; a task
enters it after it has been authorized to execute under the lock of its session, which it has not given back; and a
run becomes a success only after its executor returned and it was authorized to publish. -/
theorem sessions_are_serial (env : Environment D) (ledger : Ledger D P) (catalog : Catalog) (initialGeneration : Nat)
    (ownsStore : Bool) (schedule : List (SerialAction D P)) {s : Serial D P}
    (hrun : run (Serial.step env) (.construct (.construct ledger catalog initialGeneration ownsStore)) schedule =
      some s) :
    (∀ (t u : Nat) e f, s.runtime.executions[t]? = some e → s.runtime.executions[u]? = some f →
      e.phase = .executing → f.phase = .executing → e.context.tenantId = f.context.tenantId →
      e.request.sessionId = f.request.sessionId → t = u) ∧
    (∀ (t : Nat) e, s.runtime.executions[t]? = some e → e.phase = .executing → .entered t ∈ s.log) ∧
    (∀ front t, front ++ [.entered t] <+: s.log →
      List.Sublist [.acquired t, .executeAuthorized t] front ∧ .released t ∉ front) ∧
    ∀ id, s.runtime.ledger.succeeded id = true → ledger.succeeded id = true ∨
      ∃ (t : Nat) (e : Execution), s.runtime.executions[t]? = some e ∧ e.request.runId = id ∧
        List.Sublist [.returned t, .publishAuthorized t] s.log := by
  have hinitial := Serial.sound_construct (Runtime.construct ledger catalog initialGeneration ownsStore) rfl
  obtain ⟨hs, haddressed⟩ := run_invariant
    (I := fun s => Serial.Sound (fun id => ledger.succeeded id = true) s ∧ s.runtime.Addressed)
    (fun s a s' hs h => ⟨Serial.sound_step hs.1 h, Serial.addressed_step hs.2 h⟩)
    ⟨hinitial, Runtime.addressed_construct ledger catalog initialGeneration ownsStore⟩ hrun
  refine ⟨?_, hs.running, hs.entries, hs.successes⟩
  intro t u e f he hf hexecuting hexecuting' htenant hsession
  have hholds : ∀ (t : Nat) e, s.runtime.executions[t]? = some e → e.phase = .executing →
      s.sessions.get? e.context.session = some (.run t) := by
    intro t e he hexecuting
    apply hs.held t e he
    rcases hs.within t e he (by rw [hexecuting]; rfl) with hgate | hgate <;> rw [hgate] <;> rfl
  have hkey : e.context.session = f.context.session := by
    rw [ExecutionContext.session, ExecutionContext.session, htenant, ← haddressed.executions t e he, hsession,
      haddressed.executions u f hf]
  have hsame := hholds t e he hexecuting
  rw [hkey, hholds u f hf hexecuting'] at hsame
  exact (Occupant.run.inj (Option.some.inj hsame)).symm

/-! ### A turn -/

namespace Sample

def turn : List (SerialAction String Nat) :=
  (opening ++ acceptance ++ [Action.submit 0 (.profile calm)]).map .runtime ++
    [.execution 0 .enter, .gate 0 .queue, .gate 0 .acquire, .gate 0 .authorizeExecute, .execution 0 .advance,
      .execution 0 (.read none), .execution 0 (.claim calm none), .execution 0 .launch,
      .execution 0 (.returns (some (.str "hello"))), .gate 0 .authorizePublish, .execution 0 (.publish none),
      .execution 0 (.settle calm none)]

end Sample

theorem success_was_published : ∃ s : Serial String Nat,
    run (Serial.step Sample.environment) (.construct Sample.runtime) Sample.turn = some s ∧
      s.runtime.ledger.succeeded "run" = true ∧ List.Sublist [.returned 0, .publishAuthorized 0] s.log := by
  have htrace : (run (Serial.step Sample.environment) (.construct Sample.runtime) Sample.turn).map (fun s =>
      (s.runtime.ledger.succeeded "run", s.runtime.executions.length)) = some (true, 1) := by decide +kernel
  obtain ⟨s, hrun, hfacts⟩ := Option.map_eq_some_iff.mp htrace
  obtain ⟨hsucceeded, hlength⟩ := Prod.mk.inj hfacts
  refine ⟨s, hrun, hsucceeded, ?_⟩
  have hserial := sessions_are_serial Sample.environment (.empty 0) (.empty true) 1 true Sample.turn hrun
  rcases hserial.2.2.2 "run" hsucceeded with hbefore | ⟨t, e, he, -, hlog⟩
  · cases hbefore
  · have hlt := (List.getElem?_eq_some_iff.mp he).1
    obtain rfl : t = 0 := by omega
    exact hlog

end OpenAgent
