import OpenAgent.Messages.Parts

/-!
# Content and the turn it belongs to

A call stores on one message only, so all that matters is which message is the newest above the boundary.
That is one of the call's own turn as long as every message of another turn there is older than one of its
own. It always is if no message of another turn appears above the boundary of a turn that is not done.
-/

namespace OpenAgent.Messages

open Lib List

def Session.Lands (s : Session) (message : String) (role : Role) (turn : Nat) : Prop :=
  ∃ m, s.message? message = some m ∧ m.role = role ∧ m.turn = turn

structure OwnTurns (s : Session) : Prop where
  links : ∀ l ∈ s.links, s.Lands l.message l.role l.turn
  parts : ∀ p ∈ s.parts, s.Lands p.message p.role p.turn

def Event.content : Event → Option (Nat × Role)
  | .link turn role _ attachments => if attachments.isEmpty then none else some (turn, role)
  | .persist turn role _ parts => if parts.isEmpty then none else some (turn, role)
  | .begins _ | .project _ | .finish _ => none

variable {s s' s'' : Session} {role : Role} {turn : Nat}

/-! ### The newest message -/

variable {m : Message}

theorem mem_candidates {floor : Int} : m ∈ s.candidates role floor ↔
    m ∈ s.messages ∧ m.role = role ∧ m.userVisible = true ∧ floor < m.sequence := by
  simp [Session.candidates]

theorem latest_spec {floor : Int} (h : s.latest role floor = some m) :
    m ∈ s.candidates role floor ∧ ∀ x ∈ s.candidates role floor, x.sequence ≤ m.sequence := by
  have hmem : m ∈ (s.candidates role floor).argmax Message.sequence := h
  exact ⟨argmax_mem hmem, fun x hx => le_of_mem_argmax hx hmem⟩

structure Stores (message : String) (role : Role) (turn : Nat) (s s' : Session) : Prop where
  messages : s'.messages = s.messages
  turns : s'.turns = s.turns
  links : ∀ l ∈ s'.links, l ∈ s.links ∨ l.message = message ∧ l.role = role ∧ l.turn = turn
  parts : ∀ p ∈ s'.parts, p ∈ s.parts ∨ p.message = message ∧ p.role = role ∧ p.turn = turn

variable {message : String} {access : Access}

theorem Stores.refl (s : Session) : Stores message role turn s s :=
  ⟨rfl, rfl, fun _ => Or.inl, fun _ => Or.inl⟩

theorem Stores.trans (h : Stores message role turn s s') (h' : Stores message role turn s' s'') :
    Stores message role turn s s'' where
  messages := h'.messages.trans h.messages
  turns := h'.turns.trans h.turns
  links l hl := by
    rcases h'.links l hl with hold | hnew
    · exact h.links l hold
    · exact Or.inr hnew
  parts p hp := by
    rcases h'.parts p hp with hold | hnew
    · exact h.parts p hold
    · exact Or.inr hnew

theorem stores_addLink (s : Session) (ordinal : Nat) (artifact : String) :
    Stores message role turn s (s.addLink ⟨message, role, ordinal, artifact, turn⟩) where
  messages := rfl
  turns := rfl
  links l hl := by
    rcases List.mem_append.mp hl with hold | hnew
    · exact Or.inl hold
    · cases List.mem_singleton.mp hnew
      exact Or.inr ⟨rfl, rfl, rfl⟩
  parts _ := Or.inl

theorem stores_linkOne (s : Session) (ordinal : Nat) (artifact : String) :
    Stores message role turn s (s.linkOne access turn role message ordinal artifact) := by
  unfold Session.linkOne
  split
  · exact Stores.refl s
  split
  · exact Stores.refl s
  have hensured : Stores message role turn s
      (if artifact ∈ s.sessionLinks then s else { s with sessionLinks := s.sessionLinks ++ [artifact] }) := by
    split
    · exact Stores.refl s
    · exact ⟨rfl, rfl, fun _ => Or.inl, fun _ => Or.inl⟩
  dsimp only
  split
  · exact hensured
  · exact hensured.trans (stores_addLink _ ordinal artifact)

/-- A call of `link_attachments_to_latest_message` leaves the session alone, or stores on the newest
message. -/
theorem stores_linkAttachments (access : Access) (turn : Nat) (role : Role) (floor : Int) (s : Session)
    (attachments : List String) : s.linkAttachments access turn role floor attachments = s ∨
      attachments ≠ [] ∧ role ∈ [Role.user, .assistant] ∧ ∃ m, s.latest role floor = some m ∧
        Stores m.id role turn s (s.linkAttachments access turn role floor attachments) := by
  unfold Session.linkAttachments
  split
  · exact Or.inl rfl
  rename_i hsome
  cases hlatest : s.latest role floor with
  | none => exact Or.inl rfl
  | some m =>
    dsimp only
    split
    · exact Or.inl rfl
    refine Or.inr ⟨fun hnil => hsome (Or.inl hnil), not_not.mp (mt Or.inr hsome), m, rfl, ?_⟩
    generalize attachments.zipIdx = entries
    clear hlatest hsome
    induction entries generalizing s with
    | nil => exact Stores.refl s
    | cons entry rest ih => exact (stores_linkOne s entry.2 entry.1).trans (ih _)

theorem stores_attachmentLink (s : Session) (ordinal : Nat) (artifact : String) :
    Stores message role turn s (s.attachmentLink access turn role message ordinal artifact).1 := by
  unfold Session.attachmentLink
  split
  · exact Stores.refl s
  · split
    · exact stores_addLink s ordinal artifact
    · exact Stores.refl s

theorem stores_collect {d d' : Draft} {part : RawPart}
    (h : d.collect access turn role message part = some d') :
    Stores message role turn d.session d'.session := by
  cases part with
  | text text =>
    simp only [Draft.collect] at h
    split at h
    · cases h
      exact Stores.refl _
    · split at h
      · cases h
      · cases h
        exact Stores.refl _
  | attachment artifact =>
    cases h
    exact stores_attachmentLink _ _ _
  | uiView view revision =>
    simp only [Draft.collect] at h
    split at h <;> · obtain rfl := Option.some.inj h; exact Stores.refl _
  | other =>
    cases h
    exact Stores.refl _

theorem stores_collected {d d' : Draft} {parts : List RawPart}
    (h : parts.foldlM (fun d part => d.collect access turn role message part) d = some d') :
    Stores message role turn d.session d'.session := by
  induction parts generalizing d with
  | nil =>
    cases h
    exact Stores.refl _
  | cons part rest ih =>
    rw [foldlM_cons] at h
    obtain ⟨next, hnext, hrest⟩ := Option.bind_eq_some_iff.mp h
    exact (stores_collect hnext).trans (ih hrest)

/-- A call of `persist_parts_for_latest_message` leaves the session alone, or stores on the newest
message. -/
theorem stores_persistParts (access : Access) (turn : Nat) (role : Role) (floor : Int) (s : Session)
    (parts : List RawPart) : s.persistParts access turn role floor parts = s ∨
      parts ≠ [] ∧ role ∈ [Role.user, .assistant] ∧ ∃ m, s.latest role floor = some m ∧
        Stores m.id role turn s (s.persistParts access turn role floor parts) := by
  unfold Session.persistParts
  split
  · exact Or.inl rfl
  rename_i hallowed
  cases hlatest : s.latest role floor with
  | none => exact Or.inl rfl
  | some m =>
    dsimp only
    split
    · exact Or.inl rfl
    split
    · exact Or.inl rfl
    split
    · exact Or.inl rfl
    · rename_i d hd
      by_cases hnil : parts = []
      · subst hnil
        cases hd
        refine Or.inl ?_
        simp
      refine Or.inr ⟨hnil, not_not.mp (mt Or.inl hallowed), m, rfl, (stores_collected hd).trans ?_⟩
      refine ⟨rfl, rfl, fun _ => Or.inl, fun p hp => ?_⟩
      rcases List.mem_append.mp hp with hold | hnew
      · exact Or.inl hold
      · obtain ⟨row, -, rfl⟩ := List.mem_map.mp hnew
        exact Or.inr ⟨rfl, rfl, rfl⟩

/-! ### Runs -/

/-- What every step keeps: messages have ids of their own, and content is on the turns it belongs to. -/
structure Kept (s : Session) : Prop where
  ids : (s.messages.map Message.id).Nodup
  own : OwnTurns s

theorem message?_of_mem (hids : (s.messages.map Message.id).Nodup) (h : m ∈ s.messages) :
    s.message? m.id = some m := by
  unfold Session.message?
  generalize s.messages = rows at *
  induction rows with
  | nil => cases h
  | cons row rest ih =>
    obtain ⟨hfresh, hrest⟩ := List.nodup_cons.mp hids
    rcases List.mem_cons.mp h with rfl | hlater
    · simp
    · have hne : row.id ≠ m.id := fun heq => hfresh (heq ▸ mem_map_of_mem hlater)
      rw [find?_cons_of_neg (by simpa using hne)]
      exact ih hrest hlater

theorem kept_of_stores (h : Kept s) (hm : m ∈ s.messages) (hrole : m.role = role) (hturn : m.turn = turn)
    (hstores : Stores m.id role turn s s') : Kept s' := by
  have hsame : ∀ id, s'.message? id = s.message? id := fun id => by
    rw [Session.message?, Session.message?, hstores.messages]
  have hfound := message?_of_mem h.ids hm
  refine ⟨hstores.messages ▸ h.ids, fun l hl => ?_, fun p hp => ?_⟩
  · unfold Session.Lands
    rw [hsame]
    rcases hstores.links l hl with hold | ⟨hmessage, hl_role, hl_turn⟩
    · exact h.own.links l hold
    · exact ⟨m, hmessage ▸ hfound, hrole.trans hl_role.symm, hturn.trans hl_turn.symm⟩
  · unfold Session.Lands
    rw [hsame]
    rcases hstores.parts p hp with hold | ⟨hmessage, hp_role, hp_turn⟩
    · exact h.own.parts p hold
    · exact ⟨m, hmessage ▸ hfound, hrole.trans hp_role.symm, hturn.trans hp_turn.symm⟩

theorem Kept.projected (h : Kept s)
    (hfresh : s.messages.all (fun row => row.id ≠ m.id ∧ row.sequence ≠ m.sequence) = true) :
    Kept { s with messages := s.messages ++ [m] } := by
  have hlands : ∀ {message role turn}, s.Lands message role turn →
      Session.Lands { s with messages := s.messages ++ [m] } message role turn := by
    rintro message role turn ⟨row, hrow, hrest⟩
    refine ⟨row, ?_, hrest⟩
    rw [Session.message?, find?_append]
    exact Option.or_eq_some_iff.mpr (Or.inl hrow)
  refine ⟨?_, fun l hl => hlands (h.own.links l hl), fun p hp => hlands (h.own.parts p hp)⟩
  rw [map_append, nodup_append]
  refine ⟨h.ids, by simp, fun id hid other hother => ?_⟩
  obtain ⟨row, hrow, rfl⟩ := List.mem_map.mp hid
  have hne := of_decide_eq_true (List.all_eq_true.mp hfresh row hrow)
  rw [map_singleton, mem_singleton] at hother
  rw [hother]
  exact hne.1

theorem kept_step (h : Kept s) {e : Event} (hstep : step s e = some s')
    (hown : ∀ n role t, e.content = some (n, role) → s.turns[n]? = some t → t.done = false →
      role ∈ [Role.user, .assistant] → ∀ m, s.latest role (t.floor role) = some m → m.turn = n) :
    Kept s' := by
  cases e with
  | begins captured =>
    cases hstep
    exact ⟨h.ids, h.own.links, h.own.parts⟩
  | project m =>
    simp only [step] at hstep
    split at hstep
    · rename_i hguard
      cases hstep
      exact h.projected hguard.2
    · cases hstep
  | link n role access attachments =>
    simp only [step] at hstep
    split at hstep
    · rename_i t ht
      split at hstep
      · cases hstep
      rename_i hopen
      cases hstep
      rcases stores_linkAttachments access n role (t.floor role) s attachments with
        hsame | ⟨hsome, hrole, m, hm, hstores⟩
      · rw [hsame]
        exact h
      · have hcontent : (Event.link n role access attachments).content = some (n, role) := by
          simpa [Event.content] using hsome
        have hturn := hown n role t hcontent ht (Bool.eq_false_iff.mpr hopen) hrole m hm
        obtain ⟨hin, hm_role, -⟩ := mem_candidates.mp (latest_spec hm).1
        exact kept_of_stores h hin hm_role hturn hstores
    · cases hstep
  | persist n role access parts =>
    simp only [step] at hstep
    split at hstep
    · rename_i t ht
      split at hstep
      · cases hstep
      rename_i hopen
      cases hstep
      rcases stores_persistParts access n role (t.floor role) s parts with
        hsame | ⟨hsome, hrole, m, hm, hstores⟩
      · rw [hsame]
        exact h
      · have hcontent : (Event.persist n role access parts).content = some (n, role) := by
          simpa [Event.content] using hsome
        have hturn := hown n role t hcontent ht (Bool.eq_false_iff.mpr hopen) hrole m hm
        obtain ⟨hin, hm_role, -⟩ := mem_candidates.mp (latest_spec hm).1
        exact kept_of_stores h hin hm_role hturn hstores
    · cases hstep
  | finish n =>
    cases hstep
    exact ⟨h.ids, h.own.links, h.own.parts⟩

end OpenAgent.Messages
