import OpenAgent.Messages.OwnTurn

/-!
# Storing the same content again

The parts of a message are written once, and a later call compares what it was given with them. It compares
the parts that its payload names, but the first call stored those whose file is linked and whose view is
visible. So a call can be repeated only where the two are the same.
-/

namespace OpenAgent.Messages

open List

/-- A call of `persist_parts_for_latest_message`. -/
structure Call where
  access : Access
  turn : Nat
  floor : Int
  parts : List RawPart

def RawPart.fits : RawPart → Bool
  | .text value => value.utf8ByteSize ≤ maxTextPartBytes
  | .attachment _ | .uiView _ _ | .other => true

def RawPart.names (role : Role) : RawPart → List Content
  | .text value => if value = "" then [] else [.text value]
  | .attachment artifact => if artifact = "" then [] else [.attachment artifact]
  | .uiView view revision =>
    if role = .assistant ∧ view ≠ "" ∧ 0 < revision then [.uiView view revision] else []
  | .other => []

def named (role : Role) (parts : List RawPart) : List Content := parts.flatMap (RawPart.names role)

/-- `requested`, `none` if it raises. -/
def requested (role : Role) (parts : List RawPart) : Option (List Content) :=
  if parts.all RawPart.fits then some (named role parts) else none

def Session.written (s : Session) (message : String) : Bool := s.parts.any (·.message = message)

/-- `existing`, by `ORDER BY p.ordinal` -/
def Session.stored (s : Session) (message : String) : List Content :=
  ((s.parts.filter (·.message = message)).mergeSort fun p q => p.ordinal ≤ q.ordinal).map Part.content

def Draft.insert (message : String) (role : Role) (turn : Nat) (d : Draft) : Session :=
  { d.session with
    parts := d.session.parts ++ d.rows.zipIdx.map fun row => ⟨message, row.2, row.1, role, turn⟩ }

/-- `persist_parts_for_latest_message` with the id that it returns, `none` if it raises: what it did is rolled
back then. -/
def Session.persist (role : Role) (s : Session) (call : Call) : Option (Session × Option String) :=
  if role ∉ [.user, .assistant] ∨ maxMessageParts < call.parts.length then none
  else
    match s.latest role call.floor with
    | none => some (s, none)
    | some message =>
      if !call.access.sessionVisible then none
      else if s.written message.id then
        match requested role call.parts with
        | none => none
        | some rows => if rows = s.stored message.id then some (s, some message.id) else none
      else
        match call.parts.foldlM (fun d part => d.collect call.access call.turn role message.id part)
            { session := s : Draft } with
        | none => none
        | some d =>
          some (d.insert message.id role call.turn, some message.id)

theorem persistParts_eq (access : Access) (turn : Nat) (role : Role) (floor : Int) (s : Session)
    (parts : List RawPart) : s.persistParts access turn role floor parts =
      ((s.persist role ⟨access, turn, floor, parts⟩).map Prod.fst).getD s := by
  unfold Session.persistParts Session.persist
  split
  · rfl
  cases s.latest role floor with
  | none => rfl
  | some m =>
    dsimp only
    split
    · rfl
    by_cases hwritten : (s.parts.any fun p => decide (p.message = m.id)) = true
    · rw [if_pos hwritten, if_pos (show s.written m.id = true from hwritten)]
      cases requested role parts with
      | none => rfl
      | some rows =>
        dsimp only
        split <;> rfl
    · rw [if_neg hwritten, if_neg (show ¬ s.written m.id = true from hwritten)]
      cases parts.foldlM (fun d part => d.collect access turn role m.id part) { session := s : Draft } <;> rfl

/-- Calls one after another, with what they return. -/
def Session.persists (role : Role) : Session → List Call → Option (Session × List (Option String))
  | s, [] => some (s, [])
  | s, call :: rest => do
    let (s, id) ← s.persist role call
    let (s, ids) ← s.persists role rest
    some (s, id :: ids)

/-! ### What the first call stores -/

/-- The artifact of the link that the attachment in the place `ordinal` of the message has or gets. -/
def Session.linked (access : Access) (role : Role) (message : String) (s : Session) (ordinal : Nat)
    (artifact : String) : Option String :=
  match s.linkAt? message role ordinal with
  | some l => if artifact = "" ∨ l.artifact = artifact then some l.artifact else none
  | none => if artifact ≠ "" ∧ access.available artifact ∧ artifact ∈ s.sessionLinks then some artifact else none

/-- The parts of a payload that have a link or a view to show; `ordinal` is the place of the next
attachment. -/
def Session.keeps (access : Access) (role : Role) (message : String) (s : Session) :
    Nat → List RawPart → List Content
  | _, [] => []
  | ordinal, .attachment artifact :: rest =>
    (s.linked access role message ordinal artifact).toList.map .attachment ++
      s.keeps access role message (ordinal + 1) rest
  | ordinal, .uiView view revision :: rest =>
    (if access.viewVisible view revision then RawPart.names role (.uiView view revision) else []) ++
      s.keeps access role message ordinal rest
  | ordinal, .text value :: rest =>
    RawPart.names role (.text value) ++ s.keeps access role message ordinal rest
  | ordinal, .other :: rest => s.keeps access role message ordinal rest

variable {s s' s₁ : Session} {role : Role} {turn : Nat} {message : String} {access : Access}

theorem keeps_congr (hsession : s'.sessionLinks = s.sessionLinks) {ordinal : Nat}
    (hlinks : ∀ k, ordinal ≤ k → s'.linkAt? message role k = s.linkAt? message role k) (parts : List RawPart) :
    s'.keeps access role message ordinal parts = s.keeps access role message ordinal parts := by
  induction parts generalizing ordinal with
  | nil => rfl
  | cons part rest ih =>
    have hrest := ih hlinks
    cases part with
    | attachment artifact =>
      have hlinked : s'.linked access role message ordinal artifact =
          s.linked access role message ordinal artifact := by
        rw [Session.linked, Session.linked, hlinks ordinal le_rfl, hsession]
      rw [Session.keeps, Session.keeps, hlinked, ih fun k hk => hlinks k (by omega)]
    | text | uiView | other => simp only [Session.keeps, hrest]

theorem linkAt?_addLink (ordinal k : Nat) (artifact : String) (hk : ordinal < k) :
    (s.addLink ⟨message, role, ordinal, artifact, turn⟩).linkAt? message role k = s.linkAt? message role k := by
  unfold Session.linkAt? Session.addLink
  rw [find?_append, find?_singleton, if_neg, Option.or_none]
  simp [hk.ne]

/-- What a draft has, and what it will have after the parts to come, stays the same. -/
structure Collects (access : Access) (role : Role) (message : String) (d d' : Draft) (todo todo' : List RawPart) :
    Prop where
  messages : d'.session.messages = d.session.messages
  parts : d'.session.parts = d.session.parts
  rows : d'.rows ++ d'.session.keeps access role message d'.attachmentOrdinal todo' =
    d.rows ++ d.session.keeps access role message d.attachmentOrdinal todo
  grows : d.rows <+: d'.rows
  unchanged : d'.rows = d.rows → d'.session = d.session

theorem collects_of_rows {d : Draft} {part : RawPart} {todo : List RawPart} {rows : List Content}
    (hkeeps : d.session.keeps access role message d.attachmentOrdinal (part :: todo) =
      rows ++ d.session.keeps access role message d.attachmentOrdinal todo) :
    Collects access role message d { d with rows := d.rows ++ rows } (part :: todo) todo where
  messages := rfl
  parts := rfl
  rows := by rw [hkeeps, append_assoc]
  grows := prefix_append _ _
  unchanged _ := rfl

theorem collects_of_nothing {d : Draft} {part : RawPart} {todo : List RawPart}
    (hkeeps : d.session.keeps access role message d.attachmentOrdinal (part :: todo) =
      d.session.keeps access role message d.attachmentOrdinal todo) :
    Collects access role message d d (part :: todo) todo :=
  ⟨rfl, rfl, by rw [hkeeps], prefix_rfl, fun _ => rfl⟩

theorem collect_attachment (d : Draft) (artifact : String) (todo : List RawPart) :
    ∃ d', d.collect access turn role message (.attachment artifact) = some d' ∧
      Collects access role message d d' (.attachment artifact :: todo) todo := by
  cases hlink : d.session.linkAt? message role d.attachmentOrdinal with
  | some l =>
    refine ⟨_, rfl, ?_⟩
    simp only [hlink]
    refine ⟨rfl, rfl, ?_, prefix_append _ _, fun _ => rfl⟩
    rw [Session.keeps, Session.linked, hlink, append_assoc]
  | none =>
    by_cases hlinkable : artifact ≠ "" ∧ access.available artifact ∧ artifact ∈ d.session.sessionLinks
    · refine ⟨_, rfl, ?_⟩
      simp only [hlink, if_pos hlinkable]
      refine ⟨rfl, rfl, ?_, prefix_append _ _, fun hsame => ?_⟩
      · have hlater := @keeps_congr d.session
          (d.session.addLink ⟨message, role, d.attachmentOrdinal, artifact, turn⟩) role message access rfl
          (d.attachmentOrdinal + 1) (fun k hk => linkAt?_addLink _ k artifact (by omega)) todo
        rw [Session.keeps, Session.linked, hlink, hlater, append_assoc]
        simp only [if_pos hlinkable]
      · simp at hsame
    · refine ⟨_, rfl, ?_⟩
      simp only [hlink, if_neg hlinkable]
      refine ⟨rfl, rfl, ?_, prefix_append _ _, fun _ => rfl⟩
      rw [Session.keeps, Session.linked, hlink, append_assoc]
      simp only [if_neg hlinkable]

theorem collect_spec (d : Draft) {part : RawPart} (hfits : part.fits = true) (todo : List RawPart) :
    ∃ d', d.collect access turn role message part = some d' ∧
      Collects access role message d d' (part :: todo) todo := by
  cases part with
  | text value =>
    by_cases hvalue : value = ""
    · refine ⟨d, if_pos hvalue, collects_of_nothing ?_⟩
      rw [Session.keeps, RawPart.names, if_pos hvalue, nil_append]
    · refine ⟨_, (if_neg hvalue).trans (if_neg ?_), collects_of_rows ?_⟩
      · exact not_lt.mpr (of_decide_eq_true hfits)
      · rw [Session.keeps, RawPart.names, if_neg hvalue]
  | other => exact ⟨d, rfl, collects_of_nothing rfl⟩
  | attachment artifact => exact collect_attachment d artifact todo
  | uiView view revision =>
    by_cases hshown : role = .assistant ∧ view ≠ "" ∧ 0 < revision ∧ access.viewVisible view revision
    · refine ⟨_, if_pos hshown, collects_of_rows ?_⟩
      rw [Session.keeps, RawPart.names, if_pos hshown.2.2.2, if_pos ⟨hshown.1, hshown.2.1, hshown.2.2.1⟩]
    · refine ⟨d, if_neg hshown, collects_of_nothing ?_⟩
      rw [Session.keeps, RawPart.names]
      split
      · rename_i hvisible
        rw [if_neg fun h => hshown ⟨h.1, h.2.1, h.2.2, hvisible⟩, nil_append]
      · rfl

/-- By induction on the payload, with what the draft has and will have as the invariant. -/
theorem collects {parts : List RawPart} (hfits : parts.all RawPart.fits = true) (d : Draft) :
    ∃ d', parts.foldlM (fun d part => d.collect access turn role message part) d = some d' ∧
      Collects access role message d d' parts [] := by
  induction parts generalizing d with
  | nil => exact ⟨d, rfl, rfl, rfl, rfl, prefix_rfl, fun _ => rfl⟩
  | cons part rest ih =>
    obtain ⟨hpart, hrest⟩ := Bool.and_eq_true_iff.mp (all_cons ▸ hfits)
    obtain ⟨d₁, hcollect, h₁⟩ := @collect_spec role turn message access d part hpart rest
    obtain ⟨d₂, hfold, h₂⟩ := ih hrest d₁
    refine ⟨d₂, ?_, h₂.messages.trans h₁.messages, h₂.parts.trans h₁.parts, h₂.rows.trans h₁.rows,
      h₁.grows.trans h₂.grows, fun hsame => ?_⟩
    · rw [foldlM_cons, hcollect]
      exact hfold
    · have hrows : d₁.rows = d.rows :=
        (List.IsPrefix.eq_of_length_le h₁.grows (hsame ▸ h₂.grows.length_le)).symm
      exact (h₂.unchanged (hsame.trans hrows.symm)).trans (h₁.unchanged hrows)

theorem collects_none {parts : List RawPart} (hlarge : parts.all RawPart.fits = false) (d : Draft) :
    parts.foldlM (fun d part => d.collect access turn role message part) d = none := by
  induction parts generalizing d with
  | nil => cases hlarge
  | cons part rest ih =>
    rw [foldlM_cons]
    cases hpart : part.fits with
    | false =>
      cases part with
      | text value =>
        have hsize : maxTextPartBytes < value.utf8ByteSize := not_le.mp (of_decide_eq_false hpart)
        have hvalue : value ≠ "" := by
          rintro rfl
          exact absurd hsize (by decide)
        rw [Draft.collect, if_neg hvalue, if_pos hsize]
        rfl
      | attachment | uiView | other => cases hpart
    | true =>
      rw [all_cons, hpart, Bool.true_and] at hlarge
      obtain ⟨d₁, hcollect, -⟩ := @collect_spec role turn message access d part hpart []
      rw [hcollect]
      exact ih hlarge d₁

/-! ### Calls one after another -/

def Call.accepted (call : Call) : Bool :=
  call.access.sessionVisible && decide (call.parts.length ≤ maxMessageParts) && call.parts.all RawPart.fits

variable {m : Message} {call : Call} {id : String}

theorem stored_insert {d : Draft} (hparts : d.session.parts = s.parts) (hunwritten : s.written message = false) :
    (d.insert message role turn).stored message = d.rows := by
  have hold : s.parts.filter (fun p => decide (p.message = message)) = [] := by
    rw [filter_eq_nil_iff]
    exact List.any_eq_false.mp hunwritten
  have hnew : (d.rows.zipIdx.map fun row => (⟨message, row.2, row.1, role, turn⟩ : Part)).filter
      (fun p => decide (p.message = message)) =
      d.rows.zipIdx.map fun row => (⟨message, row.2, row.1, role, turn⟩ : Part) := by
    rw [filter_eq_self]
    intro p hp
    obtain ⟨row, -, rfl⟩ := List.mem_map.mp hp
    exact decide_eq_true rfl
  have hsorted : (d.rows.zipIdx.map fun row => (⟨message, row.2, row.1, role, turn⟩ : Part)).Pairwise
      fun p q => decide (p.ordinal ≤ q.ordinal) = true := by
    rw [pairwise_map, pairwise_iff_getElem]
    intro i j hi hj hij
    simp only [getElem_zipIdx, decide_eq_true_eq]
    omega
  rw [Session.stored, Draft.insert, hparts, filter_append, hold, hnew, nil_append,
    mergeSort_of_pairwise hsorted, map_map]
  exact zipIdx_map_fst 0 d.rows

theorem accepted_iff : call.accepted = true ↔ call.access.sessionVisible = true ∧
    call.parts.length ≤ maxMessageParts ∧ call.parts.all RawPart.fits = true := by
  simp only [Call.accepted, Bool.and_eq_true, decide_eq_true_eq, and_assoc]

theorem persist_written (hrole : role ∈ [Role.user, .assistant]) (hm : s.latest role call.floor = some m)
    (haccepted : call.accepted = true) (hwritten : s.written m.id = true) : s.persist role call =
      if named role call.parts = s.stored m.id then some (s, some m.id) else none := by
  obtain ⟨hvisible, hlength, hfits⟩ := accepted_iff.mp haccepted
  rw [Session.persist, if_neg (not_or.mpr ⟨not_not.mpr hrole, not_lt.mpr hlength⟩), hm]
  simp only [hvisible, hwritten, requested, hfits, if_true, Bool.not_true, Bool.false_eq_true, if_false]

theorem persist_unwritten (hrole : role ∈ [Role.user, .assistant]) (hm : s.latest role call.floor = some m)
    (haccepted : call.accepted = true) (hunwritten : s.written m.id = false) :
    ∃ s', s.persist role call = some (s', some m.id) ∧ s'.messages = s.messages ∧
      s'.stored m.id = s.keeps call.access role m.id 0 call.parts ∧
      (s.keeps call.access role m.id 0 call.parts = [] → s' = s) := by
  obtain ⟨hvisible, hlength, hfits⟩ := accepted_iff.mp haccepted
  obtain ⟨d, hfold, hd⟩ := @collects role call.turn m.id call.access call.parts hfits { session := s }
  have hrows : d.rows = s.keeps call.access role m.id 0 call.parts := by
    simpa only [Session.keeps, append_nil, nil_append] using hd.rows
  refine ⟨d.insert m.id role call.turn, ?_, hd.messages, (stored_insert hd.parts hunwritten).trans hrows, ?_⟩
  · rw [Session.persist, if_neg (not_or.mpr ⟨not_not.mpr hrole, not_lt.mpr hlength⟩), hm]
    simp only [hvisible, hunwritten, hfold, Bool.not_true, Bool.false_eq_true, if_false]
  · intro hnil
    rw [Draft.insert, hrows, hnil, hd.unchanged (hrows.trans hnil), zipIdx_nil, map_nil, append_nil]

theorem persist_found (h : s.persist role call = some (s₁, some id)) : role ∈ [Role.user, .assistant] ∧
    call.accepted = true ∧ ∃ m, s.latest role call.floor = some m ∧ m.id = id := by
  unfold Session.persist at h
  split at h
  · cases h
  rename_i hallowed
  obtain ⟨hrole, hlength⟩ := not_or.mp hallowed
  split at h
  · cases h
  rename_i m hm
  split at h
  · cases h
  rename_i hvisible
  refine ⟨not_not.mp hrole, ?_⟩
  rw [accepted_iff]
  split at h
  · split at h
    · cases h
    rename_i rows hrequested
    split at h
    · cases h
      refine ⟨⟨by simpa using hvisible, not_lt.mp hlength, ?_⟩, m, hm, rfl⟩
      by_contra hlarge
      rw [requested, if_neg hlarge] at hrequested
      cases hrequested
    · cases h
  · split at h
    · cases h
    rename_i d hfold
    cases h
    refine ⟨⟨by simpa using hvisible, not_lt.mp hlength, ?_⟩, m, hm, rfl⟩
    by_contra hlarge
    rw [collects_none (Bool.eq_false_iff.mpr hlarge)] at hfold
    cases hfold

/-- However often the call is made again, it returns the same message and changes no row. -/
def Repeats (role : Role) (s : Session) (call : Call) (id : String) : Prop :=
  ∀ n, s.persists role (List.replicate n call) = some (s, List.replicate n (some id))

def Session.without (s : Session) (message : String) : Session :=
  { s with parts := s.parts.filter (·.message ≠ message) }

/-- The call raises if it would store other parts on the message than those in `s₁`. -/
def Rejects (role : Role) (s s₁ : Session) (id : String) (call : Call) : Prop :=
  ∀ s', (s.without id).persist role call = some (s', some id) → s'.stored id ≠ s₁.stored id →
    s₁.persist role call = none

/-- The parts of the message after a call. -/
def Session.canonical (role : Role) (s : Session) (id : String) (call : Call) : List Content :=
  if s.written id then s.stored id else s.keeps call.access role id 0 call.parts

theorem repeats_iff : Repeats role s call id ↔ s.persist role call = some (s, some id) := by
  constructor
  · intro h
    have hone := h 1
    simp only [replicate_one, Session.persists, Option.bind_eq_bind, Option.bind_eq_some_iff] at hone
    obtain ⟨⟨s', id'⟩, hpersist, ⟨_, _⟩, hnil, heq⟩ := hone
    cases hnil
    cases heq
    exact hpersist
  · intro h n
    induction n with
    | zero => rfl
    | succ n ih =>
      rw [replicate_succ, Session.persists, h]
      simp only [Option.bind_eq_bind, Option.bind_some, ih, replicate_succ]

theorem stored_nil_iff : s.stored id = [] ↔ s.written id = false := by
  rw [Session.stored, map_eq_nil_iff, Session.written, any_eq_false, ← filter_eq_nil_iff]
  constructor
  · intro h
    exact List.length_eq_zero_iff.mp ((length_mergeSort _).symm.trans (List.length_eq_zero_iff.mpr h))
  · intro h
    rw [h, mergeSort_nil]

theorem canonical_spec (h : s.persist role call = some (s₁, some id)) :
    s₁.messages = s.messages ∧ s₁.stored id = s.canonical role id call ∧ (s₁.written id = false → s₁ = s) := by
  obtain ⟨hrole, haccepted, m, hm, rfl⟩ := persist_found h
  cases hwritten : s.written m.id with
  | true =>
    rw [persist_written hrole hm haccepted hwritten] at h
    split at h
    · cases h
      exact ⟨rfl, (if_pos hwritten).symm, fun _ => rfl⟩
    · cases h
  | false =>
    obtain ⟨s', hpersist, hmessages, hstored, hnil⟩ := persist_unwritten hrole hm haccepted hwritten
    cases hpersist.symm.trans h
    have hcanonical : s.canonical role m.id call = s.keeps call.access role m.id 0 call.parts :=
      if_neg (Bool.eq_false_iff.mp hwritten)
    exact ⟨hmessages, hstored.trans hcanonical.symm, fun hun => hnil (hstored.symm.trans (stored_nil_iff.mpr hun))⟩

theorem latest_congr {floor : Int} (h : s₁.messages = s.messages) : s₁.latest role floor = s.latest role floor := by
  rw [Session.latest, Session.latest, Session.candidates, Session.candidates, h]

theorem written_without : (s.without id).written id = false := by
  rw [Session.written, any_eq_false]
  intro p hp
  simpa using (List.mem_filter.mp hp).2

theorem repeats_iff_named (h : s.persist role call = some (s₁, some id)) : Repeats role s₁ call id ↔
    s.canonical role id call = [] ∨ named role call.parts = s.canonical role id call := by
  obtain ⟨hmessages, hstored, hsame⟩ := canonical_spec h
  obtain ⟨hrole, haccepted, m, hm, rfl⟩ := persist_found h
  rw [repeats_iff, ← hstored]
  cases hwritten : s₁.written m.id with
  | true =>
    have hm₁ := (latest_congr hmessages).trans hm
    rw [persist_written hrole hm₁ haccepted hwritten, Option.ite_none_right_eq_some]
    have hsome : s₁.stored m.id ≠ [] := fun hnil => by
      rw [stored_nil_iff, hwritten] at hnil
      cases hnil
    simp [hsome]
  | false =>
    cases hsame hwritten
    exact iff_of_true h (.inl (stored_nil_iff.mpr hwritten))

theorem rejects_iff_named {again : Call} (h : s.persist role call = some (s₁, some id))
    (hsame : s.latest role again.floor = s.latest role call.floor) : Rejects role s s₁ id again ↔
      (again.accepted = true → s.keeps again.access role id 0 again.parts ≠ s.canonical role id call →
        s.canonical role id call ≠ [] ∧ named role again.parts ≠ s.canonical role id call) := by
  obtain ⟨hmessages, hstored, hback⟩ := canonical_spec h
  obtain ⟨hrole, -, m, hm, rfl⟩ := persist_found h
  replace hm := hsame.trans hm
  rw [← hstored]
  cases haccepted : again.accepted with
  | false =>
    refine iff_of_true (fun s' hpersist _ => ?_) (nofun)
    rw [(persist_found hpersist).2.1] at haccepted
    cases haccepted
  | true =>
    have hm' : (s.without m.id).latest role again.floor = some m := hm
    obtain ⟨s', hpersist, -, hkeeps, -⟩ := persist_unwritten hrole hm' haccepted written_without
    have hwould : (s.without m.id).keeps again.access role m.id 0 again.parts =
        s.keeps again.access role m.id 0 again.parts :=
      @keeps_congr s (s.without m.id) role m.id again.access rfl 0 (fun _ _ => rfl) again.parts
    have hrejects : Rejects role s s₁ m.id again ↔ (s.keeps again.access role m.id 0 again.parts ≠ s₁.stored m.id →
        s₁.persist role again = none) := by
      rw [← hwould, ← hkeeps]
      refine ⟨fun h => h s' hpersist, fun h t ht => ?_⟩
      cases hpersist.symm.trans ht
      exact h
    have hnone : s₁.persist role again = none ↔ s₁.stored m.id ≠ [] ∧ named role again.parts ≠ s₁.stored m.id := by
      cases hwritten : s₁.written m.id with
      | true =>
        have hsome : s₁.stored m.id ≠ [] := fun hnil => by
          rw [stored_nil_iff, hwritten] at hnil
          cases hnil
        rw [persist_written hrole ((latest_congr hmessages).trans hm) haccepted hwritten]
        simp [hsome]
      | false =>
        cases hback hwritten
        obtain ⟨t, ht, -⟩ := persist_unwritten hrole hm haccepted hwritten
        refine iff_of_false (fun hn => ?_) fun h => h.1 (stored_nil_iff.mpr hwritten)
        rw [hn] at ht
        cases ht
    rw [hrejects, hnone]
    exact ⟨fun h _ => h, fun h => h rfl⟩

/-- A call can be repeated, and keeps out another, if and only if it stores nothing or just what it names, and the
other neither keeps the same nor names what is stored. -/
theorem retrySafe_iff {first again : Call} (h : s.persist role first = some (s₁, some id))
    (hsame : s.latest role again.floor = s.latest role first.floor) :
    Repeats role s₁ first id ∧ Rejects role s s₁ id again ↔
      (s.canonical role id first = [] ∨ named role first.parts = s.canonical role id first) ∧
        (again.accepted = true → s.keeps again.access role id 0 again.parts ≠ s.canonical role id first →
          s.canonical role id first ≠ [] ∧ named role again.parts ≠ s.canonical role id first) :=
  and_congr (repeats_iff_named h) (rejects_iff_named h hsame)

/-! ### A file that nobody knows -/

def answered : Session :=
  { messages := [⟨"m1", 0, .assistant, 3, true⟩], turns := [{}], sessionLinks := ["report"] }

def owner : Access := ⟨true, (· = "report"), (· = "report"), fun _ _ => false⟩

def withFile (artifact : String) : Call := ⟨owner, 0, -1, [.text "Done.", .attachment artifact]⟩

theorem retrySafe_iff_report : ∃ s₁, Repeats .assistant s₁ (withFile "report") "m1" ∧
    Rejects .assistant answered s₁ "m1" (withFile "missing") := by
  refine ⟨_, (@retrySafe_iff answered _ .assistant "m1" (withFile "report") (withFile "missing") rfl rfl).mpr ?_⟩
  decide

/-- The call stores the text without the file, and the same call then raises. -/
theorem retry_of_missing_file : ∃ s₁, answered.persist .assistant (withFile "missing") = some (s₁, some "m1") ∧
    s₁.persist .assistant (withFile "missing") = none ∧ ¬ Repeats .assistant s₁ (withFile "missing") "m1" := by
  have hfirst : answered.persist .assistant (withFile "missing") = some (_, some "m1") := rfl
  obtain ⟨-, hstored, -⟩ := canonical_spec hfirst
  have hraises : Session.persist .assistant _ (withFile "missing") = none :=
    (@persist_written _ .assistant ⟨"m1", 0, .assistant, 3, true⟩ (withFile "missing") (by decide) rfl rfl rfl).trans
      (if_neg (by rw [hstored]; decide))
  refine ⟨_, hfirst, hraises, fun hrepeats => ?_⟩
  rw [repeats_iff, hraises] at hrepeats
  cases hrepeats

end OpenAgent.Messages
