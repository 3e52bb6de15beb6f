import Mathlib.Data.List.Induction
import Mathlib.Data.List.Sublists
import OpenAgent.Models.Streaming

/-!
# An answer is streamed once

What the stream holds at any time can be told from the events so far: the text is that of the deltas it has shown, what
is held back is the text of the members, and a marker stands for every output that was shown. So what it makes of the
rest at the end can be told from all events.
-/

namespace OpenAgent.Models.Streaming

open List Bool

/-! ### Events that answer -/

/-- The events whose text the stream shows as it comes. With member sessions these are the run's own deltas; without
them, the members' deltas and the relayed ones too. -/
def Config.isDelta (cfg : Config) (e : Event) : Bool :=
  (e.kind == .content || e.kind == .intermediate) && !cfg.suppresses e && e.text != ""

def Config.isOwnDelta (cfg : Config) (e : Event) : Bool := e.kind == .content && !cfg.isMember e && e.text != ""

def Config.isHeld (cfg : Config) (e : Event) : Bool := cfg.suppresses e && e.text != ""

def Config.completes (cfg : Config) (e : Event) : Bool :=
  e.kind == .completed && cfg.ownSession e && present e.text

def Event.speaks (e : Event) : Bool := e.kind == .content || e.kind == .intermediate || e.kind == .completed

def Repeats (e f : Event) : Prop := e.speaker = f.speaker ∧ (e.kind ≠ f.kind ∨ e.kind = .completed)

def Once (events : List Event) (text : String) : Prop :=
  ∃ frames : List Event, frames.Sublist events ∧ text = String.join (frames.map Event.text) ∧
    (∀ e ∈ frames, e.speaks = true) ∧ frames.Pairwise fun e f => ¬ Repeats e f

def Config.Apart (cfg : Config) (events : List Event) : Prop :=
  (∀ e ∈ events.filter cfg.isHeld, e.speaks = true) ∧ (events.filter cfg.isHeld).Pairwise fun e f => ¬ Repeats e f

def Config.answers (cfg : Config) (e : Event) : Bool := cfg.completes e || (cfg.isHeld e && e.speaks)

structure Streamed (cfg : Config) (events : List Event) (out : List Out) : Prop where
  own : cfg.memberSessions = true → events.filter cfg.isOwnDelta ≠ [] →
    textOf out = String.join ((events.filter cfg.isOwnDelta).map Event.text)
  deltas : events.filter cfg.isDelta ≠ [] → textOf out = String.join ((events.filter cfg.isDelta).map Event.text)
  answer : events.filter cfg.isDelta = [] → (∃ e ∈ events, cfg.answers e = true) → textOf out ≠ ""
  once : events.filter cfg.isDelta = [] → cfg.Apart events → Once events (textOf out)
  marked : (markersOf out).Nodup ∧
    ∀ key, key ∈ markersOf out ↔ ∃ e ∈ events, cfg.suppresses e = false ∧ key ∈ e.shown.map keyOf

def Config.EndsWell (cfg : Config) (events : List Event) : Prop :=
  ∀ e ∈ events, e.kind = .failed ∨ e.kind = .cancelled → cfg.ownSession e = false

/-! ### Markers -/

variable {cfg : Config} {events : List Event} {s : State} {e : Event}

@[simp] theorem markersOf_nil : markersOf [] = [] := by
  rfl

@[simp] theorem piecesOf_append (xs ys : List Out) : piecesOf (xs ++ ys) = piecesOf xs ++ piecesOf ys := by
  simp [piecesOf]

@[simp] theorem piecesOf_traced (tool : Option Tool) (out : List Out) : piecesOf (.traced tool :: out) = piecesOf out := by
  rfl

@[simp] theorem piecesOf_text (text : String) (out : List Out) : piecesOf (.text text :: out) = text :: piecesOf out := by
  rfl

@[simp] theorem markersOf_traced (tool : Option Tool) (out : List Out) :
    markersOf (.traced tool :: out) = markersOf out := by
  rfl

@[simp] theorem markersOf_text (text : String) (out : List Out) : markersOf (.text text :: out) = markersOf out := by
  rfl

@[simp] theorem piecesOf_texts (texts : List String) : piecesOf (texts.map .text) = texts := by
  induction texts with
  | nil => rfl
  | cons text rest ih => simp [ih]

@[simp] theorem markersOf_texts (texts : List String) : markersOf (texts.map .text) = [] := by
  induction texts with
  | nil => rfl
  | cons text rest ih => exact ih

@[simp] theorem markersOf_append (xs ys : List Out) : markersOf (xs ++ ys) = markersOf xs ++ markersOf ys := by
  simp [markersOf]

theorem outputMediaMarkers_fst (emitted : List Key) (media : List (MediaKind × Media)) :
    (outputMediaMarkers cfg emitted media).1 = (markersOf (outputMediaMarkers cfg emitted media).2).reverse ++ emitted := by
  induction media generalizing emitted with
  | nil => rfl
  | cons item rest ih =>
    rw [outputMediaMarkers]
    split
    · exact ih emitted
    · simp [ih, markersOf, Out.key?]

theorem outputMediaMarkers_nodup {emitted : List Key} (h : emitted.Nodup) (media : List (MediaKind × Media)) :
    (outputMediaMarkers cfg emitted media).1.Nodup := by
  induction media generalizing emitted with
  | nil => exact h
  | cons item rest ih =>
    rw [outputMediaMarkers]
    split
    · exact ih h
    · rename_i hnew
      exact ih (List.nodup_cons.mpr ⟨hnew, h⟩)

theorem mem_outputMediaMarkers {emitted : List Key} {media : List (MediaKind × Media)} {key : Key} :
    key ∈ (outputMediaMarkers cfg emitted media).1 ↔ key ∈ emitted ∨ key ∈ media.map keyOf := by
  induction media generalizing emitted with
  | nil => simp [outputMediaMarkers]
  | cons item rest ih =>
    rw [outputMediaMarkers]
    split
    · rename_i hold
      rw [ih, map_cons, mem_cons]
      constructor
      · exact fun h => h.imp_right .inr
      · rintro (h | rfl | h)
        · exact .inl h
        · exact .inl hold
        · exact .inr h
    · rw [ih, map_cons, mem_cons, mem_cons]
      exact or_assoc.trans or_left_comm

theorem outputMediaMarkers_text (cfg : Config) (emitted : List Key) (media : List (MediaKind × Media)) :
    piecesOf (outputMediaMarkers cfg emitted media).2 = [] := by
  induction media generalizing emitted with
  | nil => rfl
  | cons item rest ih =>
    rw [outputMediaMarkers]
    split
    · exact ih emitted
    · simpa [piecesOf, Out.text?] using ih (keyOf item :: emitted)

/-! ### What the stream holds -/

structure Drained (cfg : Config) (events : List Event) (s : State) : Prop where
  text : piecesOf s.out = (events.filter cfg.isDelta).map Event.text
  yielded : s.yieldedText = true ↔ events.filter cfg.isDelta ≠ []
  held : s.suppressedContent = (events.filter cfg.isHeld).map Event.text
  completed : s.completedContent = ((events.filter cfg.completes).getLast?).map Event.text
  silent : piecesOf s.completionMedia = []
  emitted : s.emittedMedia.Perm (markersOf s.out ++ markersOf s.completionMedia)
  nodup : s.emittedMedia.Nodup
  shown : ∀ key, key ∈ s.emittedMedia ↔ ∃ e ∈ events, cfg.suppresses e = false ∧ key ∈ e.shown.map keyOf
  endsWell : cfg.EndsWell events → s.terminalCancel = none ∧ s.terminalError = none

theorem given_toList (content : Option String) :
    (given content).toList = if content.getD "" = "" then [] else [content.getD ""] := by
  cases content with
  | none => rfl
  | some text => by_cases h : text = "" <;> simp [given, h]

structure Still (s t : State) : Prop where
  text : piecesOf t.out = piecesOf s.out
  marks : markersOf t.out = markersOf s.out
  yielded : t.yieldedText = s.yieldedText
  emitted : t.emittedMedia = s.emittedMedia
  completion : t.completionMedia = s.completionMedia
  held : t.suppressedContent = s.suppressedContent

theorem Still.trans {s t u : State} (h : Still s t) (h' : Still t u) : Still s u where
  text := h'.text.trans h.text
  marks := h'.marks.trans h.marks
  yielded := h'.yielded.trans h.yielded
  emitted := h'.emitted.trans h.emitted
  completion := h'.completion.trans h.completion
  held := h'.held.trans h.held

theorem reportRun_still (s : State) (e : Event) : Still s (s.reportRun e) := by
  rw [State.reportRun]
  split
  · exact ⟨rfl, rfl, rfl, rfl, rfl, rfl⟩
  · split
    · exact ⟨rfl, rfl, rfl, rfl, rfl, rfl⟩
    · exact ⟨by simp [piecesOf, Out.text?], by simp [markersOf, Out.key?], rfl, rfl, rfl, rfl⟩

theorem adoptRun_still (cfg : Config) (s : State) (e : Event) : Still s (s.adoptRun cfg e) := by
  rw [State.adoptRun]
  split <;> exact ⟨rfl, rfl, rfl, rfl, rfl, rfl⟩

theorem record_still (cfg : Config) (s : State) (e : Event) : Still s (s.record cfg e) := by
  rw [State.record]
  split
  · exact ⟨rfl, rfl, rfl, rfl, rfl, rfl⟩
  · split
    · exact ⟨by simp [piecesOf, Out.text?], by simp [markersOf, Out.key?], rfl, rfl, rfl, rfl⟩
    all_goals exact ⟨rfl, rfl, rfl, rfl, rfl, rfl⟩

@[simp] theorem reportRun_completedContent : (s.reportRun e).completedContent = s.completedContent := by
  rw [State.reportRun]
  split
  · rfl
  · split <;> rfl

@[simp] theorem adoptRun_completedContent : (s.adoptRun cfg e).completedContent = s.completedContent := by
  rw [State.adoptRun]
  split <;> rfl

theorem record_completedContent :
    (s.record cfg e).completedContent = if cfg.completes e then some e.text else s.completedContent := by
  rw [State.record]
  split
  · rename_i hother
    simp_all [Config.completes]
  · split <;> simp_all [Config.completes]

theorem note_endings (hends : e.kind = .failed ∨ e.kind = .cancelled → cfg.ownSession e = false)
    (h : s.terminalCancel = none ∧ s.terminalError = none) :
    (((s.reportRun e).adoptRun cfg e).record cfg e).terminalCancel = none ∧
      (((s.reportRun e).adoptRun cfg e).record cfg e).terminalError = none := by
  have hreport : (s.reportRun e).terminalCancel = none ∧ (s.reportRun e).terminalError = none := by
    rw [State.reportRun]
    split
    · exact h
    · split <;> exact h
  have hadopt : ((s.reportRun e).adoptRun cfg e).terminalCancel = none ∧
      ((s.reportRun e).adoptRun cfg e).terminalError = none := by
    rw [State.adoptRun]
    split <;> exact hreport
  rw [State.record]
  split
  · exact hadopt
  · rename_i hown
    split
    · exact hadopt
    · rename_i hkind
      simp [hends (.inl hkind)] at hown
    · rename_i hkind
      simp [hends (.inr hkind)] at hown
    · exact hadopt

/-- What showing an event does: its text if it is a delta, and a marker for every output that is new. -/
structure Shown (cfg : Config) (s : State) (e : Event) (t : State) : Prop where
  text : piecesOf t.out = piecesOf s.out ++ if cfg.isDelta e then [e.text] else []
  yielded : t.yieldedText = (s.yieldedText || cfg.isDelta e)
  emitted : t.emittedMedia = (outputMediaMarkers cfg s.emittedMedia e.shown).1
  marks : (markersOf t.out ++ markersOf t.completionMedia).Perm
    (markersOf (outputMediaMarkers cfg s.emittedMedia e.shown).2 ++ (markersOf s.out ++ markersOf s.completionMedia))
  silent : piecesOf s.completionMedia = [] → piecesOf t.completionMedia = []
  held : t.suppressedContent = s.suppressedContent
  completed : t.completedContent = s.completedContent
  endings : t.terminalCancel = s.terminalCancel ∧ t.terminalError = s.terminalError

theorem emitStatus_text (tool : Option Tool) (error : Option String) (started : Bool) :
    piecesOf (emitStatus tool error started) = [] := by
  cases tool with
  | none => rfl
  | some tool =>
    rw [emitStatus]
    split <;> rfl

theorem emitStatus_marks (tool : Option Tool) (error : Option String) (started : Bool) :
    markersOf (emitStatus tool error started) = [] := by
  cases tool with
  | none => rfl
  | some tool =>
    rw [emitStatus]
    split <;> rfl

theorem delegate_silent (member : Option String) :
    piecesOf (member.toList.map Out.delegate) = [] ∧ markersOf (member.toList.map Out.delegate) = [] := by
  cases member <;> exact ⟨rfl, rfl⟩

theorem forward_shown (cfg : Config) (s : State) (e : Event) (hshown : cfg.suppresses e = false) :
    Shown cfg s e (s.forward cfg e) := by
  have htext := outputMediaMarkers_text cfg s.emittedMedia e.shown
  have hcontent : e.kind = .content ∨ e.kind = .intermediate → Shown cfg s e {
      s with
      yieldedText := s.yieldedText || e.text != ""
      emittedMedia := (outputMediaMarkers cfg s.emittedMedia e.shown).1
      out := s.out ++ (if e.text = "" then [] else [.text e.text]) ++ (outputMediaMarkers cfg s.emittedMedia e.shown).2 } := by
    intro hkind
    have hdelta : cfg.isDelta e = (e.text != "") := by
      rcases hkind with hkind | hkind <;> simp [Config.isDelta, hkind, hshown]
    refine ⟨?_, by rw [hdelta], rfl, ?_, id, rfl, rfl, rfl, rfl⟩
    · by_cases hempty : e.text = "" <;> simp [hdelta, hempty, htext]
    · have hmarks : markersOf (if e.text = "" then [] else [Out.text e.text]) = [] := by split <;> rfl
      simp only [markersOf_append, hmarks, append_nil]
      rw [← append_assoc]
      exact List.perm_append_comm.append_right _
  rw [State.forward]
  cases hkind : e.kind with
  | content => exact hcontent (.inl hkind)
  | intermediate => exact hcontent (.inr hkind)
  | toolStarted =>
    have hdelta : cfg.isDelta e = false := by simp [Config.isDelta, hkind]
    have hnone : e.shown = [] := by simp [Event.shown, hkind]
    obtain ⟨hdtext, hdmarks⟩ := delegate_silent (delegatedMember e.tool)
    refine ⟨?_, by simp [hdelta], by rw [hnone]; rfl, ?_, id, rfl, rfl, rfl, rfl⟩
    · simp [hdelta, hdtext, emitStatus_text]
    · simp [hnone, outputMediaMarkers, hdmarks, emitStatus_marks]
  | toolCompleted =>
    have hdelta : cfg.isDelta e = false := by simp [Config.isDelta, hkind]
    refine ⟨?_, by simp [hdelta], rfl, ?_, id, rfl, rfl, rfl, rfl⟩
    · simp [hdelta, htext, emitStatus_text]
    · simp only [markersOf_append, append_nil, markersOf_traced, emitStatus_marks]
      rw [← append_assoc]
      exact List.perm_append_comm.append_right _
  | toolError =>
    have hdelta : cfg.isDelta e = false := by simp [Config.isDelta, hkind]
    have hnone : e.shown = [] := by simp [Event.shown, hkind]
    refine ⟨?_, by simp [hdelta], by rw [hnone]; rfl, ?_, id, rfl, rfl, rfl, rfl⟩
    · simp [hdelta, emitStatus_text]
    · simp [hnone, outputMediaMarkers, emitStatus_marks]
  | completed =>
    have hdelta : cfg.isDelta e = false := by simp [Config.isDelta, hkind]
    refine ⟨by simp [hdelta], by simp [hdelta], rfl, ?_, ?_, rfl, rfl, rfl, rfl⟩
    · simp only [markersOf_append]
      rw [← append_assoc]
      exact perm_append_comm
    · intro hsilent
      simp [hsilent, htext]
  | failed | cancelled | other =>
    have hdelta : cfg.isDelta e = false := by simp [Config.isDelta, hkind]
    have hnone : e.shown = [] := by simp [Event.shown, hkind]
    refine ⟨by simp [hdelta], by simp [hdelta], by rw [hnone]; rfl, ?_, id, rfl, rfl, rfl, rfl⟩
    simp [hnone, outputMediaMarkers]

theorem filter_snoc (p : Event → Bool) (events : List Event) (e : Event) :
    (events ++ [e]).filter p = events.filter p ++ if p e then [e] else [] := by
  rw [filter_append, filter_singleton]
  cases p e <;> rfl

theorem Drained.init (cfg : Config) : Drained cfg [] { parentRun := cfg.run } where
  text := rfl
  yielded := by simp
  held := rfl
  completed := rfl
  silent := rfl
  emitted := .nil
  nodup := nodup_nil
  shown := by simp
  endsWell := fun _ => ⟨rfl, rfl⟩

theorem Drained.step (h : Drained cfg events s) (e : Event) : Drained cfg (events ++ [e]) (s.step cfg e) := by
  have hstill : Still s (((s.reportRun e).adoptRun cfg e).record cfg e) :=
    ((reportRun_still s e).trans (adoptRun_still cfg _ e)).trans (record_still cfg _ e)
  have hcompleted : (((s.reportRun e).adoptRun cfg e).record cfg e).completedContent =
      (((events ++ [e]).filter cfg.completes).getLast?).map Event.text := by
    rw [record_completedContent, filter_snoc]
    split <;> simp [h.completed]
  have hendings : cfg.EndsWell (events ++ [e]) →
      (((s.reportRun e).adoptRun cfg e).record cfg e).terminalCancel = none ∧
        (((s.reportRun e).adoptRun cfg e).record cfg e).terminalError = none := by
    intro hwell
    refine note_endings (hwell e (by simp)) (h.endsWell fun f hf => hwell f (mem_append_left _ hf))
  generalize hnoted : ((s.reportRun e).adoptRun cfg e).record cfg e = noted at hstill hcompleted hendings
  rw [State.step, hnoted]
  cases hsup : cfg.suppresses e with
  | true =>
    have hdelta : cfg.isDelta e = false := by simp [Config.isDelta, hsup]
    have hheld : cfg.isHeld e = (e.text != "") := by simp [Config.isHeld, hsup]
    refine ⟨?_, ?_, ?_, hcompleted, ?_, ?_, ?_, ?_, hendings⟩
    · simp [hdelta, hstill.text, h.text]
    · simpa [filter_snoc, hdelta, hstill.yielded] using h.yielded
    · simp only [if_true, hstill.held, h.held, filter_snoc, hheld, given_toList, map_append]
      by_cases hempty : e.text = ""
      · have hnone : e.content.getD "" = "" := hempty
        simp [hempty, hnone]
      · have hsome : e.content.getD "" ≠ "" := hempty
        simp [hsome, Event.text]
    · simpa [hstill.completion] using h.silent
    · simpa [hstill.emitted, hstill.marks, hstill.completion] using h.emitted
    · simpa [hstill.emitted] using h.nodup
    · intro key
      simp [hstill.emitted, h.shown, hsup, or_and_right, exists_or]
  | false =>
    have hshown := forward_shown cfg noted e hsup
    have hheld : cfg.isHeld e = false := by simp [Config.isHeld, hsup]
    simp only [false_eq_true, if_false]
    refine ⟨?_, ?_, ?_, ?_, ?_, ?_, ?_, ?_, ?_⟩
    · rw [hshown.text, hstill.text, h.text, filter_snoc]
      split <;> simp
    · rw [hshown.yielded, hstill.yielded, filter_snoc, or_eq_true, h.yielded]
      split <;> simp [*]
    · simp [hshown.held, hstill.held, h.held, hheld]
    · rw [hshown.completed, hcompleted]
    · exact hshown.silent (hstill.completion ▸ h.silent)
    · rw [hshown.emitted, outputMediaMarkers_fst]
      refine .trans ?_ hshown.marks.symm
      rw [hstill.emitted, hstill.marks, hstill.completion]
      exact (reverse_perm _).append h.emitted
    · rw [hshown.emitted, hstill.emitted]
      exact outputMediaMarkers_nodup h.nodup e.shown
    · intro key
      rw [hshown.emitted, hstill.emitted, mem_outputMediaMarkers, h.shown]
      simp [hsup, or_and_right, exists_or]
    · intro hwell
      rw [hshown.endings.1, hshown.endings.2]
      exact hendings hwell

theorem drained (cfg : Config) (events : List Event) : Drained cfg events (drain cfg events) := by
  induction events using List.reverseRecOn with
  | nil => exact Drained.init cfg
  | append_singleton front e ih =>
    rw [drain, foldl_append]
    exact ih.step e

/-! ### The whole stream -/

theorem join_ne_empty {pieces : List String} {piece : String} (hmem : piece ∈ pieces) (hpiece : piece ≠ "") :
    String.join pieces ≠ "" := by
  induction pieces with
  | nil => cases hmem
  | cons head rest ih =>
    rw [String.join_cons, ne_eq, String.append_eq_empty_iff]
    rintro ⟨hhead, hrest⟩
    rcases List.mem_cons.mp hmem with rfl | hmem
    · exact hpiece hhead
    · exact ih hmem hrest

theorem present_ne {text : String} (h : present text = true) : text ≠ "" := by
  rintro rfl
  cases h

theorem member_of_held (h : events.filter cfg.isHeld ≠ []) : cfg.memberSessions = true := by
  obtain ⟨e, he⟩ := exists_mem_of_ne_nil _ h
  have hheld := (List.mem_filter.mp he).2
  simp only [Config.isHeld, Config.suppresses, and_eq_true] at hheld
  exact hheld.1.1

theorem given_completed (events : List Event) :
    given (((events.filter cfg.completes).getLast?).map Event.text) =
      ((events.filter cfg.completes).getLast?).map Event.text := by
  cases hlast : (events.filter cfg.completes).getLast? with
  | none => rfl
  | some e =>
    have hcompletes := (List.mem_filter.mp (mem_of_getLast? hlast)).2
    simp only [Config.completes, and_eq_true] at hcompletes
    simp [given, present_ne hcompletes.2]

theorem Drained.pieces_of_none (h : Drained cfg events s) (hnone : events.filter cfg.isDelta = []) :
    piecesOf (s.out ++ s.rest cfg) =
      if events.filter cfg.isHeld = [] then (((events.filter cfg.completes).getLast?).map Event.text).toList
      else [String.join ((events.filter cfg.isHeld).map Event.text)] := by
  have hyielded : s.yieldedText = false := by
    cases hy : s.yieldedText with
    | false => rfl
    | true => exact absurd hnone (h.yielded.mp hy)
  have hout : piecesOf s.out = [] := by simp [h.text, hnone]
  rw [piecesOf_append, hout, nil_append, State.rest, h.held, h.completed, hyielded, given_completed]
  by_cases hheld : events.filter cfg.isHeld = []
  · rw [if_pos hheld, hheld]
    simp only [map_nil, isEmpty_nil, Bool.not_true, Bool.and_false, Bool.or_false, Bool.false_eq_true, if_false]
    rw [nil_append, piecesOf_append, piecesOf_texts, h.silent, append_nil]
  · have hsome : (!((events.filter cfg.isHeld).map Event.text).isEmpty) = true := by
      simpa only [Bool.not_eq_true', isEmpty_eq_false_iff, ne_eq, map_eq_nil_iff] using hheld
    rw [if_neg hheld, member_of_held hheld, hsome]
    simp [h.silent]

theorem Drained.pieces_of_some (h : Drained cfg events s) (hsome : events.filter cfg.isDelta ≠ []) :
    piecesOf (s.out ++ s.rest cfg) = (events.filter cfg.isDelta).map Event.text := by
  simp [State.rest, h.yielded.mpr hsome, h.text, h.silent]

theorem Drained.markers (h : Drained cfg events s) : s.emittedMedia.Perm (markersOf (s.out ++ s.rest cfg)) := by
  have hrest : markersOf (s.rest cfg) = markersOf s.completionMedia := by
    simp only [State.rest, markersOf_append]
    split <;> split <;> simp
  rw [markersOf_append, hrest]
  exact h.emitted

theorem Drained.once (h : Drained cfg events s) (hnone : events.filter cfg.isDelta = []) (hapart : cfg.Apart events) :
    Once events (textOf (s.out ++ s.rest cfg)) := by
  rw [textOf, h.pieces_of_none hnone]
  by_cases hheld : events.filter cfg.isHeld = []
  · rw [if_pos hheld]
    cases hlast : (events.filter cfg.completes).getLast? with
    | none => exact ⟨[], nil_sublist events, rfl, by simp, List.Pairwise.nil⟩
    | some e =>
      have hmem := mem_of_getLast? hlast
      have hcompletes := (List.mem_filter.mp hmem).2
      simp only [Config.completes, and_eq_true, beq_iff_eq] at hcompletes
      refine ⟨[e], List.singleton_sublist.mpr (mem_of_mem_filter hmem), rfl, ?_, pairwise_singleton _ _⟩
      intro f hf
      cases List.mem_singleton.mp hf
      simp [Event.speaks, hcompletes.1.1]
  · rw [if_neg hheld]
    exact ⟨events.filter cfg.isHeld, filter_sublist, by simp, hapart.1, hapart.2⟩

theorem Drained.answer (h : Drained cfg events s) (hnone : events.filter cfg.isDelta = []) (he : e ∈ events)
    (hanswers : cfg.answers e = true) : textOf (s.out ++ s.rest cfg) ≠ "" := by
  rw [textOf, h.pieces_of_none hnone]
  by_cases hheld : events.filter cfg.isHeld = []
  · rw [if_pos hheld]
    have hcompletes : cfg.completes e = true := by
      rcases Bool.or_eq_true_iff.mp hanswers with hcompletes | hholds
      · exact hcompletes
      · have hmem : e ∈ events.filter cfg.isHeld := List.mem_filter.mpr ⟨he, (Bool.and_eq_true_iff.mp hholds).1⟩
        simp [hheld] at hmem
    have hsome : events.filter cfg.completes ≠ [] := ne_nil_of_mem (List.mem_filter.mpr ⟨he, hcompletes⟩)
    have hlast := getLast?_eq_some_getLast hsome
    have hkept := (List.mem_filter.mp (getLast_mem hsome)).2
    simp only [Config.completes, and_eq_true] at hkept
    rw [hlast]
    exact join_ne_empty (mem_singleton_self _) (present_ne hkept.2)
  · rw [if_neg hheld]
    obtain ⟨f, hf⟩ := exists_mem_of_ne_nil _ hheld
    have htext : f.text ≠ "" := by
      have hholds := (List.mem_filter.mp hf).2
      simp only [Config.isHeld, and_eq_true, bne_iff_ne] at hholds
      exact hholds.2
    refine join_ne_empty (mem_singleton_self _) ?_
    exact join_ne_empty (mem_map_of_mem hf) htext

theorem isDelta_of_memberSessions (h : cfg.memberSessions = true) : cfg.isDelta = cfg.isOwnDelta := by
  funext e
  cases hkind : e.kind with
  | content => simp [Config.isDelta, Config.isOwnDelta, Config.suppresses, h, hkind]
  | intermediate => simp [Config.isDelta, Config.isOwnDelta, Config.suppresses, Config.isMember, h, hkind]
  | _ =>
    simp only [Config.isDelta, Config.isOwnDelta, hkind]
    rfl

/-- What the stream shows as it comes is yielded as it is. Otherwise whatever answer there is, is yielded, and no more than
once if no member brings its text in two ways. -/
theorem answers_are_streamed (cfg : Config) (events : List Event) (hends : cfg.EndsWell events) :
    ∃ out, arunRuntimeStream cfg events = .ok out ∧ Streamed cfg events out := by
  have h := drained cfg events
  obtain ⟨hcancel, herror⟩ := h.endsWell hends
  refine ⟨(drain cfg events).out ++ (drain cfg events).rest cfg, ?_, ?_, ?_, ?_, ?_, ?_⟩
  · rw [arunRuntimeStream, State.finish, hcancel, herror]
  · intro hsessions hsome
    rw [← isDelta_of_memberSessions hsessions] at hsome ⊢
    rw [textOf, h.pieces_of_some hsome]
  · intro hsome
    rw [textOf, h.pieces_of_some hsome]
  · rintro hnone ⟨e, he, hanswers⟩
    exact h.answer hnone he hanswers
  · intro hnone hapart
    exact h.once hnone hapart
  · refine ⟨h.markers.nodup_iff.mp h.nodup, fun key => ?_⟩
    rw [← h.markers.mem_iff]
    exact h.shown key

def chat (memberSessions : Bool) : Config := {
  session := "chat"
  memberSessions := memberSessions
  runtimeId := some "team"
  run := none
  save := fun _ _ => none }

def memberSays (kind : Kind) (text : String) : Event :=
  { kind := kind, session := some "chat:member", content := some text, speaker := 1 }

/-- A member says something, and the leader is silent. -/
theorem answers_are_streamed_silent :
    ∃ out, arunRuntimeStream (chat true) [memberSays .content "only ", memberSays .content "member"] = .ok out ∧
      textOf out = "only member" ∧ Streamed (chat true) [memberSays .content "only ", memberSays .content "member"] out := by
  have hends : (chat true).EndsWell [memberSays .content "only ", memberSays .content "member"] := by
    unfold Config.EndsWell
    decide
  obtain ⟨out, hout, hstreamed⟩ := answers_are_streamed (chat true) _ hends
  have htext : (arunRuntimeStream (chat true) [memberSays .content "only ", memberSays .content "member"]).toOption.map
      textOf = some "only member" := rfl
  rw [hout] at htext
  exact ⟨out, hout, Option.some.inj htext, hstreamed⟩

/-- Only the run's own deltas are yielded, the members' text never twice, and every output has a marker. -/
structure StreamedStrictly (cfg : Config) (events : List Event) (out : List Out) : Prop where
  own : events.filter cfg.isOwnDelta ≠ [] → textOf out = String.join ((events.filter cfg.isOwnDelta).map Event.text)
  once : events.filter cfg.isOwnDelta = [] →
    (∃ e ∈ events, e.speaks = true ∧ e.text ≠ "" ∧ (cfg.isMember e = true ∨ e.kind = .completed)) →
    textOf out ≠ "" ∧ Once events (textOf out)
  marked : ∀ e ∈ events, ∀ key ∈ e.shown.map keyOf, (markersOf out).count key = 1

def repeated : List Event := [memberSays .content "a", memberSays .content "b", memberSays .completed "ab"]

theorem repeated_not_once : ¬ Once repeated "abab" := by
  rintro ⟨frames, hsub, htext, -, hpairwise⟩
  have hall : ∀ xs ∈ repeated.sublists, String.join (xs.map Event.text) = "abab" → xs.length = 3 := by decide
  have hlength : frames.length = 3 := hall frames (List.mem_sublists.mpr hsub) htext.symm
  obtain rfl : frames = repeated := hsub.eq_of_length hlength
  have hrepeats : Repeats (memberSays .content "a") (memberSays .completed "ab") := ⟨rfl, .inl (by decide)⟩
  exact (List.pairwise_cons.mp hpairwise).1 _ (by simp) hrepeats

def relayed : List Event := [
  { kind := .content, session := some "chat", content := some "a" },
  { kind := .intermediate, session := some "chat", content := some "b", speaker := 1 }]

def drawn : List Event := [
  { kind := .toolCompleted, session := some "chat:member", media := [(.image, { id := some "plot", address := 0 })] }]

/-- Without member sessions a relayed delta is yielded. With them, a member's deltas and its completion are yielded both
where the leader is silent, and an output of a member has no marker. -/
theorem answers_not_strict :
    (∃ out, arunRuntimeStream (chat false) relayed = .ok out ∧ textOf out = "ab" ∧
      ¬ StreamedStrictly (chat false) relayed out) ∧
    (∃ out, arunRuntimeStream (chat true) repeated = .ok out ∧ textOf out = "abab" ∧
      ¬ StreamedStrictly (chat true) repeated out) ∧
    ∃ out, arunRuntimeStream (chat true) drawn = .ok out ∧ markersOf out = [] ∧
      ¬ StreamedStrictly (chat true) drawn out := by
  refine ⟨⟨(drain (chat false) relayed).out ++ (drain (chat false) relayed).rest (chat false), rfl, ?_⟩,
    ⟨(drain (chat true) repeated).out ++ (drain (chat true) repeated).rest (chat true), rfl, ?_⟩,
    ⟨(drain (chat true) drawn).out ++ (drain (chat true) drawn).rest (chat true), rfl, ?_⟩⟩
  · have htext : textOf ((drain (chat false) relayed).out ++ (drain (chat false) relayed).rest (chat false)) = "ab" := by
      rfl
    refine ⟨htext, fun hstrict => ?_⟩
    have howned : (relayed.filter (chat false).isOwnDelta).map Event.text = ["a"] := rfl
    have hown := hstrict.own fun hnone => by
      simp [hnone] at howned
    rw [htext, howned] at hown
    exact absurd hown (by decide)
  · have htext : textOf ((drain (chat true) repeated).out ++ (drain (chat true) repeated).rest (chat true)) = "abab" := by
      rfl
    refine ⟨htext, fun hstrict => ?_⟩
    have howned : (repeated.filter (chat true).isOwnDelta).length = 0 := rfl
    have hanswer := hstrict.once (List.length_eq_zero_iff.mp howned)
      ⟨memberSays .completed "ab", by simp [repeated], rfl, by decide, .inr rfl⟩
    exact repeated_not_once (htext ▸ hanswer.2)
  · have hmarks : markersOf ((drain (chat true) drawn).out ++ (drain (chat true) drawn).rest (chat true)) = [] := by
      rfl
    refine ⟨hmarks, fun hstrict => ?_⟩
    have hmarked := hstrict.marked _ (List.mem_singleton_self _) (.image, "plot") (by decide)
    simp [hmarks] at hmarked

end OpenAgent.Models.Streaming
