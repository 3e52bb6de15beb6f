import OpenAgent.Voice.Fences

/-!
# What is spoken of a stream

Handing out chunks only drops white space, so what is spoken is told by the text that is put out for
speaking. The chunker's state after some deltas is what reading a front of the text leaves, the rest being
one or two backticks that are held back. Read so, an answer in deltas is spoken like the whole answer, as
long as no backticks are given out that would have been the front of a fence, and none are left over inside a
fence when the answer ends.
-/

namespace OpenAgent.Voice

open Lib List

def squeeze (text : List Char) : List Char := text.filter fun c => !isSpace c

theorem squeeze_append (a b : List Char) : squeeze (a ++ b) = squeeze a ++ squeeze b :=
  filter_append ..

theorem squeeze_of_space {text : List Char} (h : ∀ c ∈ text, isSpace c = true) : squeeze text = [] := by
  rw [squeeze, filter_eq_nil_iff]
  intro c hc
  simp [h c hc]

theorem squeeze_trim (text : List Char) : squeeze (Lib.trim isSpace text) = squeeze text := by
  obtain ⟨front, back, hsplit, hfront, hback⟩ := @trim_split _ isSpace text
  calc squeeze (Lib.trim isSpace text)
      = squeeze front ++ (squeeze (Lib.trim isSpace text) ++ squeeze back) := by
        rw [squeeze_of_space hfront, squeeze_of_space hback, nil_append, append_nil]
    _ = squeeze text := by rw [← squeeze_append, ← squeeze_append, ← hsplit]

theorem squeeze_dropWhile (text : List Char) : squeeze (text.dropWhile isSpace) = squeeze text := by
  have hfront : squeeze (text.takeWhile isSpace) = [] :=
    squeeze_of_space fun c hc => mem_takeWhile_imp hc
  calc squeeze (text.dropWhile isSpace)
      = squeeze (text.takeWhile isSpace ++ text.dropWhile isSpace) := by
        rw [squeeze_append, hfront, nil_append]
    _ = squeeze text := by rw [takeWhile_append_dropWhile]

theorem squeeze_intercalate (words : List (List Char)) :
    squeeze ([' '].intercalate (words.filter (· ≠ []))) = (words.map squeeze).flatten := by
  have hspace : squeeze [' '] = [] := by decide
  have hall : ∀ kept : List (List Char), squeeze ([' '].intercalate kept) = (kept.map squeeze).flatten := by
    intro kept
    induction kept with
    | nil => rfl
    | cons word kept ih =>
      cases kept with
      | nil => simp
      | cons next kept =>
        rw [intercalate_cons_cons, squeeze_append, squeeze_append, hspace, ih, append_nil]
        rfl
  rw [hall]
  induction words with
  | nil => rfl
  | cons word words ih =>
    by_cases hempty : word = []
    · rw [filter_cons_of_neg (by simp [hempty]), ih, hempty]
      rfl
    · rw [filter_cons_of_pos (by simp [hempty]), map_cons, map_cons, flatten_cons,
        flatten_cons, ih]

theorem squeeze_splitOnP (text : List Char) :
    ((text.splitOnP isSpace).map squeeze).flatten = squeeze text := by
  induction text with
  | nil => rfl
  | cons c cs ih =>
    obtain ⟨word, words, hwords⟩ := exists_cons_of_ne_nil (splitOnP_ne_nil isSpace cs)
    rw [hwords] at ih
    rw [splitOnP_cons_eq_if_modifyHead, hwords, squeeze, filter_cons]
    cases hspace : isSpace c with
    | true => simpa [squeeze] using ih
    | false =>
      rw [← squeeze, ← ih]
      simp [squeeze, hspace]

theorem squeeze_joinWords (text : List Char) : squeeze (joinWords text) = squeeze text := by
  rw [joinWords, squeeze_intercalate, squeeze_splitOnP]

/-! ### Chunks -/

theorem CutAround.squeeze_eq {text chunk rest : List Char} {stop next : Nat}
    (h : CutAround text chunk rest stop next) : squeeze chunk ++ squeeze rest = squeeze text := by
  have hbetween : squeeze ((text.take next).drop stop) = [] := squeeze_of_space h.between
  have hfront : text.take stop ++ (text.take next).drop stop = text.take next := by
    have htake : (text.take next).take stop = text.take stop := by
      rw [take_take, min_eq_left h.ordered]
    rw [← htake, take_append_drop]
  calc squeeze chunk ++ squeeze rest
      = squeeze (text.take stop) ++ squeeze (text.drop next) := by
        rw [h.chunk, h.rest, squeeze_trim, squeeze_dropWhile]
    _ = squeeze (text.take stop ++ (text.take next).drop stop) ++ squeeze (text.drop next) := by
        rw [squeeze_append, hbetween, append_nil]
    _ = squeeze text := by rw [hfront, ← squeeze_append, take_append_drop]

section

variable {isAlpha : Char → Bool}

theorem squeeze_extractSentences (isAlpha : Char → Bool) (inFirstMode : Bool) (text : List Char) :
    squeeze (extractSentences isAlpha inFirstMode text).1.flatten ++
      squeeze (extractSentences isAlpha inFirstMode text).2.1 = squeeze text := by
  induction hlen : text.length using Nat.strong_induction_on generalizing inFirstMode text with
  | _ n ih =>
    rw [extractSentences]
    split
    · rfl
    · rename_i chunk rest hnext
      obtain ⟨stop, next, hcut⟩ := nextChunk_some hnext
      have hlt := hcut.length_lt
      have hrest := ih rest.length (by omega) false rest rfl
      dsimp only
      rw [flatten_cons, squeeze_append, append_assoc, hrest, hcut.squeeze_eq]

/-! ### Holding back backticks -/

theorem length_takeWhile_take {α : Type} (p : α → Bool) (n : Nat) (l : List α) :
    ((l.take n).takeWhile p).length = min n (l.takeWhile p).length := by
  induction l generalizing n with
  | nil => simp
  | cons a l ih =>
    cases n with
    | zero => simp
    | succ n =>
      rw [take_succ_cons, takeWhile_cons, takeWhile_cons]
      split
      · rw [length_cons, length_cons, ih]
        omega
      · rw [length_nil, Nat.min_zero]

theorem trailingRun_eq (raw : List Char) : trailingRun raw = min 3 (ticksAtEnd raw) := by
  rw [trailingRun, length_takeWhile_take, ticksAtEnd, List.rtakeWhile, length_reverse]
  rfl

structure Held (data work held : List Char) : Prop where
  split : work ++ held = data
  ticks : held.all tick = true
  short : held.length < 3
  /-- All is worked on, with three backticks or more at its end, or what is worked on ends with none. -/
  ends : held = [] ∧ 3 ≤ ticksAtEnd data ∨ ticksAtEnd work = 0

theorem splitPartial_held (data : List Char) :
    Held data (splitPartial data).1 (splitPartial data).2 := by
  have hrun := trailingRun_eq data
  by_cases hshort : trailingRun data < 3
  · have hsplit : splitPartial data =
        (data.take (data.length - trailingRun data), data.drop (data.length - trailingRun data)) := by
      rw [splitPartial, if_pos hshort]
    have hcount : trailingRun data = (data.rtakeWhile tick).length := by
      rw [ticksAtEnd] at hrun
      omega
    have hparts := @rdropWhile_append_rtakeWhile _ tick data
    have hlen := congrArg List.length hparts
    rw [length_append] at hlen
    have hkept : (data.rdropWhile tick).length = data.length - trailingRun data := by omega
    have hwork : data.take (data.length - trailingRun data) = data.rdropWhile tick := by
      rw [← hkept]
      exact (List.prefix_iff_eq_take.mp (List.rdropWhile_prefix tick data)).symm
    have hheld : data.drop (data.length - trailingRun data) = data.rtakeWhile tick := by
      rw [hcount]
      exact (List.suffix_iff_eq_drop.mp (rtakeWhile_suffix tick data)).symm
    rw [hsplit, hwork, hheld]
    refine ⟨hparts, ?_, hcount ▸ hshort, .inr ?_⟩
    · exact List.all_eq_true.mpr fun c hc => mem_rtakeWhile_imp hc
    · rw [ticksAtEnd, length_eq_zero_iff, rtakeWhile_eq_nil_iff]
      intro hne
      exact rdropWhile_last_not tick data hne
  · have hsplit : splitPartial data = (data, []) := by rw [splitPartial, if_neg hshort]
    rw [hsplit]
    exact ⟨append_nil _, rfl, Nat.succ_pos 2, .inl ⟨rfl, by omega⟩⟩

/-! ### The conditions -/

def RunKept (data after : List Char) : Prop :=
  ticksAtEnd data < 3 ∨ ticksAtEnd data % 3 = 0 ∨ ticksAtEnd data % 3 + ticksAtStart after < 3

instance (data after : List Char) : Decidable (RunKept data after) :=
  inferInstanceAs (Decidable (_ ∨ _ ∨ _))

variable (isAlpha)

def Unbroken (c : SentenceChunker) : List (List Char) → Prop
  | [] => True
  | delta :: rest => RunKept (c.raw ++ delta) rest.flatten ∧ Unbroken (c.feed isAlpha delta).1 rest

instance decidableUnbroken : ∀ (c : SentenceChunker) (deltas : List (List Char)),
    Decidable (Unbroken isAlpha c deltas)
  | _, [] => inferInstanceAs (Decidable True)
  | c, delta :: rest =>
    have := decidableUnbroken (c.feed isAlpha delta).1 rest
    inferInstanceAs (Decidable (_ ∧ _))

def Released (deltas : List (List Char)) : Prop :=
  (({} : SentenceChunker).feedAll isAlpha deltas).1.inFence = true →
    (({} : SentenceChunker).feedAll isAlpha deltas).1.raw = []

instance (deltas : List (List Char)) : Decidable (Released isAlpha deltas) :=
  inferInstanceAs (Decidable (_ → _))

/-- What is spoken of an answer in deltas is what is spoken of the undivided one, and is what stands outside
its fences with the placeholder for each fence, up to white space. -/
structure SpokenWhole (deltas : List (List Char)) : Prop where
  undivided : squeeze (spoken isAlpha deltas) = squeeze (spoken isAlpha [deltas.flatten])
  outside : squeeze (spoken isAlpha deltas) = squeeze (narrate (pieces deltas.flatten))

variable {isAlpha}

/-! ### A run of deltas -/

/-- A chunker has read a front of the text, holds back what else it was given, and has put out what reading
that front puts out. -/
structure Heard (c : SentenceChunker) (chunks : List (List Char)) (front rest : List Char) : Prop where
  ticks : c.raw.all tick = true
  short : c.raw.length < 3
  aligned : Aligned front (c.raw ++ rest)
  inFence : c.inFence = (consume false false front).1
  pending : c.placeholderPending = c.inFence
  out : squeeze chunks.flatten ++ squeeze c.speakable = squeeze (consume false false front).2.2

theorem aligned_work {front raw delta rest work held : List Char} (h : Aligned front (raw ++ (delta ++ rest)))
    (hheld : Held (raw ++ delta) work held) (hkept : RunKept (raw ++ delta) rest) :
    Aligned (front ++ work) (held ++ rest) := by
  have hdata : raw ++ (delta ++ rest) = work ++ (held ++ rest) := by
    rw [← append_assoc, ← hheld.split, append_assoc]
  rw [hdata] at h
  have hcount := ticksAtEnd_append front work
  rcases hheld.ends with ⟨rfl, hlong⟩ | hnone
  · -- all is worked on, with a run of three backticks or more at its end
    have hwork : work = raw ++ delta := by rw [← hheld.split, append_nil]
    rw [RunKept, ← hwork] at hkept
    rw [← hwork] at hlong
    rw [nil_append] at h ⊢
    by_cases hall : work.all tick = true
    · have hstart := ticksAtStart_of_all hall rest
      rw [if_pos hall] at hcount
      rw [ticksAtEnd_of_all hall] at hkept hlong
      rw [Aligned] at h ⊢
      omega
    · rw [if_neg hall] at hcount
      rw [Aligned, hcount]
      omega
  · by_cases hall : work.all tick = true
    · have hempty : work = [] := by
        rw [ticksAtEnd_of_all hall] at hnone
        exact List.length_eq_zero_iff.mp hnone
      rw [hempty, nil_append] at h
      rw [hempty, append_nil]
      exact h
    · rw [if_neg hall, hnone] at hcount
      exact .inl (by rw [hcount])

theorem heard_feed (isAlpha : Char → Bool) {c : SentenceChunker} {chunks : List (List Char)} {front delta rest : List Char}
    (h : Heard c chunks front (delta ++ rest)) (hkept : RunKept (c.raw ++ delta) rest) :
    ∃ front', front' ++ (c.feed isAlpha delta).1.raw = front ++ c.raw ++ delta ∧
      Heard (c.feed isAlpha delta).1 (chunks ++ (c.feed isAlpha delta).2) front' rest := by
  rw [SentenceChunker.feed]
  split
  · rename_i hempty
    rw [hempty, nil_append] at h
    refine ⟨front, by rw [hempty, append_nil], ?_⟩
    rwa [append_nil]
  · have hheld := splitPartial_held (c.raw ++ delta)
    have haligned := aligned_work h.aligned hheld hkept
    generalize hwork : (splitPartial (c.raw ++ delta)).1 = work at hheld haligned
    generalize hback : (splitPartial (c.raw ++ delta)).2 = held at hheld haligned
    have hread : Aligned front work := by
      have hfirst := h.aligned
      rw [← append_assoc, ← hheld.split, append_assoc] at hfirst
      exact hfirst.of_append
    have hconsume := consume_append false hread
    dsimp only at hconsume
    rw [← h.inFence] at hconsume
    refine ⟨front ++ work, ?_, ?_⟩
    · dsimp only [SentenceChunker.consumeFences]
      rw [hback, append_assoc, hheld.split, append_assoc]
    · have hextract := squeeze_extractSentences isAlpha (!c.firstChunkEmitted)
        (c.speakable ++ (consume c.inFence c.placeholderPending work).2.2)
      dsimp only [SentenceChunker.consumeFences]
      rw [hback, hwork]
      refine ⟨hheld.ticks, hheld.short, haligned, ?_, ?_, ?_⟩
      · rw [hconsume, h.pending]
      · rw [h.pending]
        exact consume_pending c.inFence work
      · rw [flatten_append, squeeze_append, append_assoc, hextract, squeeze_append,
          ← append_assoc, h.out, hconsume, h.pending, squeeze_append]

theorem heard_feedAll {c : SentenceChunker} {chunks : List (List Char)} {front : List Char}
    (deltas : List (List Char)) (h : Heard c chunks front deltas.flatten)
    (hkept : Unbroken isAlpha c deltas) :
    ∃ front', front' ++ (c.feedAll isAlpha deltas).1.raw = front ++ c.raw ++ deltas.flatten ∧
      Heard (c.feedAll isAlpha deltas).1 (chunks ++ (c.feedAll isAlpha deltas).2) front' [] := by
  induction deltas generalizing c chunks front with
  | nil =>
    refine ⟨front, by rw [flatten_nil, append_nil]; rfl, ?_⟩
    rw [SentenceChunker.feedAll, append_nil]
    exact h
  | cons delta rest ih =>
    obtain ⟨hfirst, hrest⟩ := hkept
    rw [flatten_cons] at h
    obtain ⟨middle, hmiddle, hheard⟩ := heard_feed isAlpha h hfirst
    obtain ⟨front', hfront', hall⟩ := ih hheard hrest
    refine ⟨front', ?_, ?_⟩
    · rw [SentenceChunker.feedAll, hfront', hmiddle, flatten_cons, append_assoc]
    · rw [SentenceChunker.feedAll, ← append_assoc]
      exact hall

theorem squeeze_flush (c : SentenceChunker) (h : c.placeholderPending = c.inFence) :
    squeeze (c.flush.2.getD []) =
      squeeze c.speakable ++ (squeeze (if c.inFence then spacedPlaceholder else []) ++ squeeze c.raw) := by
  have htext : ∀ text : List Char, squeeze ((if Lib.trim isSpace (joinWords text) = [] then none
      else some (Lib.trim isSpace (joinWords text))).getD []) = squeeze text := by
    intro text
    have hsame := (squeeze_trim (joinWords text)).trans (squeeze_joinWords text)
    split
    · rename_i hempty
      rw [hempty] at hsame
      exact hsame
    · exact hsame
  rw [SentenceChunker.flush]
  dsimp only
  rw [htext, h, Bool.and_self]
  cases c.inFence with
  | true => simp [squeeze_append]
  | false => simp [squeeze_append, show squeeze [] = [] from rfl]

/-- Where no fence was broken up, what is spoken is what stands outside the fences exactly if no backticks
are held back inside one at the end. -/
theorem spoken_eq_iff {deltas : List (List Char)} (h : Unbroken isAlpha {} deltas) :
    squeeze (spoken isAlpha deltas) = squeeze (narrate (pieces deltas.flatten)) ↔
      Released isAlpha deltas := by
  have hstart : Heard {} [] [] deltas.flatten :=
    ⟨rfl, Nat.succ_pos 2, .inl rfl, by rw [consume], rfl, by rw [consume]; rfl⟩
  obtain ⟨front, hsplit, hheard⟩ := heard_feedAll deltas hstart h
  rw [Released, spoken]
  generalize hrun : ({} : SentenceChunker).feedAll isAlpha deltas = run at hsplit hheard
  obtain ⟨c, chunks⟩ := run
  have hspoken : squeeze (chunks.flatten ++ c.flush.2.getD []) =
      squeeze (consume false false front).2.2 ++
        (squeeze (if c.inFence then spacedPlaceholder else []) ++ squeeze c.raw) := by
    rw [squeeze_append, squeeze_flush c hheard.pending, ← append_assoc]
    congr 1
    exact hheard.out
  have hraw : squeeze c.raw = c.raw := by
    rw [squeeze, filter_eq_self]
    intro d hd
    have htick : d = '`' := of_decide_eq_true (List.all_eq_true.mp hheard.ticks d hd)
    rw [htick]
    rfl
  have haligned : Aligned front c.raw := hheard.aligned.of_append
  have hwhole : deltas.flatten = front ++ c.raw := hsplit.symm
  have hconsume := consume_append false haligned
  dsimp only at hconsume
  rw [← hheard.inFence, consume_ticks c.inFence hheard.ticks hheard.short] at hconsume
  have hnarrated : squeeze (narrate (pieces deltas.flatten)) =
      squeeze (consume false false front).2.2 ++
        (squeeze (if c.inFence then [] else c.raw) ++
          squeeze (if c.inFence then spacedPlaceholder else [])) := by
    rw [hwhole, ← (said_consume (front ++ c.raw)).1, hconsume, said, squeeze_append, squeeze_append,
      append_assoc]
  dsimp only
  rw [hspoken, hnarrated, append_right_inj, hraw]
  cases hfence : c.inFence with
  | true =>
    constructor
    · intro heq _
      have hlen := congrArg List.length heq
      simp only [if_true, length_append, show squeeze [] = [] from rfl, length_nil] at hlen
      exact List.length_eq_zero_iff.mp (by omega)
    · intro hnone
      rw [hnone rfl]
      rfl
  | false => simp [hraw, show squeeze [] = [] from rfl]

theorem unbroken_single (isAlpha : Char → Bool) (text : List Char) : Unbroken isAlpha {} [text] := by
  refine ⟨.inr (.inr ?_), trivial⟩
  have hnone : ticksAtStart ([] : List (List Char)).flatten = 0 := rfl
  rw [hnone]
  omega

/-- In every run of deltas in which no delta makes the chunker give out the front of a fence as mere
backticks, what is spoken is what is spoken of the undivided answer and what stands outside its fences, up to
white space, exactly if neither run ends with backticks held back inside a fence. -/
theorem spoken_whole_iff (isAlpha : Char → Bool) (deltas : List (List Char))
    (h : Unbroken isAlpha {} deltas) :
    SpokenWhole isAlpha deltas ↔ Released isAlpha deltas ∧ Released isAlpha [deltas.flatten] := by
  have hdeltas := spoken_eq_iff h
  have hwhole := spoken_eq_iff (unbroken_single isAlpha deltas.flatten)
  rw [List.flatten_singleton] at hwhole
  constructor
  · intro hspoken
    refine ⟨hdeltas.mp hspoken.outside, hwhole.mp ?_⟩
    rw [← hspoken.undivided, hspoken.outside]
  · rintro ⟨hreleased, hundivided⟩
    have hboth := hdeltas.mpr hreleased
    exact ⟨by rw [hboth, hwhole.mpr hundivided], hboth⟩

end

/-- Two fences that are cut up in other places are spoken whole. -/
theorem cut_fences_are_spoken : SpokenWhole Char.isAlpha
    ["Run ``".toList, "`ls``".toList, "` now, then go on. ``".toList, "`".toList, "x```".toList] :=
  (spoken_whole_iff Char.isAlpha _ (by decide)).mpr ⟨by decide +kernel, by decide +kernel⟩

/-- Of six backticks that are cut after the fourth the second fence is lost: what follows them is taken for
code. -/
theorem cut_run_is_lost : ¬ SpokenWhole Char.isAlpha ["````".toList, "``text".toList] := by
  intro h
  have hapart : squeeze (spoken Char.isAlpha ["````".toList, "``text".toList]) ≠
      squeeze (spoken Char.isAlpha [["````".toList, "``text".toList].flatten]) := by
    decide +kernel
  exact hapart h.undivided

end OpenAgent.Voice
