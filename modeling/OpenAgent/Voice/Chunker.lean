import OpenAgent.Contracts
import OpenAgent.Lib.Trim

/-!
# The sentence chunker

An answer is spoken while it is still being written. The chunker takes its text in deltas, leaves out what
stands in code fences, and hands out what can be spoken sentence by sentence. Backticks at the end of a delta
may be the front of a fence, so they are held back until it is known what follows.
-/

namespace OpenAgent.Voice

open Lib List Option

def fence : List Char := "```".toList

/-- `PLACEHOLDER` -/
def placeholder : List Char := "Code shown on screen.".toList

/-- `" " + self.PLACEHOLDER + " "` -/
def spacedPlaceholder : List Char := ' ' :: (placeholder ++ [' '])

/-- `ABBREVIATIONS` -/
def abbreviations : List (List Char) :=
  ["Mr.".toList, "Mrs.".toList, "Ms.".toList, "Dr.".toList, "Sr.".toList, "Jr.".toList, "St.".toList,
    "Mt.".toList, "e.g.".toList, "i.e.".toList, "etc.".toList, "vs.".toList, "Prof.".toList, "Inc.".toList,
    "Ltd.".toList, "Co.".toList]

/-- `CLAUSE_PUNCT` -/
def clausePunct : List Char := [',', ';', ':']

def sentencePunct : List Char := ".!?…".toList

def boundarySpace : List Char := " \n\t".toList

/-- `MIN_FIRST_LEN` for the first chunk, `MIN_LEN` for the others. -/
def minLen (inFirstMode : Bool) : Nat := if inFirstMode then 12 else 20

structure SentenceChunker where
  raw : List Char := []
  speakable : List Char := []
  inFence : Bool := false
  placeholderPending : Bool := false
  firstChunkEmitted : Bool := false

/-! ### Fences -/

def trailingRun (raw : List Char) : Nat := ((raw.reverse.take 3).takeWhile (· = '`')).length

def splitPartial (raw : List Char) : List Char × List Char :=
  let run := trailingRun raw
  if run < 3 then (raw.take (raw.length - run), raw.drop (raw.length - run)) else (raw, [])

/-- The loop of `_consume_fences`: the two flags after a text, and what it puts out. -/
def consume (inFence placeholderPending : Bool) (work : List Char) : Bool × Bool × List Char :=
  match work with
  | [] => (inFence, placeholderPending, [])
  | c :: cs =>
    if fence.isPrefixOf (c :: cs) then
      if inFence then
        let rest := consume false false (cs.drop 2)
        (rest.1, rest.2.1, (if placeholderPending then spacedPlaceholder else []) ++ rest.2.2)
      else consume true true (cs.drop 2)
    else
      let rest := consume inFence placeholderPending cs
      (rest.1, rest.2.1, if inFence then rest.2.2 else c :: rest.2.2)
termination_by work.length
decreasing_by
  all_goals
    simp only [List.length_drop, List.length_cons]
    omega

/-- `_consume_fences` -/
def SentenceChunker.consumeFences (c : SentenceChunker) : SentenceChunker :=
  let (work, held) := splitPartial c.raw
  let (inFence, placeholderPending, out) := consume c.inFence c.placeholderPending work
  { c with
    raw := held
    speakable := c.speakable ++ out
    inFence := inFence
    placeholderPending := placeholderPending }

/-! ### Sentences -/

section

variable (isAlpha : Char → Bool)

/-- `_is_abbreviation` -/
def isAbbreviation (text : List Char) (dotIdx : Nat) : Bool :=
  let word := (text.take dotIdx).rtakeWhile fun c => isAlpha c || c = '.'
  let token := word ++ (text.drop dotIdx).take 1
  abbreviations.any fun a => a.isSuffixOf token

def cutAt (inFirstMode : Bool) (text : List Char) (stop next : Nat) : Option (List Char × List Char) :=
  let chunk := Lib.trim isSpace (text.take stop)
  if minLen inFirstMode ≤ chunk.length then some (chunk, (text.drop next).dropWhile isSpace) else none

/-- The loop of `_next_chunk`: the chunk and what is left to speak. -/
def nextChunk (inFirstMode : Bool) (text : List Char) (i : Nat) : Option (List Char × List Char) :=
  if h : i < text.length then
    let ch := text[i]
    if ch = '\n' ∧ text[i + 1]? = some '\n' then
      match cutAt inFirstMode text i (i + 2) with
      | some found => some found
      | none => nextChunk inFirstMode text (i + 2)
    else if ch ∈ sentencePunct then
      if text[i + 1]?.any (· ∈ boundarySpace) ∧ ¬ isAbbreviation isAlpha text i then
        match cutAt inFirstMode text (i + 1) (i + 1) with
        | some found => some found
        | none => nextChunk inFirstMode text (i + 1)
      else nextChunk inFirstMode text (i + 1)
    else if inFirstMode ∧ ch ∈ clausePunct ∧ text[i + 1]?.any (· ∈ boundarySpace) then
      match cutAt inFirstMode text (i + 1) (i + 1) with
      | some found => some found
      | none => nextChunk inFirstMode text (i + 1)
    else nextChunk inFirstMode text (i + 1)
  else none
termination_by text.length - i

variable {isAlpha : Char → Bool}

/-- A chunk and what it leaves are the two sides of a boundary, between which only white space is dropped. -/
structure CutAround (text chunk rest : List Char) (stop next : Nat) : Prop where
  pos : 0 < next
  inside : next ≤ text.length
  ordered : stop ≤ next
  between : ∀ c ∈ (text.take next).drop stop, isSpace c = true
  chunk : chunk = Lib.trim isSpace (text.take stop)
  rest : rest = (text.drop next).dropWhile isSpace

variable {rest text chunk : List Char}

variable {inFirstMode : Bool}

theorem cutAt_some {stop next : Nat}
    (h : cutAt inFirstMode text stop next = some (chunk, rest)) :
    chunk = Lib.trim isSpace (text.take stop) ∧ rest = (text.drop next).dropWhile isSpace := by
  rw [cutAt] at h
  split at h
  · cases some.inj h
    exact ⟨rfl, rfl⟩
  · cases h

theorem cutAround_blank {i : Nat} (hlt : i < text.length) (hfirst : text[i] = '\n')
    (hsecond : text[i + 1]? = some '\n') (h : cutAt inFirstMode text i (i + 2) = some (chunk, rest)) :
    CutAround text chunk rest i (i + 2) := by
  obtain ⟨hchunk, hrest⟩ := cutAt_some h
  obtain ⟨hlt', hget⟩ := List.getElem?_eq_some_iff.mp hsecond
  refine ⟨by omega, by omega, by omega, ?_, hchunk, hrest⟩
  intro c hc
  rw [drop_take, drop_eq_getElem_cons hlt, drop_eq_getElem_cons hlt', hfirst, hget,
    show i + 2 - i = 2 by omega] at hc
  have hnewline : c = '\n' := by simpa using hc
  rw [hnewline]
  decide

theorem cutAround_mark {i : Nat} (hlt : i < text.length)
    (h : cutAt inFirstMode text (i + 1) (i + 1) = some (chunk, rest)) :
    CutAround text chunk rest (i + 1) (i + 1) := by
  obtain ⟨hchunk, hrest⟩ := cutAt_some h
  refine ⟨by omega, by omega, by omega, ?_, hchunk, hrest⟩
  intro c hc
  simp [drop_take, Nat.sub_self, take_zero] at hc

theorem nextChunk_some {i : Nat}
    (h : nextChunk isAlpha inFirstMode text i = some (chunk, rest)) :
    ∃ stop next, CutAround text chunk rest stop next := by
  induction hk : text.length - i using Nat.strong_induction_on generalizing i with
  | _ k ih =>
    rw [nextChunk] at h
    split at h
    · rename_i hlt
      have hon : ∀ step, 0 < step → nextChunk isAlpha inFirstMode text (i + step) = some (chunk, rest) →
          ∃ stop next, CutAround text chunk rest stop next := by
        intro step hpos hnext
        exact ih (text.length - (i + step)) (by omega) hnext rfl
      have hmark : (match cutAt inFirstMode text (i + 1) (i + 1) with
          | some found => some found
          | none => nextChunk isAlpha inFirstMode text (i + 1)) = some (chunk, rest) →
          ∃ stop next, CutAround text chunk rest stop next := by
        intro hcut
        cases hfound : cutAt inFirstMode text (i + 1) (i + 1) with
        | none =>
          rw [hfound] at hcut
          exact hon 1 Nat.one_pos hcut
        | some found =>
          rw [hfound] at hcut
          rw [some.inj hcut] at hfound
          exact ⟨i + 1, i + 1, cutAround_mark hlt hfound⟩
      dsimp only at h
      split at h
      · rename_i hblank
        cases hfound : cutAt inFirstMode text i (i + 2) with
        | none =>
          rw [hfound] at h
          exact hon 2 Nat.two_pos h
        | some found =>
          rw [hfound] at h
          rw [some.inj h] at hfound
          exact ⟨i, i + 2, cutAround_blank hlt hblank.1 hblank.2 hfound⟩
      · split at h
        · split at h
          · exact hmark h
          · exact hon 1 Nat.one_pos h
        · split at h
          · exact hmark h
          · exact hon 1 Nat.one_pos h
    · cases h

theorem CutAround.length_lt {stop next : Nat} (h : CutAround text chunk rest stop next)
    : rest.length < text.length := by
  have hle := (dropWhile_suffix isSpace (l := text.drop next)).length_le
  have hpos := h.pos
  have hinside := h.inside
  rw [length_drop] at hle
  rw [h.rest]
  omega

variable (isAlpha)

/-- `_extract_sentences`: the chunks, what is left to speak, and whether the first chunk is still to come. -/
def extractSentences (inFirstMode : Bool) (text : List Char) : List (List Char) × List Char × Bool :=
  match hnext : nextChunk isAlpha inFirstMode text 0 with
  | none => ([], text, inFirstMode)
  | some (chunk, rest) =>
    let more := extractSentences false rest
    (chunk :: more.1, more.2)
termination_by text.length
decreasing_by
  obtain ⟨stop, next, hcut⟩ := nextChunk_some hnext
  exact hcut.length_lt

/-- `feed` -/
def SentenceChunker.feed (c : SentenceChunker) (delta : List Char) : SentenceChunker × List (List Char) :=
  if delta = [] then (c, [])
  else
    let c := { c with raw := c.raw ++ delta }.consumeFences
    let (chunks, speakable, inFirstMode) := extractSentences isAlpha (!c.firstChunkEmitted) c.speakable
    ({ c with speakable := speakable, firstChunkEmitted := !inFirstMode }, chunks)

/-- `" ".join(text.split())` -/
def joinWords (text : List Char) : List Char :=
  [' '].intercalate ((text.splitOnP isSpace).filter (· ≠ []))

/-- `flush` -/
def SentenceChunker.flush (c : SentenceChunker) : SentenceChunker × Option (List Char) :=
  let speakable :=
    if c.inFence && c.placeholderPending then c.speakable ++ spacedPlaceholder else c.speakable
  let placeholderPending := if c.inFence && c.placeholderPending then false else c.placeholderPending
  let text := Lib.trim isSpace (joinWords (speakable ++ c.raw))
  ({ c with
      raw := []
      speakable := []
      inFence := false
      placeholderPending := placeholderPending },
    if text = [] then none else some text)

def SentenceChunker.feedAll (c : SentenceChunker) :
    List (List Char) → SentenceChunker × List (List Char)
  | [] => (c, [])
  | delta :: rest =>
    let (c, chunks) := c.feed isAlpha delta
    let (c, more) := c.feedAll rest
    (c, chunks ++ more)

def spoken (deltas : List (List Char)) : List Char :=
  let (c, chunks) := ({} : SentenceChunker).feedAll isAlpha deltas
  chunks.flatten ++ c.flush.2.getD []

end

end OpenAgent.Voice
