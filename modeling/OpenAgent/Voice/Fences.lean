import OpenAgent.Voice.Chunker

/-!
# Fences in a text that comes in pieces

Read as a whole, a text is cut at its fences from left to right, and every second piece is code. Reading
goes on across a cut as if there were none, unless the cut stands inside a fence.
-/

namespace OpenAgent.Voice

open Lib List

/-! ### A whole text -/

/-- `text.split("```")` -/
def pieces (text : List Char) : List (List Char) :=
  match text with
  | [] => [[]]
  | c :: cs =>
    if fence.isPrefixOf (c :: cs) then [] :: pieces (cs.drop 2)
    else (pieces cs).modifyHead (c :: ·)
termination_by text.length
decreasing_by
  all_goals
    simp only [List.length_drop, List.length_cons]
    omega

def narrate : List (List Char) → List Char
  | [] => []
  | [outside] => outside
  | outside :: _code :: rest => outside ++ (spacedPlaceholder ++ narrate rest)

def said (read : Bool × Bool × List Char) : List Char :=
  read.2.2 ++ if read.1 then spacedPlaceholder else []

theorem pieces_cons (text : List Char) : ∃ piece rest, pieces text = piece :: rest := by
  induction text using pieces.induct with
  | case1 => exact ⟨[], [], by rw [pieces]⟩
  | case2 c cs hfence ih => exact ⟨[], pieces (cs.drop 2), by rw [pieces, if_pos hfence]⟩
  | case3 c cs hfence ih =>
    obtain ⟨piece, rest, h⟩ := ih
    exact ⟨c :: piece, rest, by rw [pieces, if_neg hfence, h]; rfl⟩

theorem narrate_modifyHead (c : Char) {parts : List (List Char)} (h : parts ≠ []) :
    narrate (parts.modifyHead (c :: ·)) = c :: narrate parts := by
  cases parts with
  | nil => exact absurd rfl h
  | cons outside rest =>
    cases rest with
    | nil => rfl
    | cons code rest => rfl

variable {cs text after before : List Char}

theorem consume_fence (inFence : Bool) {c : Char} (h : fence.isPrefixOf (c :: cs) = true) :
    consume inFence inFence (c :: cs) =
      let rest := consume (!inFence) (!inFence) (cs.drop 2)
      (rest.1, rest.2.1, (if inFence then spacedPlaceholder else []) ++ rest.2.2) := by
  rw [consume, if_pos h]
  cases inFence with
  | true => rfl
  | false => rfl

theorem consume_plain (inFence : Bool) {c : Char} (h : ¬ fence.isPrefixOf (c :: cs) = true) :
    consume inFence inFence (c :: cs) =
      let rest := consume inFence inFence cs
      (rest.1, rest.2.1, (if inFence then [] else [c]) ++ rest.2.2) := by
  rw [consume, if_neg h]
  cases inFence with
  | true => rfl
  | false => rfl

theorem consume_pending (inFence : Bool) (text : List Char) :
    (consume inFence inFence text).2.1 = (consume inFence inFence text).1 := by
  induction text using pieces.induct generalizing inFence with
  | case1 => rw [consume]
  | case2 c cs hfence ih =>
    rw [consume_fence inFence hfence]
    exact ih (!inFence)
  | case3 c cs hfence ih =>
    rw [consume_plain inFence hfence]
    exact ih inFence

theorem said_consume (text : List Char) :
    said (consume false false text) = narrate (pieces text) ∧
      said (consume true true text) = spacedPlaceholder ++ narrate (pieces text).tail := by
  induction text using pieces.induct with
  | case1 =>
    rw [consume, consume, pieces]
    exact ⟨rfl, rfl⟩
  | case2 c cs hfence ih =>
    obtain ⟨houtside, hinside⟩ := ih
    rw [consume_fence false hfence, consume_fence true hfence, pieces, if_pos hfence]
    constructor
    · obtain ⟨code, rest, hpieces⟩ := pieces_cons (cs.drop 2)
      rw [hpieces] at hinside ⊢
      exact hinside
    · rw [tail_cons, ← houtside]
      simp [said]
  | case3 c cs hfence ih =>
    obtain ⟨houtside, hinside⟩ := ih
    obtain ⟨piece, rest, hpieces⟩ := pieces_cons cs
    rw [consume_plain false hfence, consume_plain true hfence, pieces, if_neg hfence]
    constructor
    · rw [narrate_modifyHead c (by rw [hpieces]; exact cons_ne_nil _ _), ← houtside]
      simp [said]
    · rw [hpieces] at hinside ⊢
      exact hinside

/-! ### Backticks at a cut -/

def tick (c : Char) : Bool := c = '`'

def ticksAtEnd (text : List Char) : Nat := (text.rtakeWhile tick).length

def ticksAtStart (text : List Char) : Nat := (text.takeWhile tick).length

def Aligned (before after : List Char) : Prop :=
  ticksAtEnd before % 3 = 0 ∨ ticksAtEnd before % 3 + ticksAtStart after < 3

theorem ticksAtEnd_append (a b : List Char) :
    ticksAtEnd (a ++ b) = if b.all tick then ticksAtEnd a + b.length else ticksAtEnd b := by
  rw [ticksAtEnd, ticksAtEnd, ticksAtEnd, List.rtakeWhile, List.rtakeWhile, List.rtakeWhile,
    reverse_append, takeWhile_append]
  by_cases hall : b.all tick = true
  · have hwhole : b.reverse.takeWhile tick = b.reverse := by
      rw [takeWhile_eq_self_iff]
      intro c hc
      exact List.all_eq_true.mp hall c (List.mem_reverse.mp hc)
    rw [hwhole, if_pos rfl, if_pos hall]
    simp
  · rw [if_neg hall, if_neg]
    intro hlen
    have hwhole := (List.takeWhile_prefix (p := tick) (l := b.reverse)).eq_of_length hlen
    apply hall
    rw [all_eq_true]
    intro c hc
    rw [takeWhile_eq_self_iff] at hwhole
    exact hwhole c (List.mem_reverse.mpr hc)

theorem ticksAtEnd_of_all (h : text.all tick = true) : ticksAtEnd text = text.length := by
  have happend := ticksAtEnd_append [] text
  rw [nil_append, if_pos h] at happend
  rw [happend]
  exact Nat.zero_add _

theorem ticksAtStart_of_all (h : text.all tick = true) (more : List Char) :
    text.length ≤ ticksAtStart (text ++ more) := by
  have hwhole : text.takeWhile tick = text := by
    rw [takeWhile_eq_self_iff]
    exact List.all_eq_true.mp h
  rw [ticksAtStart, takeWhile_append, hwhole, if_pos rfl, length_append]
  omega

theorem ticksAtStart_le_append (text more : List Char) : ticksAtStart text ≤ ticksAtStart (text ++ more) := by
  rw [ticksAtStart, ticksAtStart, takeWhile_append]
  split
  · rename_i hlen
    rw [length_append]
    omega
  · exact Nat.le_refl _

theorem Aligned.of_append {more : List Char} (h : Aligned before (after ++ more)) :
    Aligned before after := by
  have hle := ticksAtStart_le_append after more
  rcases h with hnone | hfew
  · exact .inl hnone
  · exact .inr (by omega)

theorem fence_all : fence.all tick = true := by
  decide

theorem fence_split (h : fence.isPrefixOf text = true) : ∃ rest, text = fence ++ rest := by
  obtain ⟨rest, hrest⟩ := List.isPrefixOf_iff_prefix.mp h
  exact ⟨rest, hrest.symm⟩

theorem ticksAtEnd_fence (text : List Char) : ticksAtEnd (fence ++ text) % 3 = ticksAtEnd text % 3 := by
  rw [ticksAtEnd_append]
  split
  · rename_i hall
    rw [ticksAtEnd_of_all fence_all, ticksAtEnd_of_all hall, show fence.length = 3 from rfl]
    omega
  · rfl

theorem no_fence_across (hne : before ≠ []) (h : Aligned before after)
    (hfence : ¬ fence.isPrefixOf before = true) : ¬ fence.isPrefixOf (before ++ after) = true := by
  intro hacross
  obtain ⟨rest, hrest⟩ := fence_split hacross
  have hshort : before.length < 3 := by
    by_contra hlong
    apply hfence
    apply List.isPrefixOf_iff_prefix.mpr
    apply prefix_of_prefix_length_le (List.isPrefixOf_iff_prefix.mp hacross) (prefix_append _ _)
    rw [show fence.length = 3 from rfl]
    omega
  have hpart : before <+: fence := by
    apply prefix_of_prefix_length_le (prefix_append before after)
    · exact List.isPrefixOf_iff_prefix.mp hacross
    · rw [show fence.length = 3 from rfl]
      omega
  obtain ⟨back, hback⟩ := hpart
  have hallBoth : (before ++ back).all tick = true := by rw [hback]; exact fence_all
  rw [all_append, Bool.and_eq_true] at hallBoth
  have hafter : after = back ++ rest := by
    rw [← hback, append_assoc] at hrest
    exact append_cancel_left hrest
  have hlen := congrArg List.length hback
  have hstart := ticksAtStart_of_all hallBoth.2 rest
  have hpos := List.length_pos_iff.mpr hne
  rw [length_append, show fence.length = 3 from rfl] at hlen
  rw [Aligned, ticksAtEnd_of_all hallBoth.1, hafter] at h
  omega

theorem fence_of_all (hall : text.all tick = true) (hlong : 3 ≤ text.length) :
    fence.isPrefixOf text = true := by
  have hticks : text = List.replicate text.length '`' := by
    apply eq_replicate_of_mem
    intro c hc
    exact of_decide_eq_true (List.all_eq_true.mp hall c hc)
  rw [List.isPrefixOf_iff_prefix, hticks]
  refine ⟨List.replicate (text.length - 3) '`', ?_⟩
  rw [show fence = List.replicate 3 '`' from rfl, ← replicate_add]
  congr 1
  omega

theorem Aligned.tail {c : Char} (h : Aligned (c :: cs) after) (hfence : ¬ fence.isPrefixOf (c :: cs) = true)
    : Aligned cs after := by
  have happend := ticksAtEnd_append [c] cs
  rw [singleton_append] at happend
  by_cases hall : cs.all tick = true
  · rw [if_pos hall] at happend
    rw [Aligned, happend] at h
    rw [Aligned, ticksAtEnd_of_all hall]
    by_cases hc : c = '`'
    · have hone : ticksAtEnd [c] = 1 := by rw [hc]; rfl
      have hshort : cs.length < 2 := by
        by_contra hlong
        apply hfence
        apply fence_of_all
        · rw [all_cons, hall, hc]
          rfl
        · rw [length_cons]
          omega
      omega
    · have hzero : ticksAtEnd [c] = 0 := by simp [ticksAtEnd, List.rtakeWhile, tick, hc]
      rw [hzero, Nat.zero_add] at h
      exact h
  · rw [if_neg hall] at happend
    rw [Aligned, happend] at h
    exact h

theorem consume_append (inFence : Bool) (h : Aligned before after) :
    consume inFence inFence (before ++ after) =
      let first := consume inFence inFence before
      let rest := consume first.1 first.1 after
      (rest.1, rest.2.1, first.2.2 ++ rest.2.2) := by
  induction before using pieces.induct generalizing inFence with
  | case1 =>
    have hnil : consume inFence inFence [] = (inFence, inFence, []) := by rw [consume]
    rw [nil_append, hnil]
    rfl
  | case2 c cs hfence ih =>
    obtain ⟨rest, hsplit⟩ := fence_split hfence
    have hdrop : cs.drop 2 = rest := by
      have hdropped := congrArg (List.drop 3) hsplit
      rwa [drop_succ_cons, show fence = ['`', '`', '`'] from rfl] at hdropped
    have hrest : Aligned (cs.drop 2) after := by
      rw [Aligned, hsplit, ticksAtEnd_fence] at h
      rw [hdrop]
      exact h
    have hlonger : fence.isPrefixOf (c :: (cs ++ after)) = true := by
      rw [← cons_append, hsplit, append_assoc]
      exact List.isPrefixOf_iff_prefix.mpr (prefix_append _ _)
    have hlong : 2 ≤ cs.length := by
      have hlen := congrArg List.length hsplit
      rw [length_cons, length_append, show fence.length = 3 from rfl] at hlen
      omega
    rw [cons_append, consume_fence inFence hlonger, consume_fence inFence hfence,
      drop_append_of_le_length hlong, ih (!inFence) hrest]
    simp only [append_assoc]
  | case3 c cs hfence ih =>
    have hacross := no_fence_across (cons_ne_nil c cs) h hfence
    rw [cons_append] at hacross
    rw [cons_append, consume_plain inFence hacross, consume_plain inFence hfence,
      ih inFence (h.tail hfence)]
    simp only [append_assoc]

theorem consume_ticks (inFence : Bool) (hall : text.all tick = true) (hshort : text.length < 3) :
    consume inFence inFence text = (inFence, inFence, if inFence then [] else text) := by
  induction text with
  | nil => rw [consume]; cases inFence <;> rfl
  | cons c cs ih =>
    have hfence : ¬ fence.isPrefixOf (c :: cs) = true := by
      intro hbad
      have hle := (List.isPrefixOf_iff_prefix.mp hbad).length_le
      rw [show fence.length = 3 from rfl] at hle
      omega
    rw [all_cons, Bool.and_eq_true] at hall
    rw [length_cons] at hshort
    rw [consume_plain inFence hfence, ih hall.2 (by omega)]
    cases inFence <;> rfl

end OpenAgent.Voice
