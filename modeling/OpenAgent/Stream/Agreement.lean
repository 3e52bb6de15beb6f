import OpenAgent.Stream.Swallowing

/-!
# The stream and the finished answer

The filter shows what stands outside the carriers; the text of the finished answer is what the pattern and
the cutting leave. The two agree on exactly those answers in which no opening comes together around a carrier
and in which nothing but white space at the ends is swallowed.
-/

namespace OpenAgent.Stream

open Lib List

def blank (mark : Char × Bool) : Bool := isSpace mark.1

def AtEnds (shown : List (Char × Bool)) : Prop := ∀ mark ∈ Lib.trim blank shown, mark.2 = false

def noCut (_ : Marker) : Bool := false

def shownMarks (text : List Char) : List (Char × Bool) := (shownGroups noCut false text).flatten

/-- Around the carriers of a text no opening comes together, and what is swallowed after a carrier that loses
its bracket to a marker inside it is white space at the ends of what is shown. -/
structure Settled (text : List Char) : Prop where
  plain : Plain (outside text)
  atEnds : AtEnds (shownMarks text)

theorem map_trim_blank (shown : List (Char × Bool)) :
    (Lib.trim blank shown).map Prod.fst = Lib.trim isSpace (shown.map Prod.fst) :=
  map_trim Prod.fst shown

theorem tight_opening {p : List Char} (h : p ∈ contentMarkerPrefixes) : Tight isSpace p := by
  obtain ⟨-, hchars⟩ := opening_chars p h
  constructor
  · intro c hc
    exact hchars c (mem_of_mem_head? hc)
  · intro c hc
    exact hchars c (mem_of_getLast? hc)

theorem plain_trim {text : List Char} : Plain (Lib.trim isSpace text) ↔ Plain text := by
  constructor
  · intro h p hp hbetween
    exact h p hp (infix_trim (tight_opening hp) hbetween)
  · intro h
    exact h.of_infix (isInfix_trim text)

/-! ### What is shown and what is spared -/

theorem flatten_modifyHead {α : Type} (a : α) {l : List (List α)} (h : l ≠ []) :
    (l.modifyHead (a :: ·)).flatten = a :: l.flatten := by
  cases l with
  | nil => exact absurd rfl h
  | cons g gs => rfl

theorem shownGroups_flatten (cuts : Marker → Bool) (swallowing : Bool) (text : List Char) :
    (shownGroups cuts swallowing text).flatten.map Prod.fst = outside text := by
  induction text using carriers_induction generalizing swallowing with
  | nil => rw [shownGroups, outside_nil]; rfl
  | unclosed text p hopen h => rw [shownGroups_unclosed hopen h, outside_unclosed hopen h]; rfl
  | carrier front back p hopen h ih =>
    rw [shownGroups_carrier hopen h, outside_carrier hopen h]
    cases firstMarker (front ++ [']']) with
    | none => exact ih false
    | some found =>
      obtain ⟨before, m⟩ := found
      dsimp only
      split
      · exact ih false
      · exact ih _
  | plain c cs hopen ih =>
    have hne : shownGroups cuts (swallowing && c ≠ ']') cs ≠ [] := by
      obtain ⟨shown, rest, h⟩ := shownGroups_ne_nil cuts (swallowing && c ≠ ']') cs
      rw [h]
      exact cons_ne_nil shown rest
    rw [shownGroups_cons hopen, outside_cons hopen, flatten_modifyHead _ hne, map_cons, ih]

variable {shown : List (Char × Bool)}

theorem trim_spared (h : AtEnds shown) :
    Lib.trim isSpace (spared shown) = Lib.trim isSpace (shown.map Prod.fst) := by
  obtain ⟨front, back, hsplit, hfront, hback⟩ := @trim_split _ blank shown
  have hblank : ∀ side : List (Char × Bool), (∀ mark ∈ side, blank mark = true) →
      ∀ c ∈ spared side, isSpace c = true := by
    intro side hside c hc
    obtain ⟨mark, hmark, rfl⟩ := List.mem_map.mp hc
    exact hside mark (List.mem_filter.mp hmark).1
  have hmiddle : spared (Lib.trim blank shown) = Lib.trim isSpace (shown.map Prod.fst) := by
    rw [spared, List.filter_eq_self.mpr, map_trim_blank]
    intro mark hmark
    rw [h mark hmark]
    rfl
  calc Lib.trim isSpace (spared shown)
      = Lib.trim isSpace (spared front ++ (spared (Lib.trim blank shown) ++ spared back)) := by
        rw [← spared_append, ← spared_append, ← hsplit]
    _ = Lib.trim isSpace (spared (Lib.trim blank shown)) := trim_append (hblank front hfront) (hblank back hback) _
    _ = Lib.trim isSpace (shown.map Prod.fst) := by rw [hmiddle, trim_trim]

/-- A text with no more than what is spared is the shown text up to white space only where white space at the
ends is all that is swallowed. -/
theorem atEnds_of_trim {text : List Char} (hless : text.Sublist (spared shown))
    (h : Lib.trim isSpace text = Lib.trim isSpace (shown.map Prod.fst)) : AtEnds shown := by
  obtain ⟨front, back, hsplit, hfront, hback⟩ := @trim_split _ blank shown
  have hblank : ∀ (side : List (Char × Bool)) (part : List Char), (∀ mark ∈ side, blank mark = true) →
      part.Sublist (spared side) → ∀ c ∈ part, isSpace c = true := by
    intro side part hside hpart c hc
    obtain ⟨mark, hmark, rfl⟩ := List.mem_map.mp (hpart.subset hc)
    exact hside mark (List.mem_filter.mp hmark).1
  rw [hsplit, spared_append, spared_append] at hless
  obtain ⟨first, others, rfl, hfirst, hothers⟩ := List.sublist_append_iff.mp hless
  obtain ⟨middle, last, rfl, hmiddle, hlast⟩ := List.sublist_append_iff.mp hothers
  have hcount : (Lib.trim blank shown).length ≤ ((Lib.trim blank shown).filter fun mark => !mark.2).length := by
    calc (Lib.trim blank shown).length
        = (Lib.trim isSpace (shown.map Prod.fst)).length := by rw [← map_trim_blank, length_map]
      _ = (Lib.trim isSpace middle).length := by
        rw [← h, trim_append (hblank front first hfront hfirst) (hblank back last hback hlast)]
      _ ≤ middle.length := length_trim_le middle
      _ ≤ (spared (Lib.trim blank shown)).length := hmiddle.length_le
      _ = ((Lib.trim blank shown).filter fun mark => !mark.2).length := by rw [spared, length_map]
  have hall : (Lib.trim blank shown).filter (fun mark => !mark.2) = Lib.trim blank shown :=
    List.filter_sublist.eq_of_length_le hcount
  intro mark hmark
  simpa using List.filter_eq_self.mp hall mark hmark

theorem Told.trim_eq {raw : List Char} (h : Told raw shown)
    (hplain : Plain (shown.map Prod.fst)) (hends : AtEnds shown) :
    Lib.trim isSpace (stripMalformed raw) = Lib.trim isSpace (shown.map Prod.fst) := by
  have htrim := trim_spared hends
  have hspared : Plain (spared shown) := by
    rw [← plain_trim, htrim, plain_trim]
    exact hplain
  rw [h.same hspared, htrim]

/-! ### The text of an answer -/

theorem groups_noCut (text : List Char) : groups noCut text = [sub text] := by
  induction text using finditer.induct with
  | case1 => rw [groups, sub, finditer]; rfl
  | case2 c cs m len hmarker ih =>
    rw [groups, hmarker, sub, finditer, hmarker]
    simp only [noCut, Bool.false_eq_true, if_false, ih]
    rfl
  | case3 c cs hmarker tail hrest ih =>
    rw [groups, hmarker, sub, finditer, hmarker]
    simp only [ih, hrest, sub]
    rfl
  | case4 c cs hmarker before m found tail hrest ih =>
    rw [groups, hmarker, sub, finditer, hmarker]
    simp only [ih, hrest, sub]
    rfl

theorem told_sub (text : List Char) : Told (sub text) (shownMarks text) := by
  obtain ⟨htold, -⟩ := told_groups noCut text
  have hall := htold [] plain_nil
  rw [modifyHead_nil, groups_noCut, show unmarked [] = [] from rfl, modifyHead_nil] at hall
  rw [shownMarks]
  cases hshown : shownGroups noCut false text with
  | nil =>
    simp [hshown] at hall
  | cons shown rest =>
    rw [hshown] at hall
    cases hall with
    | cons hhead htail =>
      cases htail
      rwa [flatten_cons, flatten_nil, append_nil]

theorem map_shownMarks (text : List Char) : (shownMarks text).map Prod.fst = outside text :=
  shownGroups_flatten noCut false text

theorem text_eq_outside (text : List Char) (allowInlineUi : Bool) :
    (parseResponseContent text allowInlineUi).text = Lib.trim isSpace (outside text) ↔ Settled text := by
  have htext : (parseResponseContent text allowInlineUi).text = Lib.trim isSpace (stripMalformed (sub text)) := rfl
  have htold := told_sub text
  rw [htext]
  constructor
  · intro h
    constructor
    · rw [← plain_trim, ← h, plain_trim]
      exact plain_stripMalformed (sub text)
    · apply atEnds_of_trim htold.lost
      rw [h, map_shownMarks]
  · intro h
    rw [htold.trim_eq (by rw [map_shownMarks]; exact h.plain) h.atEnds, map_shownMarks]

/-! ### The filter -/

/-- What a stream shows has no whole attachment marker, and is the text of the finished answer up to white
space around it. -/
structure ShownFaithfully (chunks : List (List Char)) (allowInlineUi : Bool) : Prop where
  noCarrier : ∀ p ∈ contentMarkerPrefixes, (attachmentKind p).isSome → ∀ path, path ≠ [] → ']' ∉ path →
    ¬ p ++ path ++ [']'] <:+: (({} : ContentMarkerStreamFilter).run chunks).1
  agrees : Lib.trim isSpace (({} : ContentMarkerStreamFilter).run chunks).1 =
    (parseResponseContent chunks.flatten allowInlineUi).text

/-- However an answer is cut into chunks, the stream shows the text of the finished answer and no attachment
marker exactly if the answer is settled. -/
theorem shown_faithfully_iff (chunks : List (List Char)) (allowInlineUi : Bool) :
    ShownFaithfully chunks allowInlineUi ↔ Settled chunks.flatten := by
  constructor
  · intro h
    rw [← text_eq_outside chunks.flatten allowInlineUi, ← h.agrees, run_visible]
  · intro h
    constructor
    · intro p hp _ path _ _ hbetween
      rw [run_visible] at hbetween
      apply h.plain p hp
      exact List.IsInfix.trans ⟨[], path ++ [']'], by simp⟩ hbetween
    · rw [run_visible]
      exact ((text_eq_outside chunks.flatten allowInlineUi).mpr h).symm

/-- Taking a marker out joins what stands around it: the stream shows a whole attachment marker, of which the
finished answer has nothing. -/
theorem joined_marker_is_shown : ¬ ShownFaithfully ["[FI[FILE:x]LE:y]".toList] true := by
  intro h
  have hshown : (({} : ContentMarkerStreamFilter).run ["[FI[FILE:x]LE:y]".toList]).1 = "[FILE:y]".toList := by
    decide +kernel
  apply h.noCarrier "[FILE:".toList (by decide +kernel) (by decide +kernel) ['y'] (by decide) (by decide)
  rw [hshown]
  exact ⟨[], [], by decide +kernel⟩

end OpenAgent.Stream
