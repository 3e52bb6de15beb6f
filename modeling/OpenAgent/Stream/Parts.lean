import OpenAgent.Stream.Agreement

/-!
# The parts and the flat views

The parts of a finished answer come from one pass over its markers, its text from taking the markers out.
A part is made of the text between two markers that become parts themselves; so the text parts are the
groups into which those markers cut the answer, as far as the groups are not empty.
-/

namespace OpenAgent.Stream

open Lib List Bool

def Part.text? : Part → Option (List Char)
  | .text value => some value
  | _ => none

def Part.attachment? : Part → Option Attachment
  | .attachment value => some value
  | _ => none

def Part.view? : Part → Option UiRef
  | .uiView ref => some ref
  | _ => none

def partOf (allowInlineUi : Bool) : Marker → Option Part
  | .attachment kind path =>
    let path := Lib.trim isSpace path
    if path = [] then none else some (.attachment ⟨kind, path, pathName path⟩)
  | .view ref => if allowInlineUi then some (.uiView ref) else none

def textPart (value : List Char) : List Part := if value = [] then [] else [.text value]

def partsOf (allowInlineUi : Bool) (held : List Char) :
    List (List Char × Marker) → List Char → List Part
  | [], tail => textPart (held ++ tail)
  | (before, m) :: found, tail =>
    match partOf allowInlineUi m with
    | none => partsOf allowInlineUi (held ++ before) found tail
    | some part => textPart (held ++ before) ++ part :: partsOf allowInlineUi [] found tail

variable {allowInlineUi : Bool}

/-! ### The loop over the markers -/

def TextEnded (parts : List Part) : Prop := ∀ value, parts.getLast? ≠ some (.text value)

theorem appendText_textPart {front : List Part} (h : TextEnded front) (held value : List Char) :
    appendText (front ++ textPart held) value = front ++ textPart (held ++ value) := by
  rw [appendText]
  by_cases hvalue : value = []
  · rw [if_pos hvalue, hvalue, append_nil]
  · rw [if_neg hvalue]
    by_cases hheld : held = []
    · rw [hheld, textPart, if_pos rfl, append_nil, nil_append, textPart, if_neg hvalue]
      split
      · rename_i shown hlast
        exact absurd hlast (h shown)
      · rfl
    · rw [textPart, if_neg hheld, textPart, if_neg (by simp [hvalue]), getLast?_concat,
        dropLast_concat]

theorem textEnded_concat {parts : List Part} {part : Part} (h : part.text? = none) :
    TextEnded (parts ++ [part]) := by
  intro value hlast
  rw [getLast?_concat] at hlast
  rw [Option.some.inj hlast] at h
  cases h

theorem text?_partOf {m : Marker} {part : Part} (h : partOf allowInlineUi m = some part) :
    part.text? = none := by
  cases m with
  | attachment kind path =>
    simp only [partOf] at h
    split at h
    · cases h
    · cases h
      rfl
  | view ref =>
    simp only [partOf] at h
    split at h
    · cases h
      rfl
    · cases h

theorem onMatch_parts (allowInlineUi : Bool) (s : Parsing) (found : List Char × Marker) :
    (s.onMatch allowInlineUi found).parts =
      appendText s.parts found.1 ++ (partOf allowInlineUi found.2).toList := by
  obtain ⟨before, m⟩ := found
  cases m with
  | attachment kind path =>
    simp only [Parsing.onMatch, partOf]
    split <;> simp
  | view ref =>
    simp only [Parsing.onMatch, partOf]
    split <;> simp

theorem parts_loop (allowInlineUi : Bool) (found : List (List Char × Marker)) (tail : List Char) {s : Parsing}
    {front : List Part} {held : List Char} (hfront : TextEnded front)
    (h : s.parts = front ++ textPart held) :
    appendText (found.foldl (Parsing.onMatch allowInlineUi) s).parts tail =
      front ++ partsOf allowInlineUi held found tail := by
  induction found generalizing s front held with
  | nil => rw [foldl_nil, h, appendText_textPart hfront, partsOf]
  | cons first found ih =>
    obtain ⟨before, m⟩ := first
    have hparts := onMatch_parts allowInlineUi s (before, m)
    rw [h, appendText_textPart hfront] at hparts
    rw [foldl_cons, partsOf]
    cases hpart : partOf allowInlineUi m with
    | none =>
      rw [hpart, Option.toList_none, append_nil] at hparts
      exact ih hfront hparts
    | some part =>
      rw [hpart, Option.toList_some] at hparts
      have hended : TextEnded (front ++ textPart (held ++ before) ++ [part]) :=
        textEnded_concat (text?_partOf hpart)
      have hnone : textPart [] = [] := rfl
      have hnext := @ih _ _ [] hended (by rw [hparts, hnone, append_nil])
      rw [hnext]
      simp

/-- What the markers collected is what became parts, views only where they are allowed. -/
structure Parsing.Collected (allowInlineUi : Bool) (s : Parsing) : Prop where
  attachments : s.parts.filterMap Part.attachment? = s.attachments
  views : s.parts.filterMap Part.view? = if allowInlineUi then s.uiRefs else []

theorem filterMap_appendText {β : Type} {f : Part → Option β} (hf : ∀ value, f (.text value) = none)
    (parts : List Part) (value : List Char) :
    (appendText parts value).filterMap f = parts.filterMap f := by
  rw [appendText]
  split
  · rfl
  · split
    · rename_i shown hlast
      obtain ⟨front, rfl⟩ := List.getLast?_eq_some_iff.mp hlast
      simp [hf]
    · simp [hf]

theorem collected_onMatch {s : Parsing} (h : s.Collected allowInlineUi) (found : List Char × Marker) :
    (s.onMatch allowInlineUi found).Collected allowInlineUi := by
  have hattachments := filterMap_appendText (f := Part.attachment?) (fun _ => rfl) s.parts found.1
  have hviews := filterMap_appendText (f := Part.view?) (fun _ => rfl) s.parts found.1
  rw [h.attachments] at hattachments
  rw [h.views] at hviews
  obtain ⟨before, m⟩ := found
  cases m with
  | attachment kind path =>
    simp only [Parsing.onMatch]
    split
    · exact ⟨hattachments, hviews⟩
    · constructor
      · simp [hattachments, Part.attachment?]
      · simpa [filterMap_cons, Part.view?] using hviews
  | view ref =>
    simp only [Parsing.onMatch]
    cases allowInlineUi with
    | true =>
      constructor
      · simpa [filterMap_cons, Part.attachment?] using hattachments
      · simpa [Part.view?] using hviews
    | false => exact ⟨hattachments, hviews⟩

theorem collected_loop (found : List (List Char × Marker)) {s : Parsing} (h : s.Collected allowInlineUi) :
    (found.foldl (Parsing.onMatch allowInlineUi) s).Collected allowInlineUi := by
  induction found generalizing s with
  | nil => exact h
  | cons first found ih => exact ih (collected_onMatch h first)

/-! ### The text parts -/

def filled (texts : List (List Char)) : List (List Char) := texts.filter (· ≠ [])

theorem filled_append (a b : List (List Char)) : filled (a ++ b) = filled a ++ filled b :=
  filter_append ..

def becomesPart (allowInlineUi : Bool) (m : Marker) : Bool := (partOf allowInlineUi m).isSome

theorem texts_textPart (value : List Char) : (textPart value).filterMap Part.text? = filled [value] := by
  rw [textPart]
  split
  · rename_i hempty
    rw [hempty]
    rfl
  · rename_i hne
    simp [filled, hne, Part.text?]

theorem texts_partsOf (allowInlineUi : Bool) (text held : List Char) :
    (partsOf allowInlineUi held (finditer text).1 (finditer text).2).filterMap Part.text? =
      filled ((groups (becomesPart allowInlineUi) text).modifyHead (held ++ ·)) := by
  induction text using finditer.induct generalizing held with
  | case1 =>
    rw [finditer, groups, partsOf, texts_textPart]
    rfl
  | case2 c cs m len hmarker ih =>
    rw [finditer, hmarker, groups, hmarker]
    dsimp only
    rw [partsOf, becomesPart]
    cases hpart : partOf allowInlineUi m with
    | none =>
      simp only [Option.isSome_none, false_eq_true, if_false, append_nil]
      exact ih held
    | some part =>
      have hrest := ih []
      rw [modifyHead_nil] at hrest
      simp only [Option.isSome_some, if_true, append_nil, List.modifyHead_cons]
      rw [filterMap_append, texts_textPart, filterMap_cons_none (text?_partOf hpart), hrest,
        ← filled_append, singleton_append]
  | case3 c cs hmarker tail hrest ih =>
    have hheld := ih (held ++ [c])
    rw [hrest] at hheld
    rw [finditer, hmarker, groups, hmarker]
    simp only [hrest]
    rw [modifyHead_cons, ← hheld, partsOf, partsOf, append_assoc, singleton_append]
  | case4 c cs hmarker before m found tail hrest ih =>
    have hheld := ih (held ++ [c])
    rw [hrest] at hheld
    rw [finditer, hmarker, groups, hmarker]
    simp only [hrest]
    rw [modifyHead_cons, ← hheld, partsOf, partsOf, append_assoc, singleton_append]

theorem filterMap_onFirstText {β : Type} {f : Part → Option β} (hf : ∀ value, f (.text value) = none)
    (change : List Char → List Char) (parts : List Part) :
    (onFirstText change parts).filterMap f = parts.filterMap f := by
  induction parts with
  | nil => rfl
  | cons part parts ih =>
    cases part with
    | text value => simp [onFirstText, hf]
    | attachment value => simp [onFirstText, filterMap_cons, ih]
    | uiView ref => simp [onFirstText, filterMap_cons, ih]

theorem filterMap_trimTextEdges {β : Type} {f : Part → Option β} (hf : ∀ value, f (.text value) = none)
    (parts : List Part) : (trimTextEdges parts).filterMap f = parts.filterMap f := by
  have hfilter : ∀ parts : List Part, (parts.filter Part.filled).filterMap f = parts.filterMap f := by
    intro parts
    rw [filterMap_filter]
    apply filterMap_congr
    intro part _
    cases part with
    | text value => simp [hf]
    | attachment value => rfl
    | uiView ref => rfl
  rw [trimTextEdges, hfilter, filterMap_reverse, filterMap_onFirstText hf, filterMap_reverse,
    reverse_reverse, filterMap_onFirstText hf]

theorem filterMap_onText {β : Type} {f : Part → Option β} (hf : ∀ value, f (.text value) = none)
    (change : List Char → List Char) (parts : List Part) :
    (parts.map (Part.onText change)).filterMap f = parts.filterMap f := by
  rw [filterMap_map]
  apply filterMap_congr
  intro part _
  cases part with
  | text value => simp [Part.onText, hf]
  | attachment value => rfl
  | uiView ref => rfl

theorem texts_onText (change : List Char → List Char) (parts : List Part) :
    (parts.map (Part.onText change)).filterMap Part.text? = (parts.filterMap Part.text?).map change := by
  rw [filterMap_map, map_filterMap]
  apply filterMap_congr
  intro part _
  cases part with
  | text value => rfl
  | attachment value => rfl
  | uiView ref => rfl

def trimmed (texts : List (List Char)) : List (List Char) := filled (texts.map (Lib.trim isSpace))

theorem trimmed_cons (text : List Char) (texts : List (List Char)) :
    trimmed (text :: texts) = trimmed [text] ++ trimmed texts := by
  rw [trimmed, trimmed, trimmed, ← singleton_append, map_append, filled_append]

theorem trimmed_map_filled {change : List Char → List Char} (h : change [] = [])
    (texts : List (List Char)) : trimmed ((filled texts).map change) = trimmed (texts.map change) := by
  induction texts with
  | nil => rfl
  | cons text texts ih =>
    by_cases hempty : text = []
    · have hskip : filled (text :: texts) = filled texts := by simp [filled, hempty]
      rw [hskip, ih, hempty, map_cons, h]
      rfl
    · have hkeep : filled (text :: texts) = text :: filled texts := by simp [filled, hempty]
      rw [hkeep, map_cons, map_cons, trimmed_cons, ih, ← trimmed_cons]

theorem trimmed_filled (texts : List (List Char)) : trimmed (filled texts) = trimmed texts := by
  have h := @trimmed_map_filled id rfl texts
  rwa [map_id, map_id] at h

theorem trim_dropWhile (text : List Char) : Lib.trim isSpace (text.dropWhile isSpace) = Lib.trim isSpace text := by
  rw [Lib.trim, dropWhile_idempotent, Lib.trim]

theorem trim_rdropWhile (text : List Char) : Lib.trim isSpace (text.rdropWhile isSpace) = Lib.trim isSpace text := by
  have hsplit : text = text.rdropWhile isSpace ++ text.rtakeWhile isSpace :=
    (rdropWhile_append_rtakeWhile ..).symm
  have hback : ∀ c ∈ text.rtakeWhile isSpace, isSpace c = true := fun c hc => mem_rtakeWhile_imp hc
  have hfront : ∀ c ∈ ([] : List Char), isSpace c = true := fun c hc => absurd hc not_mem_nil
  have htrim := trim_append hfront hback (text.rdropWhile isSpace)
  rw [nil_append, ← hsplit] at htrim
  exact htrim.symm

theorem texts_onFirstText {change : List Char → List Char}
    (h : ∀ text, Lib.trim isSpace (change text) = Lib.trim isSpace text) (parts : List Part) :
    ((onFirstText change parts).filterMap Part.text?).map (Lib.trim isSpace) =
      (parts.filterMap Part.text?).map (Lib.trim isSpace) := by
  induction parts with
  | nil => rfl
  | cons part parts ih =>
    cases part with
    | text value => simp [onFirstText, Part.text?, h]
    | attachment value => simpa [onFirstText, filterMap_cons, Part.text?] using ih
    | uiView ref => simpa [onFirstText, filterMap_cons, Part.text?] using ih

theorem texts_trimTextEdges (parts : List Part) :
    trimmed ((trimTextEdges parts).filterMap Part.text?) = trimmed (parts.filterMap Part.text?) := by
  have hfilter : ∀ parts : List Part,
      (parts.filter Part.filled).filterMap Part.text? = filled (parts.filterMap Part.text?) := by
    intro parts
    rw [filled, filter_filterMap, filterMap_filter]
    apply filterMap_congr
    intro part _
    cases part with
    | text value => simp [Part.filled, Part.text?, Option.filter]
    | attachment value => rfl
    | uiView ref => rfl
  rw [trimTextEdges, hfilter, trimmed_filled, trimmed, trimmed, filterMap_reverse, map_reverse,
    texts_onFirstText trim_rdropWhile, ← map_reverse, ← filterMap_reverse, reverse_reverse,
    texts_onFirstText trim_dropWhile]

/-! ### The flat views -/

def Less (a b : Char × Bool) : Prop := a.1 = b.1 ∧ (a.2 = true → b.2 = true)

theorem shownGroups_less {cuts : Marker → Bool} (text : List Char) {swallowing swallowing' : Bool}
    (h : swallowing = true → swallowing' = true) :
    List.Forall₂ Less (shownGroups cuts swallowing text).flatten
      (shownGroups noCut swallowing' text).flatten := by
  induction text using carriers_induction generalizing swallowing swallowing' with
  | nil =>
    rw [shownGroups, shownGroups]
    exact .nil
  | unclosed text p hopen hnone =>
    rw [shownGroups_unclosed hopen hnone, shownGroups_unclosed hopen hnone]
    exact .nil
  | carrier front back p hopen hnone ih =>
    rw [shownGroups_carrier hopen hnone, shownGroups_carrier hopen hnone]
    cases firstMarker (front ++ [']']) with
    | none => exact ih id
    | some found =>
      obtain ⟨before, m⟩ := found
      simp only [noCut, false_eq_true, if_false]
      split
      · exact ih fun hbad => absurd hbad false_ne_true
      · apply ih
        intro hor
        rw [or_eq_true] at hor ⊢
        exact hor.imp_left h
  | plain c cs hopen ih =>
    have hne : ∀ (cuts : Marker → Bool) swallowing, shownGroups cuts swallowing cs ≠ [] := by
      intro cuts swallowing hnil
      obtain ⟨shown, rest, hcons⟩ := shownGroups_ne_nil cuts swallowing cs
      simp [hnil] at hcons
    rw [shownGroups_cons hopen, shownGroups_cons hopen, flatten_modifyHead _ (hne _ _),
      flatten_modifyHead _ (hne _ _)]
    refine .cons ⟨rfl, h⟩ (ih ?_)
    intro hand
    rw [and_eq_true] at hand ⊢
    exact hand.imp_left h

theorem AtEnds.of_less {a b : List (Char × Bool)} (h : AtEnds b) (hless : List.Forall₂ Less a b) :
    AtEnds a := by
  have htrim : List.Forall₂ Less (Lib.trim blank a) (Lib.trim blank b) := by
    apply forall₂_trim _ hless
    intro x y hxy
    rw [blank, blank, hxy.1]
  have hall : ∀ xs ys : List (Char × Bool), List.Forall₂ Less xs ys → (∀ y ∈ ys, y.2 = false) →
      ∀ x ∈ xs, x.2 = false := by
    intro xs ys hxs hys x hx
    induction hxs with
    | nil => cases hx
    | cons hhead htail ih =>
      rename_i a b as bs
      rcases List.mem_cons.mp hx with rfl | hx
      · by_contra hswallowed
        have hb := hhead.2 (not_eq_false _ ▸ hswallowed)
        simp [hys b mem_cons_self] at hb
      · exact ih (fun y hy => hys y (mem_cons_of_mem b hy)) hx
  exact hall _ _ htrim h

theorem AtEnds.of_infix {part whole : List (Char × Bool)} (h : AtEnds whole) (hbetween : part <:+: whole) :
    AtEnds part := by
  intro mark hmark
  apply h
  exact (infix_trim (tight_trim part) ((isInfix_trim part).trans hbetween)).subset hmark

/-- The parts of an answer agree with its flat views: its attachments are what was collected, its views too
where they are allowed, and its text parts are what stands outside the carriers, in pieces and up to white
space around each, the text of the answer being the pieces together. -/
structure PartsConsistent (text : List Char) (allowInlineUi : Bool) : Prop where
  attachments : (parseResponseContent text allowInlineUi).parts.filterMap Part.attachment? =
    (parseResponseContent text allowInlineUi).attachments
  views : (parseResponseContent text allowInlineUi).parts.filterMap Part.view? =
    if allowInlineUi then (parseResponseContent text allowInlineUi).uiRefs else []
  texts : ∃ pieces : List (List Char), pieces.flatten = outside text ∧
    trimmed ((parseResponseContent text allowInlineUi).parts.filterMap Part.text?) = trimmed pieces ∧
    (parseResponseContent text allowInlineUi).text = Lib.trim isSpace pieces.flatten

theorem parse_parts (text : List Char) :
    (parseResponseContent text allowInlineUi).parts =
      trimTextEdges ((partsOf allowInlineUi [] (finditer text).1 (finditer text).2).map
        (Part.onText stripMalformed)) := by
  have hended : TextEnded [] := fun value hlast => by cases hlast
  have hstart : ({} : Parsing).parts = [] ++ textPart [] := rfl
  have hloop := parts_loop allowInlineUi (finditer text).1 (finditer text).2 hended hstart
  rw [nil_append] at hloop
  rw [← hloop]
  rfl

theorem trimmed_texts (text : List Char) :
    trimmed ((parseResponseContent text allowInlineUi).parts.filterMap Part.text?) =
      trimmed ((groups (becomesPart allowInlineUi) text).map stripMalformed) := by
  have htexts := texts_partsOf allowInlineUi text []
  rw [modifyHead_nil] at htexts
  have hempty : stripMalformed [] = [] := stripMalformed_of_plain plain_nil
  rw [parse_parts, texts_trimTextEdges, texts_onText, htexts, trimmed_map_filled hempty]

theorem trimmed_groups {text : List Char} (h : Settled text) (cuts : Marker → Bool) :
    trimmed ((groups cuts text).map stripMalformed) =
      trimmed ((shownGroups cuts false text).map fun shown => shown.map Prod.fst) := by
  obtain ⟨htold, -⟩ := told_groups cuts text
  have hall := htold [] plain_nil
  rw [modifyHead_nil, show unmarked [] = [] from rfl, modifyHead_nil] at hall
  have hends : AtEnds (shownGroups cuts false text).flatten := h.atEnds.of_less (shownGroups_less text id)
  have heach : ∀ shown ∈ shownGroups cuts false text, Plain (shown.map Prod.fst) ∧ AtEnds shown := by
    intro shown hmem
    have hbetween := infix_of_mem_flatten hmem
    constructor
    · apply h.plain.of_infix
      rw [← shownGroups_flatten cuts false text]
      exact hbetween.map Prod.fst
    · exact hends.of_infix hbetween
  have hmap : ∀ (raws : List (List Char)) (showns : List (List (Char × Bool))),
      List.Forall₂ Told raws showns → (∀ shown ∈ showns, Plain (shown.map Prod.fst) ∧ AtEnds shown) →
      (raws.map stripMalformed).map (Lib.trim isSpace) =
        (showns.map fun shown => shown.map Prod.fst).map (Lib.trim isSpace) := by
    intro raws showns hforall hshowns
    induction hforall with
    | nil => rfl
    | cons hhead htail ih =>
      rename_i raw shown raws showns
      obtain ⟨hplain, hatEnds⟩ := hshowns shown mem_cons_self
      have hrest := ih fun later hlater => hshowns later (mem_cons_of_mem shown hlater)
      rw [map_cons, map_cons, map_cons, map_cons, hhead.trim_eq hplain hatEnds, hrest]
  rw [trimmed, trimmed, hmap _ _ hall heach]

theorem parse_collected (text : List Char) :
    ((finditer text).1.foldl (Parsing.onMatch allowInlineUi) {}).Collected allowInlineUi :=
  collected_loop _ ⟨rfl, by cases allowInlineUi <;> rfl⟩

theorem parse_attachments (text : List Char) :
    (parseResponseContent text allowInlineUi).parts.filterMap Part.attachment? =
      (parseResponseContent text allowInlineUi).attachments := by
  have hparts : (parseResponseContent text allowInlineUi).parts.filterMap Part.attachment? = _ :=
    filterMap_trimTextEdges (fun _ => rfl) _
  rw [hparts, filterMap_onText (fun _ => rfl), filterMap_appendText (fun _ => rfl),
    (parse_collected text).attachments]
  rfl

theorem parse_views (text : List Char) :
    (parseResponseContent text allowInlineUi).parts.filterMap Part.view? =
      if allowInlineUi then (parseResponseContent text allowInlineUi).uiRefs else [] := by
  have hparts : (parseResponseContent text allowInlineUi).parts.filterMap Part.view? = _ :=
    filterMap_trimTextEdges (fun _ => rfl) _
  rw [hparts, filterMap_onText (fun _ => rfl), filterMap_appendText (fun _ => rfl),
    (parse_collected text).views]
  rfl

/-- The parts of an answer agree with its flat views exactly if the answer is settled. -/
theorem parts_consistent_iff (text : List Char) (allowInlineUi : Bool) :
    PartsConsistent text allowInlineUi ↔ Settled text := by
  constructor
  · intro h
    obtain ⟨pieces, houtside, -, htext⟩ := h.texts
    rw [← text_eq_outside text allowInlineUi, htext, houtside]
  · intro h
    refine ⟨parse_attachments text, parse_views text,
      (shownGroups (becomesPart allowInlineUi) false text).map fun shown => shown.map Prod.fst, ?_, ?_, ?_⟩
    · rw [← List.map_flatten, shownGroups_flatten]
    · rw [trimmed_texts, trimmed_groups h]
    · rw [← List.map_flatten, shownGroups_flatten, text_eq_outside]
      exact h

/-- The parts keep both halves of a marker that only comes together when another one is taken out; the text
has nothing of them. -/
theorem joined_marker_is_in_parts : ¬ PartsConsistent "[FI[FILE:x]LE:y]".toList true := by
  intro h
  obtain ⟨pieces, houtside, -, htext⟩ := h.texts
  have hempty : (parseResponseContent "[FI[FILE:x]LE:y]".toList true).text = [] := by decide +kernel
  have hshown : Lib.trim isSpace (outside "[FI[FILE:x]LE:y]".toList) ≠ [] := by decide +kernel
  rw [houtside, hempty] at htext
  exact hshown htext.symm

end OpenAgent.Stream
