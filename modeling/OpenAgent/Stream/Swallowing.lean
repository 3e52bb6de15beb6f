import OpenAgent.Stream.Outside

/-!
# What an opening swallows

The pattern takes a whole marker out of a text even where it stands inside a carrier that opened before it.
The closing bracket goes with it, and what was that carrier now reaches to the next bracket that is left:
the text up to there is swallowed. Cut at some of its markers, a text falls into groups, and in each of them
the cutting leaves what is outside the carriers and not swallowed, unless an opening comes together there.
-/

namespace OpenAgent.Stream

open Lib List

/-! ### Cutting a text at its markers -/

section

variable (cuts : Marker → Bool)

/-- What the pattern leaves of a text, cut at the markers that `cuts` holds of. -/
def groups (text : List Char) : List (List Char) :=
  match text with
  | [] => [[]]
  | c :: cs =>
    match contentMarker (c :: cs) with
    | some (m, len) => if cuts m then [] :: groups (cs.drop (len - 1)) else groups (cs.drop (len - 1))
    | none => (groups cs).modifyHead (c :: ·)
termination_by text.length
decreasing_by
  · simp only [List.length_drop, List.length_cons]
    omega
  · simp only [List.length_drop, List.length_cons]
    omega
  · simp only [List.length_cons]
    omega

def firstMarker : List Char → Option (List Char × Marker)
  | [] => none
  | c :: cs =>
    match contentMarker (c :: cs) with
    | some (m, _) => some ([], m)
    | none => (firstMarker cs).map fun found => (c :: found.1, found.2)

/-- What stands outside the carriers, cut in the same way. Each character tells whether it is swallowed: from
a carrier that holds a marker not cut at, to the next closing bracket that no marker takes along. -/
def shownGroups (swallowing : Bool) (text : List Char) : List (List (Char × Bool)) :=
  match text with
  | [] => [[]]
  | c :: cs =>
    match opening (c :: cs) with
    | some p =>
      match findFrom [']'] (c :: cs) p.length with
      | none => [[]]
      | some stop =>
        match firstMarker ((c :: cs).take (stop + 1)) with
        | none => shownGroups false (cs.drop stop)
        | some (front, m) =>
          if cuts m then [] :: shownGroups false (cs.drop stop)
          else shownGroups (swallowing || front ≠ []) (cs.drop stop)
    | none => (shownGroups (swallowing && c ≠ ']') cs).modifyHead ((c, swallowing) :: ·)
termination_by text.length
decreasing_by
  all_goals
    simp only [List.length_drop, List.length_cons]
    omega

end

variable {cuts : Marker → Bool}

theorem modifyHead_nil {α : Type} (l : List (List α)) : l.modifyHead ([] ++ ·) = l := by
  cases l <;> rfl

theorem modifyHead_append {α : Type} (a b : List α) (l : List (List α)) :
    (l.modifyHead (b ++ ·)).modifyHead (a ++ ·) = l.modifyHead ((a ++ b) ++ ·) := by
  cases l with
  | nil => rfl
  | cons g gs => simp

theorem modifyHead_cons {α : Type} (a : List α) (c : α) (l : List (List α)) :
    (l.modifyHead (c :: ·)).modifyHead (a ++ ·) = l.modifyHead ((a ++ [c]) ++ ·) :=
  modifyHead_append a [c] l

variable {p text front : List Char}

theorem contentMarker_of_not_opening (h : opening text = none) :
    contentMarker text = none := by
  rw [contentMarker, h]

theorem contentMarker_of_open (h : ']' ∉ text) : contentMarker text = none := by
  rw [contentMarker]
  cases hopen : opening text with
  | none => rfl
  | some p => simp only [findFrom_open h]

theorem contentMarker_carrier (h : ']' ∉ front) (back : List Char) :
    contentMarker (front ++ ']' :: back) = contentMarker (front ++ [']']) ∧
      ∀ m len, contentMarker (front ++ [']']) = some (m, len) → len = front.length + 1 := by
  rw [contentMarker, contentMarker, opening_before_bracket, opening_before_bracket]
  cases hopen : opening front with
  | none => exact ⟨rfl, fun m len hnone => by cases hnone⟩
  | some p =>
    simp only [findFrom_bracket hopen h back, findFrom_bracket hopen h [], take_carrier,
      take_left, true_and]
    intro m len hmarker
    split at hmarker
    · split at hmarker
      · cases hmarker
      · cases Option.some.inj hmarker
        rfl
    · obtain ⟨ref, -, heq⟩ := Option.map_eq_some_iff.mp hmarker
      cases heq
      rfl

theorem groups_carrier (h : ']' ∉ front) (back : List Char) :
    groups cuts (front ++ ']' :: back) =
      match firstMarker (front ++ [']']) with
      | none => (groups cuts back).modifyHead ((front ++ [']']) ++ ·)
      | some (before, m) =>
        (if cuts m then [] :: groups cuts back else groups cuts back).modifyHead (before ++ ·) := by
  induction front with
  | nil =>
    have hnone : contentMarker (']' :: back) = none ∧ contentMarker [']'] = none := by
      constructor
      · apply contentMarker_of_not_opening
        exact opening_before_bracket [] back
      · exact contentMarker_of_not_opening (opening_before_bracket [] [])
    rw [nil_append, nil_append, groups, hnone.1, firstMarker, hnone.2]
    rfl
  | cons c cs ih =>
    obtain ⟨hsame, hlen⟩ := contentMarker_carrier h back
    rw [mem_cons, not_or] at h
    rw [cons_append] at hsame hlen ⊢
    rw [cons_append] at hsame ⊢
    rw [groups, firstMarker, hsame]
    cases hmarker : contentMarker (c :: (cs ++ [']'])) with
    | some found =>
      obtain ⟨m, len⟩ := found
      obtain rfl := hlen m len hmarker
      simp only [length_cons, Nat.add_sub_cancel, drop_carrier]
      rw [modifyHead_nil]
    | none =>
      simp only [ih h.2]
      cases firstMarker (cs ++ [']']) with
      | none => exact modifyHead_append [c] (cs ++ [']']) (groups cuts back)
      | some found =>
        exact modifyHead_append [c] found.1
          (if cuts found.2 then [] :: groups cuts back else groups cuts back)

theorem groups_cons {c : Char} {cs : List Char} (h : opening (c :: cs) = none) :
    groups cuts (c :: cs) = (groups cuts cs).modifyHead (c :: ·) := by
  rw [groups, contentMarker_of_not_opening h]

theorem groups_open (h : ']' ∉ text) : groups cuts text = [text] := by
  induction text with
  | nil => rw [groups]
  | cons c cs ih =>
    rw [groups, contentMarker_of_open h, ih fun hmem => h (mem_cons_of_mem c hmem)]
    rfl

theorem shownGroups_unclosed (hopen : opening text = some p) (h : ']' ∉ text) (swallowing : Bool)
    : shownGroups cuts swallowing text = [[]] := by
  cases text with
  | nil => rw [shownGroups]
  | cons c cs => rw [shownGroups, hopen]; simp only [findFrom_open h]

theorem shownGroups_carrier (hopen : opening front = some p) (h : ']' ∉ front) (swallowing : Bool)
    (back : List Char) :
    shownGroups cuts swallowing (front ++ ']' :: back) =
      match firstMarker (front ++ [']']) with
      | none => shownGroups cuts false back
      | some (before, m) =>
        if cuts m then [] :: shownGroups cuts false back
        else shownGroups cuts (swallowing || before ≠ []) back := by
  have hend := findFrom_bracket hopen h back
  have hall := take_carrier front back
  cases front with
  | nil => rw [opening_nil] at hopen; cases hopen
  | cons c cs =>
    rw [← opening_before_bracket _ back] at hopen
    rw [cons_append, length_cons] at hall
    rw [cons_append] at hopen hend
    rw [cons_append, shownGroups, hopen]
    simp only [hend, hall, length_cons, drop_carrier]

theorem shownGroups_cons {c : Char} {cs : List Char} (h : opening (c :: cs) = none) (swallowing : Bool) :
    shownGroups cuts swallowing (c :: cs) =
      (shownGroups cuts (swallowing && c ≠ ']') cs).modifyHead ((c, swallowing) :: ·) := by
  rw [shownGroups, h]

/-! ### What the cutting leaves -/

def spared (shown : List (Char × Bool)) : List Char := (shown.filter fun mark => !mark.2).map Prod.fst

def unmarked (text : List Char) : List (Char × Bool) := text.map fun c => (c, false)

theorem spared_append (a b : List (Char × Bool)) : spared (a ++ b) = spared a ++ spared b := by
  rw [spared, filter_append, map_append]
  rfl

theorem spared_unmarked (text : List Char) : spared (unmarked text) = text := by
  simp [spared, unmarked, filter_map, Function.comp_def]

/-- Cutting out what opens leaves no more of a text than what is spared, and all of that unless an opening
comes together in it. -/
structure Told (raw : List Char) (shown : List (Char × Bool)) : Prop where
  lost : (stripMalformed raw).Sublist (spared shown)
  same : Plain (spared shown) → stripMalformed raw = spared shown

theorem Told.of_eq {raw : List Char} {shown : List (Char × Bool)} (h : stripMalformed raw = spared shown) :
    Told raw shown :=
  ⟨h ▸ List.Sublist.refl _, fun _ => h⟩

theorem Told.congr {raw raw' : List Char} {shown shown' : List (Char × Bool)} (h : Told raw shown)
    (hraw : stripMalformed raw' = stripMalformed raw) (hshown : spared shown' = spared shown) :
    Told raw' shown' := by
  constructor
  · rw [hraw, hshown]
    exact h.lost
  · rw [hraw, hshown]
    exact h.same

theorem told_modifyHead {raws : List (List Char)} {showns : List (List (Char × Bool))}
    {f f' : List Char → List Char} {g g' : List (Char × Bool) → List (Char × Bool)}
    (h : List.Forall₂ Told (raws.modifyHead f) (showns.modifyHead g))
    (hstep : ∀ raw shown, Told (f raw) (g shown) → Told (f' raw) (g' shown)) :
    List.Forall₂ Told (raws.modifyHead f') (showns.modifyHead g') := by
  cases raws with
  | nil =>
    cases showns with
    | nil => exact .nil
    | cons m ms => cases h
  | cons raw raws =>
    cases showns with
    | nil => cases h
    | cons shown showns =>
      cases h with
      | cons hhead htail => exact .cons (hstep raw shown hhead) htail

theorem shownGroups_ne_nil (cuts : Marker → Bool) (swallowing : Bool) (text : List Char) :
    ∃ shown rest, shownGroups cuts swallowing text = shown :: rest := by
  induction text using carriers_induction generalizing swallowing with
  | nil => exact ⟨[], [], by rw [shownGroups]⟩
  | unclosed text p hopen h => exact ⟨[], [], shownGroups_unclosed hopen h swallowing⟩
  | carrier front back p hopen h ih =>
    rw [shownGroups_carrier hopen h]
    cases firstMarker (front ++ [']']) with
    | none => exact ih false
    | some found =>
      obtain ⟨before, m⟩ := found
      dsimp only
      split
      · exact ⟨_, _, rfl⟩
      · exact ih _
  | plain c cs hopen ih =>
    obtain ⟨shown, rest, h⟩ := ih (swallowing && c ≠ ']')
    rw [shownGroups_cons hopen, h]
    exact ⟨_, _, rfl⟩

theorem shownGroups_swallowing (cuts : Marker → Bool) (text : List Char) :
    ∃ shown shown' rest, shownGroups cuts true text = shown :: rest ∧
      shownGroups cuts false text = shown' :: rest ∧ (spared shown).Sublist (spared shown') := by
  have hsame : ∀ swallowing back, ∃ shown shown' rest, shownGroups cuts swallowing back = shown :: rest ∧
      shownGroups cuts swallowing back = shown' :: rest ∧ (spared shown).Sublist (spared shown') := by
    intro swallowing back
    obtain ⟨shown, rest, h⟩ := shownGroups_ne_nil cuts swallowing back
    exact ⟨shown, shown, rest, h, h, List.Sublist.refl _⟩
  induction text using carriers_induction with
  | nil => exact ⟨[], [], [], by rw [shownGroups], by rw [shownGroups], List.Sublist.refl _⟩
  | unclosed text p hopen h =>
    exact ⟨[], [], [], shownGroups_unclosed hopen h true, shownGroups_unclosed hopen h false,
      List.Sublist.refl _⟩
  | carrier front back p hopen h ih =>
    rw [shownGroups_carrier hopen h, shownGroups_carrier hopen h]
    cases firstMarker (front ++ [']']) with
    | none => exact hsame false back
    | some found =>
      obtain ⟨before, m⟩ := found
      dsimp only
      by_cases hcut : cuts m = true
      · rw [if_pos hcut, if_pos hcut]
        exact ⟨[], [], _, rfl, rfl, List.Sublist.refl _⟩
      · rw [if_neg hcut, if_neg hcut]
        by_cases hbefore : before = []
        · simpa [hbefore] using ih
        · simpa [hbefore] using hsame true back
  | plain c cs hopen ih =>
    rw [shownGroups_cons hopen, shownGroups_cons hopen]
    by_cases hc : c = ']'
    · obtain ⟨shown, rest, h⟩ := shownGroups_ne_nil cuts false cs
      refine ⟨(c, true) :: shown, (c, false) :: shown, rest, by simp [hc, h], by simp [h], ?_⟩
      exact sublist_cons_self c (spared shown)
    · obtain ⟨shown, shown', rest, htrue, hfalse, hless⟩ := ih
      refine ⟨(c, true) :: shown, (c, false) :: shown', rest, by simp [hc, htrue], by simp [hfalse], ?_⟩
      exact hless.trans (sublist_cons_self c (spared shown'))

theorem opening_append (h : opening front = some p) (back : List Char) :
    opening (front ++ back) = some p := by
  obtain ⟨hp, hbegin⟩ := opening_some h
  exact opening_eq hp (hbegin.trans (prefix_append front back))

theorem firstMarker_some {before : List Char} {m : Marker} (h : firstMarker text = some (before, m)) :
    ∃ rest p, text = before ++ rest ∧ opening rest = some p := by
  induction text generalizing before with
  | nil => cases h
  | cons c cs ih =>
    rw [firstMarker] at h
    cases hmarker : contentMarker (c :: cs) with
    | some found =>
      rw [hmarker] at h
      cases Option.some.inj h
      cases hopen : opening (c :: cs) with
      | none =>
        simp [contentMarker_of_not_opening hopen] at hmarker
      | some p => exact ⟨c :: cs, p, rfl, hopen⟩
    | none =>
      rw [hmarker] at h
      obtain ⟨⟨later, m'⟩, hlater, heq⟩ := Option.map_eq_some_iff.mp h
      cases heq
      obtain ⟨rest, p, rfl, hopen⟩ := ih hlater
      exact ⟨rest, p, rfl, hopen⟩

theorem firstMarker_carrier {before : List Char} {m : Marker} (hopen : opening front = some p)
    (h : ']' ∉ front) (hfound : firstMarker (front ++ [']']) = some (before, m)) :
    ']' ∉ before ∧ (before ≠ [] → opening before = some p) := by
  obtain ⟨rest, q, hsplit, hrest⟩ := firstMarker_some hfound
  obtain ⟨hp, hbegin⟩ := opening_some hopen
  obtain ⟨-, -, honce⟩ := opening_shape p hp
  obtain ⟨d, ds, rfl⟩ : ∃ d ds, rest = d :: ds := by
    cases rest with
    | nil => rw [opening_nil] at hrest; cases hrest
    | cons d ds => exact ⟨d, ds, rfl⟩
  obtain rfl := head_of_opening hrest
  have hbefore : before <+: front := by
    have hlen := congrArg List.length hsplit
    simp only [length_append, length_cons, length_nil] at hlen
    have hin : before <+: front ++ [']'] := ⟨_, hsplit.symm⟩
    exact prefix_of_prefix_length_le hin (prefix_append _ _) (by omega)
  refine ⟨fun hmem => h (hbefore.subset hmem), fun hne => opening_eq hp ?_⟩
  apply prefix_of_prefix_length_le hbegin hbefore
  -- a shorter front would put the bracket of the marker inside the opening
  by_contra hshort
  have hin : before ++ ['['] <+: p := by
    have hfirst : before ++ ['['] <+: front ++ [']'] :=
      ⟨ds, by rw [hsplit, append_assoc, singleton_append]⟩
    apply prefix_of_prefix_length_le hfirst (hbegin.trans (prefix_append _ _))
    rw [length_append, length_singleton]
    omega
  obtain ⟨beyond, hover⟩ := hin
  apply honce
  rw [← hover, append_assoc, tail_append_of_ne_nil hne]
  simp

theorem told_unmarked (h : Plain text) : Told text (unmarked text) :=
  .of_eq (by rw [spared_unmarked, stripMalformed_of_plain h])

theorem told_open {held : List Char} (hplain : Plain front) (hopen : opening held = some p) (h : ']' ∉ held)
    : Told (front ++ held) (unmarked front) :=
  .of_eq (by rw [spared_unmarked, stripMalformed_open hplain hopen h])

theorem split_of_not_plain {c : Char} (hplain : Plain front) (h : ¬ Plain (front ++ [c]))
    : ∃ start p, front ++ [c] = start ++ p ∧ p ∈ contentMarkerPrefixes := by
  simp only [Plain, not_forall, not_not] at h
  obtain ⟨p, hp, hbetween⟩ := h
  rcases List.infix_concat_iff.mp hbetween with ⟨start, hsuffix⟩ | hin
  · exact ⟨start, p, hsuffix.symm, hp⟩
  · exact absurd hin (hplain p hp)

/-- What the cutting leaves of the groups of a text, after a plain text and after one in which a carrier has
been opened whose bracket is lost. -/
theorem told_groups (cuts : Marker → Bool) (text : List Char) :
    (∀ front, Plain front →
      List.Forall₂ Told ((groups cuts text).modifyHead (front ++ ·))
        ((shownGroups cuts false text).modifyHead (unmarked front ++ ·))) ∧
    ∀ front held p, Plain front → opening held = some p → ']' ∉ held →
      List.Forall₂ Told ((groups cuts text).modifyHead ((front ++ held) ++ ·))
        ((shownGroups cuts true text).modifyHead (unmarked front ++ ·)) := by
  induction text using carriers_induction with
  | nil =>
    rw [groups, shownGroups, shownGroups]
    constructor
    · intro front hplain
      exact .cons (by simpa using told_unmarked hplain) .nil
    · intro front held p hplain hopen hheld
      exact .cons (by simpa using told_open hplain hopen hheld) .nil
  | unclosed text q hq hnone =>
    rw [groups_open hnone, shownGroups_unclosed hq hnone, shownGroups_unclosed hq hnone]
    constructor
    · intro front hplain
      exact .cons (by simpa using told_open hplain hq hnone) .nil
    · intro front held p hplain hopen hheld
      have hboth : ']' ∉ held ++ text := by simp [hheld, hnone]
      exact .cons (by simpa using told_open hplain (opening_append hopen text) hboth) .nil
  | carrier inner back q hq hinner ih =>
    obtain ⟨ihplain, ihheld⟩ := ih
    rw [groups_carrier hinner, shownGroups_carrier hq hinner, shownGroups_carrier hq hinner]
    cases hfound : firstMarker (inner ++ [']']) with
    | none =>
      constructor
      · intro front hplain
        rw [modifyHead_append]
        refine told_modifyHead (ihplain front hplain) fun raw shown htold => htold.congr ?_ rfl
        simpa using stripMalformed_closed hplain hq hinner raw
      · intro front held p hplain hopen hheld
        rw [modifyHead_append]
        refine told_modifyHead (ihplain front hplain) fun raw shown htold => htold.congr ?_ rfl
        have hboth : ']' ∉ held ++ inner := by simp [hheld, hinner]
        simpa using stripMalformed_closed hplain (opening_append hopen inner) hboth raw
    | some found =>
      obtain ⟨before, m⟩ := found
      obtain ⟨hbefore, hopens⟩ := firstMarker_carrier hq hinner hfound
      dsimp only
      by_cases hcut : cuts m = true
      · simp only [if_pos hcut]
        have hrest := ihplain [] plain_nil
        rw [modifyHead_nil, show unmarked [] = [] from rfl, modifyHead_nil] at hrest
        constructor
        · intro front hplain
          refine .cons ?_ hrest
          cases before with
          | nil => simpa using told_unmarked hplain
          | cons c cs => simpa using told_open hplain (hopens (cons_ne_nil c cs)) hbefore
        · intro front held p hplain hopen hheld
          have hboth : ']' ∉ held ++ before := by simp [hheld, hbefore]
          exact .cons (by simpa using told_open hplain (opening_append hopen before) hboth) hrest
      · simp only [if_neg hcut]
        constructor
        · intro front hplain
          rw [modifyHead_append]
          cases before with
          | nil => simpa using ihplain front hplain
          | cons c cs => simpa using ihheld front (c :: cs) q hplain (hopens (cons_ne_nil c cs)) hbefore
        · intro front held p hplain hopen hheld
          have hboth : ']' ∉ held ++ before := by simp [hheld, hbefore]
          rw [modifyHead_append, append_assoc, Bool.true_or]
          exact ihheld front (held ++ before) p hplain (opening_append hopen before) hboth
  | plain c cs hnone ih =>
    obtain ⟨ihplain, ihheld⟩ := ih
    rw [groups_cons hnone, shownGroups_cons hnone, shownGroups_cons hnone]
    constructor
    · intro front hplain
      rw [modifyHead_cons, modifyHead_cons, Bool.false_and]
      have hunmarked : unmarked front ++ [(c, false)] = unmarked (front ++ [c]) := by simp [unmarked]
      rw [hunmarked]
      by_cases hstill : Plain (front ++ [c])
      · exact ihplain (front ++ [c]) hstill
      · -- the character completes an opening, and all up to the next bracket is cut out with it
        obtain ⟨start, p, hsplit, hp⟩ := split_of_not_plain hplain hstill
        have hstart : Plain start := by
          have hlen := congrArg List.length hsplit
          have hpos := List.length_pos_iff.mpr (opening_ne_nil hp)
          simp only [length_append, length_singleton] at hlen
          have hin : start <+: front ++ [c] := ⟨p, hsplit.symm⟩
          have hfirst : start <+: front :=
            prefix_of_prefix_length_le hin (prefix_append _ _) (by omega)
          exact hplain.of_infix hfirst.isInfix
        have hcut := ihheld start p p hstart (opening_eq hp prefix_rfl) (opening_chars p hp).1
        obtain ⟨shown, shown', rest, htrue, hfalse, hless⟩ := shownGroups_swallowing cuts cs
        rw [htrue] at hcut
        rw [hsplit, hfalse]
        cases hgroups : groups cuts cs with
        | nil =>
          simp [hgroups] at hcut
        | cons raw raws =>
          rw [hgroups] at hcut
          cases hcut with
          | cons hhead htail =>
            refine .cons ⟨hhead.lost.trans ?_, fun hbad => ?_⟩ htail
            · rw [spared_append, spared_append, spared_unmarked, spared_unmarked, append_assoc]
              apply List.Sublist.append_left
              exact hless.trans (sublist_append_right p (spared shown'))
            · apply absurd _ (hbad p hp)
              rw [spared_append, spared_unmarked]
              exact infix_append start p (spared shown')
    · intro front held p hplain hopen hheld
      rw [modifyHead_cons, modifyHead_cons]
      by_cases hc : c = ']'
      · obtain rfl := hc
        have hfalse : (true && decide (']' ≠ ']')) = false := by decide
        rw [hfalse]
        refine told_modifyHead (ihplain front hplain) fun raw shown htold => htold.congr ?_ ?_
        · simpa using stripMalformed_closed hplain hopen hheld raw
        · simp [spared]
      · have htrue : (true && decide (c ≠ ']')) = true := by simp [hc]
        have hlonger : ']' ∉ held ++ [c] := by simp [hheld, Ne.symm hc]
        rw [htrue]
        refine told_modifyHead (ihheld front (held ++ [c]) p hplain (opening_append hopen [c]) hlonger)
          fun raw shown htold => htold.congr ?_ ?_
        · rw [append_assoc front held [c]]
        · simp [spared]

end OpenAgent.Stream
