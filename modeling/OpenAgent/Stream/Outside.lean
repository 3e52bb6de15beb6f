import OpenAgent.Stream.Contents

/-!
# What stands outside the carriers

A carrier runs from an opening to the next closing bracket, or to the end of the text where none comes. The
filter of the stream shows exactly what stands outside all carriers. The pattern for whole markers and the
cutting of what only opens one are told by the same decomposition of a text: into plain characters, carriers
that are closed, and perhaps one at the end that is not.
-/

namespace OpenAgent.Stream

open Lib List

/-! ### Taking a text apart -/

theorem opening_chars : ∀ p ∈ contentMarkerPrefixes, ']' ∉ p ∧ ∀ c ∈ p, isSpace c = false := by
  have hall : contentMarkerPrefixes.all (fun p => p.all fun c => c ≠ ']' && !isSpace c) = true := by
    rfl
  intro p hp
  have hchars : ∀ c ∈ p, c ≠ ']' ∧ isSpace c = false := by
    simpa using List.all_eq_true.mp hall p hp
  exact ⟨fun hmem => (hchars _ hmem).1 rfl, fun c hc => (hchars c hc).2⟩

theorem opening_nil : opening [] = none := by
  rfl

variable {p cs text front : List Char}

theorem opening_ne_nil (h : p ∈ contentMarkerPrefixes) : p ≠ [] := by
  obtain ⟨-, hhead, -⟩ := opening_shape p h
  rintro rfl
  cases hhead

theorem head_of_opening {c : Char} (h : opening (c :: cs) = some p) : c = '[' := by
  obtain ⟨hp, back, hback⟩ := opening_some h
  obtain ⟨-, hhead, -⟩ := opening_shape p hp
  cases p with
  | nil => cases hhead
  | cons d ds =>
    rw [cons_append] at hback
    obtain ⟨hd, -⟩ := List.cons.inj hback
    rw [← hd]
    exact Option.some.inj hhead

theorem opening_before_bracket (front back : List Char) :
    opening (front ++ ']' :: back) = opening front := by
  cases hopen : opening (front ++ ']' :: back) with
  | none =>
    cases hfront : opening front with
    | none => rfl
    | some p =>
      obtain ⟨hp, hbegin⟩ := opening_some hfront
      exact absurd (hbegin.trans (prefix_append _ _)) (opening_none hopen hp)
  | some p =>
    obtain ⟨hp, hbegin⟩ := opening_some hopen
    symm
    apply opening_eq hp
    rcases le_or_gt p.length front.length with hle | hgt
    · exact prefix_of_prefix_length_le hbegin (prefix_append _ _) hle
    · have hlonger : front ++ [']'] <+: p := by
        apply prefix_of_prefix_length_le _ hbegin
        · rw [length_append, length_singleton]
          omega
        · exact ⟨back, by rw [append_assoc, singleton_append]⟩
      have hmem : ']' ∈ p := hlonger.subset (by simp)
      exact absurd hmem (opening_chars p hp).1

theorem find_bracket (h : ']' ∉ front) (back : List Char) :
    find [']'] (front ++ ']' :: back) = some front.length := by
  induction front with
  | nil => rfl
  | cons c cs ih =>
    rw [mem_cons, not_or] at h
    rw [cons_append, find, if_neg, ih h.2]
    · rfl
    · simpa [List.isPrefixOf] using h.1

theorem find_bracket_none : find [']'] text = none ↔ ']' ∉ text := by
  constructor
  · intro h hmem
    obtain ⟨i, hi⟩ := mem_iff_getElem?.mp hmem
    obtain ⟨hlt, hget⟩ := List.getElem?_eq_some_iff.mp hi
    apply find_none h i hlt.le
    rw [drop_eq_getElem_cons hlt, hget]
    exact ⟨_, rfl⟩
  · intro h
    cases hfound : find [']'] text with
    | none => rfl
    | some i =>
      obtain ⟨hbegin, -, -⟩ := find_some hfound
      exact absurd (mem_of_mem_drop (hbegin.subset (mem_singleton_self _))) h

theorem findFrom_bracket (hopen : opening front = some p) (h : ']' ∉ front) (back : List Char)
    : findFrom [']'] (front ++ ']' :: back) p.length = some front.length := by
  obtain ⟨-, hbegin⟩ := opening_some hopen
  have hle := hbegin.length_le
  have hrest : ']' ∉ front.drop p.length := fun hmem => h (mem_of_mem_drop hmem)
  rw [findFrom, drop_append_of_le_length hle, find_bracket hrest, Option.map_some, length_drop]
  congr 1
  omega

theorem findFrom_open (h : ']' ∉ text) : findFrom [']'] text p.length = none := by
  rw [findFrom, Option.map_eq_none_iff, find_bracket_none]
  exact fun hmem => h (mem_of_mem_drop hmem)

theorem drop_carrier (front back : List Char) : (front ++ ']' :: back).drop (front.length + 1) = back := by
  rw [drop_length_add_append, drop_one, tail_cons]

theorem take_carrier (front back : List Char) :
    (front ++ ']' :: back).take (front.length + 1) = front ++ [']'] := by
  rw [take_length_add_append]
  rfl

@[elab_as_elim]
theorem carriers_induction {motive : List Char → Prop} (nil : motive [])
    (unclosed : ∀ text p, opening text = some p → ']' ∉ text → motive text)
    (carrier : ∀ front back p, opening front = some p → ']' ∉ front → motive back →
      motive (front ++ ']' :: back))
    (plain : ∀ c cs, opening (c :: cs) = none → motive cs → motive (c :: cs)) (text : List Char) :
    motive text := by
  induction hlen : text.length using Nat.strong_induction_on generalizing text with
  | _ n ih =>
    cases text with
    | nil => exact nil
    | cons c cs =>
      cases hopen : opening (c :: cs) with
      | none => exact plain c cs hopen (ih cs.length (by rw [← hlen, length_cons]; omega) cs rfl)
      | some p =>
        by_cases hmem : ']' ∈ c :: cs
        · obtain ⟨front, back, hsplit, hfirst⟩ := eq_append_cons_of_mem hmem
          rw [hsplit] at hopen hlen ⊢
          rw [opening_before_bracket] at hopen
          refine carrier front back p hopen hfirst (ih back.length ?_ back rfl)
          rw [← hlen, length_append, length_cons]
          omega
        · exact unclosed _ p hopen hmem

/-! ### Outside the carriers -/

def outside (text : List Char) : List Char :=
  match text with
  | [] => []
  | c :: cs =>
    match opening (c :: cs) with
    | some p =>
      match findFrom [']'] (c :: cs) p.length with
      | none => []
      | some stop => outside (cs.drop stop)
    | none => c :: outside cs
termination_by text.length
decreasing_by
  · simp only [List.length_drop, List.length_cons]
    omega
  · simp only [List.length_cons]
    omega

attribute [local simp] outside

theorem outside_nil : outside [] = [] := by
  rw [outside]

theorem outside_unclosed (hopen : opening text = some p) (h : ']' ∉ text) :
    outside text = [] := by
  cases text with
  | nil => exact outside_nil
  | cons c cs => rw [outside, hopen]; simp only [findFrom_open h]

theorem outside_carrier (hopen : opening front = some p) (h : ']' ∉ front) (back : List Char)
    : outside (front ++ ']' :: back) = outside back := by
  have hend := findFrom_bracket hopen h back
  cases front with
  | nil => rw [opening_nil] at hopen; cases hopen
  | cons c cs =>
    rw [← opening_before_bracket _ back] at hopen
    rw [cons_append] at hopen hend ⊢
    rw [outside, hopen]
    simp only [hend, length_cons, drop_carrier]

theorem outside_cons {c : Char} (h : opening (c :: cs) = none) :
    outside (c :: cs) = c :: outside cs := by
  rw [outside, h]

def Plain (text : List Char) : Prop := ∀ p ∈ contentMarkerPrefixes, ¬ p <:+: text

theorem Plain.of_infix {whole : List Char} (h : Plain whole) (hbetween : text <:+: whole) : Plain text :=
  fun p hp hin => h p hp (hin.trans hbetween)

theorem plain_nil : Plain [] := by
  intro p hp hbetween
  exact opening_ne_nil hp (List.infix_nil.mp hbetween)

theorem Plain.opening_drop (h : Plain text) (i : Nat) : opening (text.drop i) = none := by
  cases hopen : opening (text.drop i) with
  | none => rfl
  | some p =>
    obtain ⟨hp, hbegin⟩ := opening_some hopen
    exact absurd (hbegin.isInfix.trans (drop_suffix i text).isInfix) (h p hp)

theorem plain_of_opening (h : ∀ i, i ≤ text.length → opening (text.drop i) = none) :
    Plain text := by
  rintro p hp ⟨front, back, hsplit⟩
  apply opening_none (h front.length _) hp
  · rw [← hsplit, append_assoc, drop_left]
    exact prefix_append p back
  · rw [← hsplit, append_assoc, length_append]
    omega

theorem Plain.tail {c : Char} (h : Plain (c :: cs)) : Plain cs :=
  h.of_infix (suffix_cons c cs).isInfix

theorem outside_of_plain (h : Plain text) : outside text = text := by
  induction text with
  | nil => exact outside_nil
  | cons c cs ih =>
    have hopen : opening (c :: cs) = none := h.opening_drop 0
    rw [outside_cons hopen, ih h.tail]

def shownAtEnd (text : List Char) : List Char :=
  (read 2048 text).visible ++ (ContentMarkerStreamFilter.holding text).finish.2

theorem shownAtEnd_after {rest : List Char} {visible : List Char} {refs : List UiRef}
    (h : read 2048 text = (read 2048 rest).after visible refs) :
    shownAtEnd text = visible ++ shownAtEnd rest := by
  rw [shownAtEnd, shownAtEnd, ContentMarkerStreamFilter.holding, ContentMarkerStreamFilter.holding, h,
    ← append_assoc]
  cases hdrop : (read 2048 rest).discarding with
  | true => simp [Scan.after, ContentMarkerStreamFilter.finish, hdrop]
  | false => simp [Scan.after, ContentMarkerStreamFilter.finish, hdrop]

theorem shownAtEnd_eq (text : List Char) : shownAtEnd text = outside text := by
  induction text using carriers_induction with
  | nil =>
    rw [outside_nil, shownAtEnd, ContentMarkerStreamFilter.holding, read]
    rfl
  | unclosed text p hopen hnone =>
    obtain ⟨hp, hbegin⟩ := opening_some hopen
    have hhidden : (contentMarkerPrefixes.any fun q => q.isPrefixOf text) = true :=
      List.any_eq_true.mpr ⟨p, hp, List.isPrefixOf_iff_prefix.mpr hbegin⟩
    rw [outside_unclosed hopen hnone, shownAtEnd, ContentMarkerStreamFilter.holding,
      read_of_open hopen (findFrom_open hnone)]
    split
    · simp [ContentMarkerStreamFilter.finish, hhidden]
    · simp [ContentMarkerStreamFilter.finish]
  | carrier front back p hopen hnone ih =>
    have hread : read 2048 (front ++ ']' :: back) = _ := read_of_closed
      (by rw [opening_before_bracket, hopen]) (findFrom_bracket hopen hnone back)
    rw [drop_carrier] at hread
    rw [outside_carrier hopen hnone, shownAtEnd_after hread, ih, nil_append]
  | plain c cs hopen ih =>
    cases hmay : mayOpen (c :: cs) with
    | false =>
      rw [outside_cons hopen, shownAtEnd_after (read_cons hopen hmay), ih]
      rfl
    | true =>
      -- nothing opens in what is held back, so the end releases all of it
      have hplain : Plain (c :: cs) := by
        apply plain_of_opening
        intro i _
        cases i with
        | zero => exact hopen
        | succ i => exact opening_drop_of_mayOpen hmay (Nat.succ_pos i)
      have hshown : (contentMarkerPrefixes.any fun q => q.isPrefixOf (c :: cs)) = false := by
        rw [any_eq_false]
        intro q hq hfront
        exact opening_none hopen hq (List.isPrefixOf_iff_prefix.mp hfront)
      rw [outside_of_plain hplain, shownAtEnd, ContentMarkerStreamFilter.holding,
        read_of_mayOpen hopen hmay]
      simp [ContentMarkerStreamFilter.finish, hshown]

theorem run_visible (chunks : List (List Char)) :
    (({} : ContentMarkerStreamFilter).run chunks).1 = outside chunks.flatten := by
  rw [run_eq, ← shownAtEnd_eq]
  rfl

/-! ### Cutting out what opens -/

theorem stripMalformed_of_plain (h : Plain text) : stripMalformed text = text := by
  rw [stripMalformed]
  split
  · rfl
  · rename_i start p hnext
    obtain ⟨hopen, -, -⟩ := nextMarker_some hnext
    simp [h.opening_drop start] at hopen

theorem stripMalformed_of_next {value : List Char} {start : Nat} (h : nextMarker value = some (start, p)) :
    stripMalformed value =
      match findFrom [']'] value (start + p.length) with
      | none => stripMalformed (value.take start)
      | some stop => stripMalformed (value.take start ++ value.drop (stop + 1)) := by
  rw [stripMalformed]
  split
  · rename_i hnone
    simp [h] at hnone
  · rename_i start' p' hsome
    rw [h] at hsome
    cases Option.some.inj hsome
    split
    · rename_i hend
      rw [hend]
    · rename_i stop hend
      rw [hend]

theorem plain_stripMalformed (text : List Char) : Plain (stripMalformed text) := by
  induction text using stripMalformed.induct with
  | case1 text hnext =>
    have hplain : Plain text := plain_of_opening fun i hi => nextMarker_none hnext i hi
    rwa [stripMalformed_of_plain hplain]
  | case2 text start p hnext hend ih =>
    rw [stripMalformed_of_next hnext, hend]
    exact ih
  | case3 text start p hnext stop hend ih =>
    rw [stripMalformed_of_next hnext, hend]
    exact ih

theorem opening_within {front back : List Char} (hplain : Plain front) (hback : back.head? = some '[')
    {i : Nat} (hi : i < front.length) : opening ((front ++ back).drop i) = none := by
  cases hopen : opening ((front ++ back).drop i) with
  | none => rfl
  | some p =>
    obtain ⟨hp, hbegin⟩ := opening_some hopen
    rw [drop_append_of_le_length hi.le] at hbegin
    rcases le_or_gt p.length (front.drop i).length with hle | hgt
    · have hin := prefix_of_prefix_length_le hbegin (prefix_append _ _) hle
      exact absurd (hin.isInfix.trans (drop_suffix i front).isInfix) (hplain p hp)
    · -- the opening would hold the bracket that the rest begins with
      obtain ⟨-, -, honce⟩ := opening_shape p hp
      obtain ⟨beyond, hover⟩ := prefix_of_prefix_length_le (prefix_append _ _) hbegin hgt.le
      have hne : front.drop i ≠ [] := by
        rw [ne_eq, drop_eq_nil_iff]
        omega
      have hover' : beyond ≠ [] := by
        rintro rfl
        rw [append_nil] at hover
        rw [hover] at hgt
        omega
      rw [← hover, prefix_append_right_inj] at hbegin
      have hhead : '[' ∈ beyond := by
        obtain ⟨d, ds, rfl⟩ := exists_cons_of_ne_nil hover'
        obtain ⟨tail, htail⟩ := hbegin
        rw [← htail, cons_append, head?_cons] at hback
        rw [Option.some.inj hback]
        exact mem_cons_self
      apply absurd _ honce
      rw [← hover, tail_append_of_ne_nil hne]
      exact mem_append_right _ hhead

theorem nextMarker_append {back : List Char} (hplain : Plain front) (hopen : opening back = some p) :
    nextMarker (front ++ back) = some (front.length, p) := by
  have hhead : back.head? = some '[' := by
    cases back with
    | nil => rw [opening_nil] at hopen; cases hopen
    | cons c cs => rw [head?_cons, head_of_opening hopen]
  have hthere : opening ((front ++ back).drop front.length) = some p := by rw [drop_left, hopen]
  cases hnext : nextMarker (front ++ back) with
  | none =>
    rw [nextMarker_none hnext front.length (by rw [length_append]; omega)] at hthere
    cases hthere
  | some found =>
    obtain ⟨start, q⟩ := found
    obtain ⟨hq, -, hfirst⟩ := nextMarker_some hnext
    have hstart : start = front.length := by
      rcases lt_trichotomy start front.length with hlt | heq | hgt
      · simp [opening_within hplain hhead hlt] at hq
      · exact heq
      · rw [hfirst front.length hgt] at hthere
        cases hthere
    rw [hstart, hthere] at hq
    rw [hstart, Option.some.inj hq]

theorem stripMalformed_open {back : List Char} (hplain : Plain front) (hopen : opening back = some p)
    (h : ']' ∉ back) : stripMalformed (front ++ back) = front := by
  have hend : findFrom [']'] (front ++ back) (front.length + p.length) = none := by
    rw [findFrom, Option.map_eq_none_iff, find_bracket_none, drop_length_add_append]
    exact fun hmem => h (mem_of_mem_drop hmem)
  rw [stripMalformed_of_next (nextMarker_append hplain hopen), hend]
  simp only [take_left]
  exact stripMalformed_of_plain hplain

theorem stripMalformed_closed {carrier : List Char} (hplain : Plain front)
    (hopen : opening carrier = some p) (h : ']' ∉ carrier) (back : List Char) :
    stripMalformed (front ++ (carrier ++ ']' :: back)) = stripMalformed (front ++ back) := by
  have hend : findFrom [']'] (front ++ (carrier ++ ']' :: back)) (front.length + p.length) =
      some (front.length + carrier.length) := by
    have hcarrier := findFrom_bracket hopen h back
    rw [findFrom, Option.map_eq_some_iff] at hcarrier ⊢
    obtain ⟨i, hi, hlen⟩ := hcarrier
    refine ⟨i, ?_, by omega⟩
    rw [drop_length_add_append]
    exact hi
  have hnext : nextMarker (front ++ (carrier ++ ']' :: back)) = some (front.length, p) :=
    nextMarker_append hplain (by rw [opening_before_bracket, hopen])
  rw [stripMalformed_of_next hnext, hend]
  simp only [take_left]
  rw [Nat.add_assoc, drop_length_add_append, drop_carrier]

end OpenAgent.Stream
