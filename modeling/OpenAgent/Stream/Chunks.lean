import OpenAgent.Stream.Markers
import Mathlib.Data.List.Find

/-!
# Cutting a stream anywhere

Scanning goes from one marker to the next. The same result comes from reading one character at a time:
at each place either a marker opens, or the rest might still become the opening of one, or the character
is shown. Read so, the result for a text that goes on is the result for what was held back and what
follows.
-/

namespace OpenAgent.Stream

open Lib List Bool

/-! ### Openings -/

def opening (text : List Char) : Option (List Char) :=
  contentMarkerPrefixes.find? fun p => p.isPrefixOf text

def mayOpen (text : List Char) : Bool := contentMarkerPrefixes.any fun p => text.isPrefixOf p

theorem opening_shape : ∀ p ∈ contentMarkerPrefixes,
    p.length ≤ 14 ∧ p.head? = some '[' ∧ '[' ∉ p.tail := by
  decide

theorem openings_apart : ∀ p ∈ contentMarkerPrefixes, ∀ q ∈ contentMarkerPrefixes,
    p.isPrefixOf q = true → p = q := by
  decide

variable {p text value : List Char}

theorem opening_some (h : opening text = some p) :
    p ∈ contentMarkerPrefixes ∧ p <+: text := by
  constructor
  · exact mem_of_find?_eq_some h
  · have hfront := find?_some h
    exact List.isPrefixOf_iff_prefix.mp hfront

theorem opening_none (h : opening text = none) (hp : p ∈ contentMarkerPrefixes) :
    ¬ p <+: text := by
  intro hfront
  apply List.find?_eq_none.mp h p hp
  exact List.isPrefixOf_iff_prefix.mpr hfront

theorem opening_eq (hp : p ∈ contentMarkerPrefixes) (h : p <+: text) :
    opening text = some p := by
  cases hopen : opening text with
  | none => exact absurd h (opening_none hopen hp)
  | some q =>
    obtain ⟨hq, hfront⟩ := opening_some hopen
    congr 1
    rcases le_total p.length q.length with hle | hle
    · have hpq := prefix_of_prefix_length_le h hfront hle
      exact (openings_apart p hp q hq (List.isPrefixOf_iff_prefix.mpr hpq)).symm
    · have hqp := prefix_of_prefix_length_le hfront h hle
      exact openings_apart q hq p hp (List.isPrefixOf_iff_prefix.mpr hqp)

theorem mayOpen_iff : mayOpen text = true ↔ ∃ p ∈ contentMarkerPrefixes, text <+: p := by
  simp [mayOpen]

theorem opening_drop_of_mayOpen (h : mayOpen text = true) {i : Nat} (hi : 0 < i) :
    opening (text.drop i) = none := by
  cases hopen : opening (text.drop i) with
  | none => rfl
  | some q =>
    obtain ⟨hq, hfront⟩ := opening_some hopen
    obtain ⟨p, hp, hpre⟩ := mayOpen_iff.mp h
    obtain ⟨-, hhead, -⟩ := opening_shape q hq
    obtain ⟨-, -, honce⟩ := opening_shape p hp
    have hmem : '[' ∈ text.drop i := hfront.subset (mem_of_head? hhead)
    have htail : '[' ∈ p.drop i := (hpre.drop i).subset hmem
    have hsub : p.drop i ⊆ p.tail := by
      rw [← drop_one]
      exact (drop_sublist_drop_left p hi).subset
    exact absurd (hsub htail) honce

theorem length_of_mayOpen (hopen : opening text = none) (h : mayOpen text = true) :
    text.length ≤ 13 := by
  obtain ⟨p, hp, hpre⟩ := mayOpen_iff.mp h
  obtain ⟨hlen, -, -⟩ := opening_shape p hp
  have hle := hpre.length_le
  have hne : text.length ≠ p.length := by
    intro heq
    apply opening_none hopen hp
    rw [hpre.eq_of_length heq]
  omega

/-! ### Reading one character at a time -/

def read (limit : Nat) (text : List Char) : Scan :=
  match text with
  | [] => ⟨[], [], [], false⟩
  | c :: cs =>
    match opening (c :: cs) with
    | some p =>
      match findFrom [']'] (c :: cs) p.length with
      | none => if (c :: cs).length ≤ limit then ⟨[], c :: cs, [], false⟩ else ⟨[], [], [], true⟩
      | some stop =>
        (read limit (cs.drop stop)).after [] (markerRefs p ((c :: cs).take (stop + 1)))
    | none =>
      if mayOpen (c :: cs) then ⟨[], c :: cs, [], false⟩ else (read limit cs).after [c] []
termination_by text.length
decreasing_by
  · simp only [List.length_drop, List.length_cons]
    omega
  · simp only [List.length_cons]
    omega

theorem Scan.after_after (s : Scan) (v w : List Char) (r t : List UiRef) :
    (s.after v r).after w t = s.after (w ++ v) (t ++ r) := by
  simp [Scan.after]

theorem Scan.after_nil (s : Scan) : s.after [] [] = s := by
  simp [Scan.after]

variable {limit : Nat}

theorem read_of_mayOpen (hopen : opening text = none) (h : mayOpen text = true)
    : read limit text = ⟨[], text, [], false⟩ := by
  cases text with
  | nil => rw [read]
  | cons c cs => rw [read, hopen]; simp only [h, if_true]

theorem read_cons {c : Char} {cs : List Char} (hopen : opening (c :: cs) = none)
    (h : mayOpen (c :: cs) = false) : read limit (c :: cs) = (read limit cs).after [c] [] := by
  rw [read, hopen]
  simp only [h, false_eq_true, if_false]

theorem read_of_open (hopen : opening text = some p) (hend : findFrom [']'] text p.length = none) :
    read limit text = if text.length ≤ limit then ⟨[], text, [], false⟩ else ⟨[], [], [], true⟩ := by
  cases text with
  | nil => rw [show opening [] = none from rfl] at hopen; cases hopen
  | cons c cs => rw [read, hopen]; simp only [hend]

theorem read_of_closed {stop : Nat} (hopen : opening text = some p)
    (hend : findFrom [']'] text p.length = some stop) :
    read limit text =
      (read limit (text.drop (stop + 1))).after [] (markerRefs p (text.take (stop + 1))) := by
  cases text with
  | nil => rw [show opening [] = none from rfl] at hopen; cases hopen
  | cons c cs => rw [read, hopen]; simp only [hend, drop_succ_cons]

/-! ### Scanning is reading -/

theorem nextMarker_none (h : nextMarker value = none) (i : Nat) (hi : i ≤ value.length)
    : opening (value.drop i) = none := by
  cases hopen : opening (value.drop i) with
  | none => rfl
  | some p =>
    obtain ⟨hp, hfront⟩ := opening_some hopen
    rw [nextMarker, leastBy_eq_none, filterMap_eq_nil_iff] at h
    have hnone := h p hp
    rw [Option.map_eq_none_iff] at hnone
    exact absurd hfront (find_none hnone i hi)

theorem nextMarker_some {start : Nat} (h : nextMarker value = some (start, p)) :
    opening (value.drop start) = some p ∧ start ≤ value.length ∧
      ∀ i, i < start → opening (value.drop i) = none := by
  have hmem := leastBy_mem h
  obtain ⟨q, hq, hfind⟩ := List.mem_filterMap.mp hmem
  obtain ⟨i, hi, heq⟩ := Option.map_eq_some_iff.mp hfind
  cases heq
  obtain ⟨hfront, hle, -⟩ := find_some hi
  refine ⟨opening_eq hq hfront, hle, ?_⟩
  intro j hj
  cases hopen : opening (value.drop j) with
  | none => rfl
  | some r =>
    obtain ⟨hr, hfirst⟩ := opening_some hopen
    cases hfound : find r value with
    | none => exact absurd hfirst (find_none hfound j (by omega))
    | some k =>
      obtain ⟨-, -, hleast⟩ := find_some hfound
      have hkj : k ≤ j := by
        by_contra hlt
        exact hleast j (by omega) hfirst
      have hmin := leastBy_le h (List.mem_filterMap.mpr ⟨r, hr, by rw [hfound]; rfl⟩)
      simp only at hmin
      omega

theorem read_skip {start : Nat} (hopen : opening (value.drop start) = some p)
    (hnone : ∀ i, i < start → opening (value.drop i) = none) :
    read limit value = (read limit (value.drop start)).after (value.take start) [] := by
  induction start generalizing value with
  | zero => rw [drop_zero, take_zero, Scan.after_nil]
  | succ n ih =>
    cases value with
    | nil =>
      rw [drop_nil, show opening [] = none from rfl] at hopen
      cases hopen
    | cons c cs =>
      have hfirst : opening (c :: cs) = none := hnone 0 (by omega)
      have hmay : mayOpen (c :: cs) = false := by
        apply Bool.eq_false_iff.mpr
        intro h
        rw [opening_drop_of_mayOpen h (Nat.succ_pos n)] at hopen
        cases hopen
      rw [read_cons hfirst hmay, ih hopen fun i hi => hnone (i + 1) (by omega), Scan.after_after]
      rfl

/-- The sizes up to `n`, the largest first. -/
def sizesDown (n : Nat) : List Nat := ((List.range n).map (· + 1)).reverse

theorem sizesDown_succ (n : Nat) : sizesDown (n + 1) = (n + 1) :: sizesDown n := by
  simp [sizesDown, range_succ]

theorem mem_sizesDown {n size : Nat} (h : size ∈ sizesDown n) : 0 < size ∧ size ≤ n := by
  simp only [sizesDown, mem_reverse, mem_map, mem_range] at h
  obtain ⟨k, hk, rfl⟩ := h
  omega

theorem partialPrefixLen_eq (value : List Char) :
    partialPrefixLen value =
      ((sizesDown (min value.length 13)).find? fun size =>
        mayOpen (value.drop (value.length - size))).getD 0 := by
  rfl

theorem partialPrefixLen_cons {c : Char} {cs : List Char} (hopen : opening (c :: cs) = none) :
    partialPrefixLen (c :: cs) = if mayOpen (c :: cs) then (c :: cs).length else partialPrefixLen cs := by
  have hstep : ∀ n, n ≤ cs.length → ((sizesDown n).find? fun size =>
      mayOpen ((c :: cs).drop ((c :: cs).length - size))) =
        (sizesDown n).find? fun size => mayOpen (cs.drop (cs.length - size)) := by
    intro n hn
    apply find?_congr
    intro size hsize
    have hle := mem_sizesDown hsize
    rw [length_cons, show cs.length + 1 - size = (cs.length - size) + 1 by omega,
      drop_succ_cons]
  rw [partialPrefixLen_eq, partialPrefixLen_eq]
  by_cases hshort : cs.length + 1 ≤ 13
  · rw [length_cons, min_eq_left hshort, min_eq_left (by omega : cs.length ≤ 13), sizesDown_succ,
      find?_cons, Nat.sub_self, drop_zero]
    cases hmay : mayOpen (c :: cs) with
    | true => rfl
    | false => simpa using congrArg (fun o => o.getD 0) (hstep cs.length (le_refl _))
  · have hmay : mayOpen (c :: cs) = false := by
      apply Bool.eq_false_iff.mpr
      intro h
      have hlen := length_of_mayOpen hopen h
      rw [length_cons] at hlen
      omega
    rw [hmay, length_cons, min_eq_right (by omega : 13 ≤ cs.length + 1),
      min_eq_right (by omega : 13 ≤ cs.length), ← hstep 13 (by omega)]
    rfl

theorem partialPrefixLen_le (value : List Char) : partialPrefixLen value ≤ value.length := by
  rw [partialPrefixLen_eq]
  cases hfind : (sizesDown (min value.length 13)).find? fun size =>
      mayOpen (value.drop (value.length - size)) with
  | none => exact Nat.zero_le _
  | some size =>
    have hle := mem_sizesDown (mem_of_find?_eq_some hfind)
    rw [Option.getD_some]
    omega

theorem read_plain (h : ∀ i, i ≤ value.length → opening (value.drop i) = none) :
    read limit value = ⟨value.take (value.length - partialPrefixLen value),
      value.drop (value.length - partialPrefixLen value), [], false⟩ := by
  induction value with
  | nil => rw [read]; rfl
  | cons c cs ih =>
    have hopen : opening (c :: cs) = none := h 0 (Nat.zero_le _)
    rw [partialPrefixLen_cons hopen]
    cases hmay : mayOpen (c :: cs) with
    | true => simp [read_of_mayOpen hopen hmay]
    | false =>
      have hle := partialPrefixLen_le cs
      have hrest := ih fun i hi => h (i + 1) (by simpa using hi)
      rw [read_cons hopen hmay, hrest]
      simp only [false_eq_true, if_false, length_cons, Scan.after]
      rw [show cs.length + 1 - partialPrefixLen cs = (cs.length - partialPrefixLen cs) + 1 by omega]
      rfl

theorem scan_eq_read (limit : Nat) (data : List Char) : scan limit data = read limit data := by
  induction hlen : data.length using Nat.strong_induction_on generalizing data with
  | _ n ih =>
    rw [scan]
    split
    · rename_i hempty
      rw [hempty, read]
    · rename_i hne
      cases hnext : nextMarker data with
      | none => exact (read_plain fun i hi => nextMarker_none hnext i hi).symm
      | some found =>
        obtain ⟨start, p⟩ := found
        obtain ⟨hopen, -, hbefore⟩ := nextMarker_some hnext
        rw [read_skip hopen hbefore]
        cases hend : findFrom [']'] (data.drop start) p.length with
        | none =>
          rw [read_of_open hopen hend]
          simp only [hend]
          split <;> simp [Scan.after]
        | some stop =>
          have hpos : 0 < data.length := List.length_pos_iff.mpr hne
          have hrest := ih ((data.drop start).drop (stop + 1)).length
            (by simp only [length_drop]; omega) ((data.drop start).drop (stop + 1)) rfl
          rw [read_of_closed hopen hend, Scan.after_after, append_nil, nil_append, ← hrest]
          simp only [hend]

/-! ### Reading on -/

def resume (limit : Nat) (text : List Char) : Scan :=
  match find [']'] text with
  | none => ⟨[], [], [], true⟩
  | some stop => read limit (text.drop (stop + 1))

/-- What was read leaves of a text that goes on with `more`. -/
def Scan.goOn (limit : Nat) (s : Scan) (more : List Char) : Scan :=
  if s.discarding then resume limit more else read limit (s.pending ++ more)

theorem length_of_markerRefs {marker : List Char} (h : markerRefs p marker ≠ []) :
    marker.length ≤ 154 := by
  have hsome : uiMarker marker ≠ none := by
    intro hnone
    apply h
    rw [markerRefs, hnone]
    split <;> rfl
  have hbegin : uiMarkerPrefix.length = 14 := rfl
  generalize hbody : (marker.drop uiMarkerPrefix.length).dropLast = body
  have hvalid : validUiId (body.takeWhile (· ≠ '@')) = true ∧
      validRevision ((body.dropWhile (· ≠ '@')).drop 1) = true := by
    by_contra hnot
    apply hsome
    rw [uiMarker, hbody, if_neg]
    intro hall
    simp only [and_eq_true] at hall
    exact hnot ⟨hall.1.2, hall.2⟩
  obtain ⟨hid, hrev⟩ := hvalid
  simp only [validUiId, validRevision, and_eq_true, decide_eq_true_eq] at hid hrev
  have hlen : body.length = marker.length - 14 - 1 := by
    rw [← hbody, length_dropLast, length_drop, hbegin]
  have hparts : (body.takeWhile (· ≠ '@')).length + (body.dropWhile (· ≠ '@')).length = body.length := by
    rw [← length_append, takeWhile_append_dropWhile]
  have hid' := hid.2
  have hrev' := hrev.2
  rw [length_drop] at hrev'
  omega

theorem Scan.goOn_after (limit : Nat) (s : Scan) (visible : List Char) (refs : List UiRef)
    (more : List Char) : (s.after visible refs).goOn limit more = s.goOn limit more := by
  rfl

theorem stays_plain (hopen : opening text = none) (hmay : mayOpen text = false) (more : List Char)
    : opening (text ++ more) = none ∧ mayOpen (text ++ more) = false := by
  have hapart : ∀ p ∈ contentMarkerPrefixes, ¬ text <+: p := by
    intro p hp hfront
    simp [mayOpen_iff.mpr ⟨p, hp, hfront⟩] at hmay
  constructor
  · cases hlater : opening (text ++ more) with
    | none => rfl
    | some p =>
      obtain ⟨hp, hfront⟩ := opening_some hlater
      rcases le_total p.length text.length with hle | hle
      · have hearly := prefix_of_prefix_length_le hfront (prefix_append text more) hle
        exact absurd hearly (opening_none hopen hp)
      · have hearly := prefix_of_prefix_length_le (prefix_append text more) hfront hle
        exact absurd hearly (hapart p hp)
  · apply Bool.eq_false_iff.mpr
    intro hlater
    obtain ⟨p, hp, hfront⟩ := mayOpen_iff.mp hlater
    exact hapart p hp ((prefix_append text more).trans hfront)

theorem read_append (hlimit : 154 ≤ limit) (text more : List Char) :
    read limit (text ++ more) =
      ((read limit text).goOn limit more).after (read limit text).visible (read limit text).refs := by
  induction hlen : text.length using Nat.strong_induction_on generalizing text with
  | _ n ih =>
    cases hopen : opening text with
    | some p =>
      obtain ⟨hp, hfront⟩ := opening_some hopen
      have hopen' : opening (text ++ more) = some p :=
        opening_eq hp (hfront.trans (prefix_append text more))
      have hlong : p.length ≤ text.length := hfront.length_le
      cases hend : findFrom [']'] text p.length with
      | none =>
        rw [read_of_open hopen hend]
        split
        · exact (Scan.after_nil _).symm
        · rename_i hover
          have hnone : find [']'] (text.drop p.length) = none := Option.map_eq_none_iff.mp hend
          have hdrop : (text ++ more).drop p.length = text.drop p.length ++ more :=
            drop_append_of_le_length hlong
          have hlater : findFrom [']'] (text ++ more) p.length =
              (find [']'] more).map (· + text.length) := by
            rw [findFrom, hdrop, find_append_none hnone, Option.map_map, length_drop]
            congr 1
            ext i
            simp only [Function.comp]
            omega
          rw [Scan.after_nil, Scan.goOn, if_pos rfl, resume]
          cases hmore : find [']'] more with
          | none =>
            rw [hmore] at hlater
            rw [read_of_open hopen' hlater, if_neg]
            rw [length_append]
            omega
          | some stop =>
            rw [hmore] at hlater
            rw [read_of_closed hopen' hlater]
            have hrefs : markerRefs p ((text ++ more).take (stop + text.length + 1)) = [] := by
              by_contra hsome
              have hle := length_of_markerRefs hsome
              rw [length_take, length_append] at hle
              omega
            have hrest : (text ++ more).drop (stop + text.length + 1) = more.drop (stop + 1) := by
              rw [show stop + text.length + 1 = text.length + (stop + 1) by omega,
                drop_length_add_append]
            rw [hrefs, hrest, Scan.after_nil]
      | some stop =>
        obtain ⟨i, hi, rfl⟩ := Option.map_eq_some_iff.mp hend
        obtain ⟨hbracket, -, -⟩ := find_some hi
        have hstop : i + p.length < text.length := by
          have hle := hbracket.length_le
          rw [length_singleton, length_drop, length_drop] at hle
          omega
        have hend' : findFrom [']'] (text ++ more) p.length = some (i + p.length) := by
          rw [findFrom, drop_append_of_le_length hlong, find_append hi more, Option.map_some]
        have hpos : 0 < text.length := by omega
        have hrest := ih (text.drop (i + p.length + 1)).length
          (by rw [length_drop]; omega) (text.drop (i + p.length + 1)) rfl
        rw [read_of_closed hopen hend, read_of_closed hopen' hend',
          drop_append_of_le_length hstop, take_append_of_le_length hstop, hrest,
          Scan.goOn_after, Scan.after_after]
        rfl
    | none =>
      cases hmay : mayOpen text with
      | true => rw [read_of_mayOpen hopen hmay, Scan.after_nil, Scan.goOn, if_neg Bool.false_ne_true]
      | false =>
        cases text with
        | nil => cases hmay
        | cons c cs =>
          obtain ⟨hopen', hmay'⟩ := stays_plain hopen hmay more
          have hrest := ih cs.length (by rw [← hlen, length_cons]; omega) cs rfl
          rw [cons_append] at hopen' hmay' ⊢
          rw [read_cons hopen hmay, read_cons hopen' hmay', hrest, Scan.goOn_after, Scan.after_after]
          rfl

/-! ### The filter -/

theorem pending_of_discarding (h : (read limit text).discarding = true) : (read limit text).pending = [] := by
  induction text using read.induct limit with
  | case1 => rw [read]
  | case2 c cs p hopen hend hle =>
    rw [read_of_open hopen hend, if_pos hle] at h
    cases h
  | case3 c cs p hopen hend hle => rw [read_of_open hopen hend, if_neg hle]
  | case4 c cs p hopen stop hend ih =>
    rw [read_of_closed hopen hend] at h ⊢
    exact ih h
  | case5 c cs hopen hmay =>
    simp [read_of_mayOpen hopen hmay] at h
  | case6 c cs hopen hmay ih =>
    rw [read_cons hopen (Bool.eq_false_iff.mpr hmay)] at h ⊢
    exact ih h

def ContentMarkerStreamFilter.holding (text : List Char) : ContentMarkerStreamFilter :=
  let s := read 2048 text
  { pending := s.pending, refs := s.refs, discardingMarker := s.discarding }

/-- Feeding a chunk takes the filter from what it holds for a text to what it holds for the longer one,
and shows what the longer one shows more. -/
theorem feed_holding (text chunk : List Char) :
    ∃ shown, (ContentMarkerStreamFilter.holding text).feed chunk =
        (ContentMarkerStreamFilter.holding (text ++ chunk), shown) ∧
      (read 2048 (text ++ chunk)).visible = (read 2048 text).visible ++ shown := by
  have hread := read_append (by decide : 154 ≤ 2048) text chunk
  refine ⟨((read 2048 text).goOn 2048 chunk).visible, ?_, by rw [hread]; rfl⟩
  simp only [ContentMarkerStreamFilter.feed, ContentMarkerStreamFilter.holding,
    ContentMarkerStreamFilter.scanned, scan_eq_read, hread, Scan.after, Scan.goOn]
  cases hdrop : (read 2048 text).discarding with
  | false => simp
  | true =>
    rw [pending_of_discarding hdrop, nil_append, resume]
    cases find [']'] chunk with
    | none => simp
    | some stop => simp

theorem feedAll_holding (text : List Char) (chunks : List (List Char)) :
    ∃ shown, (ContentMarkerStreamFilter.holding text).feedAll chunks =
        (ContentMarkerStreamFilter.holding (text ++ chunks.flatten), shown) ∧
      (read 2048 (text ++ chunks.flatten)).visible = (read 2048 text).visible ++ shown := by
  induction chunks generalizing text with
  | nil => exact ⟨[], by simp [ContentMarkerStreamFilter.feedAll], by simp⟩
  | cons chunk rest ih =>
    obtain ⟨shown, hfeed, hfirst⟩ := feed_holding text chunk
    obtain ⟨more, hall, hrest⟩ := ih (text ++ chunk)
    refine ⟨shown ++ more, ?_, ?_⟩
    · rw [ContentMarkerStreamFilter.feedAll, hfeed]
      simp only [hall, flatten_cons, append_assoc]
    · rw [flatten_cons, ← append_assoc, hrest, hfirst, append_assoc]

theorem run_eq (chunks : List (List Char)) :
    ({} : ContentMarkerStreamFilter).run chunks =
      let held := ContentMarkerStreamFilter.holding chunks.flatten
      ((read 2048 chunks.flatten).visible ++ held.finish.2, held.refs) := by
  have hstart : ({} : ContentMarkerStreamFilter) = ContentMarkerStreamFilter.holding [] := by
    rw [ContentMarkerStreamFilter.holding, read]
  obtain ⟨shown, hall, hshown⟩ := feedAll_holding [] chunks
  rw [nil_append] at hall hshown
  have hnone : (read 2048 []).visible = [] := by rw [read]
  rw [hnone, nil_append] at hshown
  rw [ContentMarkerStreamFilter.run, hstart, hall, hshown]
  simp only [ContentMarkerStreamFilter.finish]
  split <;> rfl

/-- However a response is cut into chunks, the filter shows the same text and collects the same
references as for the whole response in one chunk. -/
theorem run_chunks (chunks : List (List Char)) :
    ({} : ContentMarkerStreamFilter).run chunks =
      ({} : ContentMarkerStreamFilter).run [chunks.flatten] := by
  rw [run_eq, run_eq, List.flatten_singleton]

end OpenAgent.Stream
