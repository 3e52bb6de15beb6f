import OpenAgent.Lib.Least
import OpenAgent.Lib.Text
import Mathlib.Data.Nat.Digits.Defs

/-!
# Marker carriers in a stream

An answer carries its attachments and views in bracketed markers, which are never shown. The filter of the
live stream gets the answer in pieces and holds back whatever might still become a marker. It scans what
it holds from one marker to the next; read one character at a time instead, a text shows at once that
cutting it anywhere changes nothing.
-/

namespace OpenAgent.Stream

open Lib

/-- `UI_MARKER_PREFIX` -/
def uiMarkerPrefix : List Char := "[OPENAGENT_UI:".toList

/-- `CONTENT_MARKER_PREFIXES` -/
def contentMarkerPrefixes : List (List Char) :=
  [uiMarkerPrefix, "[FILE:".toList, "[IMAGE:".toList, "[VOICE:".toList, "[VIDEO:".toList]

structure UiRef where
  viewId : String
  revision : Nat
deriving DecidableEq

def uiIdChar (c : Char) : Bool := c.isAlphanum || c = '.' || c = '_' || c = ':' || c = '-'

/-- `_UI_ID` -/
def validUiId (text : List Char) : Bool :=
  text.head?.any Char.isAlphanum && text.all uiIdChar && decide (text.length ≤ 128)

/-- `[1-9][0-9]{0,9}` -/
def validRevision (text : List Char) : Bool :=
  text.head?.any (fun c => c.isDigit && c ≠ '0') && text.all Char.isDigit && decide (text.length ≤ 10)

/-- `UI_MARKER_RE.fullmatch` -/
def uiMarker (marker : List Char) : Option UiRef :=
  let body := (marker.drop uiMarkerPrefix.length).dropLast
  let viewId := body.takeWhile (· ≠ '@')
  let revision := (body.dropWhile (· ≠ '@')).drop 1
  if uiMarkerPrefix.isPrefixOf marker && decide (marker.getLast? = some ']') && body.contains '@' &&
      validUiId viewId && validRevision revision then
    some ⟨String.ofList viewId, Nat.ofDigitChars 10 revision 0⟩
  else none

/-! ### The filter -/

/-- `ContentMarkerStreamFilter` -/
structure ContentMarkerStreamFilter where
  pending : List Char := []
  refs : List UiRef := []
  maxMarkerChars : Nat := 2048
  discardingMarker : Bool := false

/-- The sizes that `_partial_prefix_len` tries, the longest first. -/
def partialPrefixLen (value : List Char) : Nat :=
  let limit := min value.length ((contentMarkerPrefixes.map List.length).foldr max 0 - 1)
  (((List.range limit).map (· + 1)).reverse.find? fun size =>
    contentMarkerPrefixes.any fun p => (value.drop (value.length - size)).isPrefixOf p).getD 0

/-- `_next_marker` -/
def nextMarker (value : List Char) : Option (Nat × List Char) :=
  leastBy (fun found => found.1) (contentMarkerPrefixes.filterMap fun p => (find p value).map fun i => (i, p))

structure Scan where
  visible : List Char
  pending : List Char
  refs : List UiRef
  discarding : Bool

def markerRefs (start marker : List Char) : List UiRef :=
  if start = uiMarkerPrefix then (uiMarker marker).toList else []

def Scan.after (s : Scan) (visible : List Char) (refs : List UiRef) : Scan :=
  { s with visible := visible ++ s.visible, refs := refs ++ s.refs }

/-- The loop of `feed`. -/
def scan (limit : Nat) (data : List Char) : Scan :=
  if data = [] then ⟨[], [], [], false⟩
  else
    match nextMarker data with
    | none =>
      let keep := partialPrefixLen data
      ⟨data.take (data.length - keep), data.drop (data.length - keep), [], false⟩
    | some (start, pre) =>
      let candidate := data.drop start
      match findFrom [']'] candidate pre.length with
      | none =>
        if candidate.length ≤ limit then ⟨data.take start, candidate, [], false⟩
        else ⟨data.take start, [], [], true⟩
      | some stop =>
        (scan limit (candidate.drop (stop + 1))).after (data.take start)
          (markerRefs pre (candidate.take (stop + 1)))
termination_by data.length
decreasing_by
  have hpos : 0 < data.length := List.length_pos_iff.mpr ‹_›
  simp only [List.length_drop]
  omega

def ContentMarkerStreamFilter.scanned (f : ContentMarkerStreamFilter) (data : List Char) :
    ContentMarkerStreamFilter × List Char :=
  let s := scan f.maxMarkerChars data
  ({ f with pending := s.pending, refs := f.refs ++ s.refs, discardingMarker := s.discarding }, s.visible)

/-- `feed` -/
def ContentMarkerStreamFilter.feed (f : ContentMarkerStreamFilter) (chunk : List Char) :
    ContentMarkerStreamFilter × List Char :=
  let data := f.pending ++ chunk
  if f.discardingMarker then
    match find [']'] data with
    | none => ({ f with pending := [] }, [])
    | some stop => f.scanned (data.drop (stop + 1))
  else f.scanned data

/-- `finish` -/
def ContentMarkerStreamFilter.finish (f : ContentMarkerStreamFilter) :
    ContentMarkerStreamFilter × List Char :=
  if f.discardingMarker then ({ f with pending := [], discardingMarker := false }, [])
  else
    ({ f with pending := [] },
      if contentMarkerPrefixes.any fun p => p.isPrefixOf f.pending then [] else f.pending)

def ContentMarkerStreamFilter.feedAll (f : ContentMarkerStreamFilter) :
    List (List Char) → ContentMarkerStreamFilter × List Char
  | [] => (f, [])
  | chunk :: rest =>
    let (f, shown) := f.feed chunk
    let (f, more) := f.feedAll rest
    (f, shown ++ more)

def ContentMarkerStreamFilter.run (f : ContentMarkerStreamFilter) (chunks : List (List Char)) :
    List Char × List UiRef :=
  let (f, shown) := f.feedAll chunks
  let (f, last) := f.finish
  (shown ++ last, f.refs)

end OpenAgent.Stream
