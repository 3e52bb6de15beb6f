import OpenAgent.Contracts
import OpenAgent.Lib.Trim
import OpenAgent.Stream.Chunks

/-!
# The parts of a finished answer

A finished answer is read as a whole. A pattern finds its markers one after the other; the text between
two of them and the attachments and views they stand for are its ordered parts. The text alone is what the
pattern leaves of the answer. What opens a marker in either without being one is cut out afterwards.
-/

namespace OpenAgent.Stream

open Lib

/-! ### The markers of a text -/

/-- `_ATTACHMENT_KIND` -/
inductive AttachmentKind where
  | image | file | voice | video
deriving DecidableEq

/-- What `_CONTENT_MARKER_RE` captures. -/
inductive Marker where
  | attachment (kind : AttachmentKind) (path : List Char)
  | view (ref : UiRef)
deriving DecidableEq

def attachmentKind (start : List Char) : Option AttachmentKind :=
  if start = "[IMAGE:".toList then some .image
  else if start = "[FILE:".toList then some .file
  else if start = "[VOICE:".toList then some .voice
  else if start = "[VIDEO:".toList then some .video
  else none

/-- `_CONTENT_MARKER_RE` at the front of a text: what it captures, and how many characters it matches. -/
def contentMarker (text : List Char) : Option (Marker × Nat) :=
  match opening text with
  | none => none
  | some p =>
    match findFrom [']'] text p.length with
    | none => none
    | some stop =>
      match attachmentKind p with
      | some kind =>
        -- the path has at least one character
        if stop = p.length then none
        else some (.attachment kind ((text.take stop).drop p.length), stop + 1)
      | none => (uiMarker (text.take (stop + 1))).map fun ref => (.view ref, stop + 1)

/-- `_CONTENT_MARKER_RE.finditer`: each match with the text before it, and the text after the last. -/
def finditer (text : List Char) : List (List Char × Marker) × List Char :=
  match text with
  | [] => ([], [])
  | c :: cs =>
    match contentMarker (c :: cs) with
    | some (m, len) =>
      let rest := finditer (cs.drop (len - 1))
      (([], m) :: rest.1, rest.2)
    | none =>
      match finditer cs with
      | ([], tail) => ([], c :: tail)
      | ((before, m) :: found, tail) => ((c :: before, m) :: found, tail)
termination_by text.length
decreasing_by
  · simp only [List.length_drop, List.length_cons]
    omega
  · simp only [List.length_cons]
    omega

/-- `_CONTENT_MARKER_RE.sub("", raw)` -/
def sub (raw : List Char) : List Char := (finditer raw).1.flatMap Prod.fst ++ (finditer raw).2

theorem start_lt_length {value p : List Char} {start : Nat} (h : nextMarker value = some (start, p)) :
    start < value.length := by
  obtain ⟨hopen, -, -⟩ := nextMarker_some h
  by_contra hge
  rw [List.drop_of_length_le (by omega), show opening [] = none from rfl] at hopen
  cases hopen

/-- `_strip_malformed` -/
def stripMalformed (value : List Char) : List Char :=
  match hnext : nextMarker value with
  | none => value
  | some (start, pre) =>
    match hend : findFrom [']'] value (start + pre.length) with
    | none => stripMalformed (value.take start)
    | some stop => stripMalformed (value.take start ++ value.drop (stop + 1))
termination_by value.length
decreasing_by
  · have hlt := start_lt_length hnext
    simp only [List.length_take]
    omega
  · have hlt := start_lt_length hnext
    obtain ⟨i, -, rfl⟩ := Option.map_eq_some_iff.mp hend
    simp only [List.length_append, List.length_take, List.length_drop]
    omega

/-! ### The parts -/

structure Attachment where
  type : AttachmentKind
  path : List Char
  filename : List Char
deriving DecidableEq

inductive Part where
  | text (value : List Char)
  | attachment (value : Attachment)
  | uiView (ref : UiRef)
deriving DecidableEq

/-- `ParsedContent` -/
structure ParsedContent where
  text : List Char
  parts : List Part
  attachments : List Attachment
  uiRefs : List UiRef

/-- `Path(path).name` -/
def pathName (path : List Char) : List Char :=
  (((path.splitOn '/').filter fun part => part ≠ [] ∧ part ≠ ['.']).getLast?).getD []

/-- `_append_text` -/
def appendText (parts : List Part) (value : List Char) : List Part :=
  if value = [] then parts
  else
    match parts.getLast? with
    | some (.text shown) => parts.dropLast ++ [.text (shown ++ value)]
    | _ => parts ++ [.text value]

def Part.onText (f : List Char → List Char) : Part → Part
  | .text value => .text (f value)
  | part => part

/-- `part.get("kind") != "text" or bool(part.get("text"))` -/
def Part.filled : Part → Bool
  | .text value => value ≠ []
  | _ => true

def onFirstText (f : List Char → List Char) : List Part → List Part
  | [] => []
  | .text value :: rest => .text (f value) :: rest
  | part :: rest => part :: onFirstText f rest

/-- `_trim_text_edges` -/
def trimTextEdges (parts : List Part) : List Part :=
  let first := onFirstText (List.dropWhile isSpace) parts
  let last := (onFirstText (List.rdropWhile isSpace) first.reverse).reverse
  last.filter Part.filled

structure Parsing where
  parts : List Part := []
  attachments : List Attachment := []
  uiRefs : List UiRef := []

def Parsing.onMatch (allowInlineUi : Bool) (s : Parsing) (found : List Char × Marker) : Parsing :=
  let parts := appendText s.parts found.1
  match found.2 with
  | .attachment kind path =>
    let path := Lib.trim isSpace path
    if path = [] then { s with parts }
    else
      let attachment := ⟨kind, path, pathName path⟩
      { s with parts := parts ++ [.attachment attachment], attachments := s.attachments ++ [attachment] }
  | .view ref =>
    { s with
      parts := if allowInlineUi then parts ++ [.uiView ref] else parts
      uiRefs := s.uiRefs ++ [ref] }

/-- `parse_response_content` -/
def parseResponseContent (text : List Char) (allowInlineUi : Bool) : ParsedContent :=
  let (found, tail) := finditer text
  let s := found.foldl (Parsing.onMatch allowInlineUi) {}
  let parts := (appendText s.parts tail).map (Part.onText stripMalformed)
  { text := Lib.trim isSpace (stripMalformed (sub text))
    parts := trimTextEdges parts
    attachments := s.attachments
    uiRefs := s.uiRefs }

end OpenAgent.Stream
