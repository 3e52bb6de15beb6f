import OpenAgent.Projection.Rebuild
import OpenAgent.Lib.Words

/-!
# The identifiers of projected rows

The identifier of a run, a message or a tool call is the name its provider gave it, behind the names of
the session and the run it belongs to, all joined by colons; what has no name is known by the digest of
its place. A digest tells places apart, but a name may hold colons itself, and joined names then run
into each other. What decides is the label of a row: its place, or the words that the colons cut its
names into. Rows get different identifiers exactly where their labels differ.
-/

namespace OpenAgent.Projection

open List

open Lib (words words_injective words_join words_of_not_mem words_ne_nil)

variable {D : Type} (py : Stdlib D)

/-- `hexdigest()` writes no colon. -/
def PlainHex : Prop := ∀ d, ':' ∉ (py.hex d).toList

/-- What `_stable_id` keeps of a digest. -/
def cut (parts : List Json) : String := Lib.clip 32 (py.hex (py.digest parts))

/-! ### Labels -/

inductive Kind
  | run
  | message
  | tool
deriving DecidableEq

def Kind.word : Kind → String
  | .run => "run"
  | .message => "msg"
  | .tool => "tool"

/-- How a row is told from others of its kind: by the words of its names, or by its place. -/
inductive Label
  | given (words : List (List Char))
  | placed (session : String) (ordinal : Nat)
  | within (session : String) (run : Label) (place : Json)
deriving DecidableEq

def textOf (ws : List (List Char)) : String := String.ofList ([':'].intercalate ws)

def Label.words : Label → List (List Char)
  | .given ws => ws
  | .placed session ordinal => [(cut py [.str session, .num ordinal]).toList]
  | .within session run place =>
    [(cut py [.str session, .str (textOf (Kind.run.word.toList :: run.words)), place]).toList]

def Label.runId (label : Label) : String := textOf (Kind.run.word.toList :: label.words py)

def Label.digested : Label → List (List Json)
  | .given _ => []
  | .placed session ordinal => [[.str session, .num ordinal]]
  | .within session run place => [.str session, .str (run.runId py), place] :: run.digested

inductive Label.Formed : Label → Prop
  | given (session rest : String) : Formed (.given (Lib.words ':' session ++ Lib.words ':' rest))
  | placed (session : String) (ordinal : Nat) : Formed (.placed session ordinal)
  | within {run : Label} (h : run.Formed) (session : String) (place : Json) : Formed (.within session run place)

structure Key where
  kind : Kind
  label : Label
deriving DecidableEq

theorem key_ext {a b : Key} (hkind : a.kind = b.kind) (hlabel : a.label = b.label) : a = b := by
  cases a
  cases b
  simp_all

def Key.words (key : Key) : List (List Char) := key.kind.word.toList :: key.label.words py

/-! ### The labels of a session's rows -/

def runLabel (session : String) (ordinal : Nat) (run : Json) : Label :=
  let sourceId := named py ((run.get "run_id").either (run.get "id"))
  if sourceId ≠ "" then .given (words ':' session ++ words ':' sourceId) else .placed session ordinal

def messageLabel (session : String) (run : Label) (row : MessageRow) : Label :=
  let sourceId := named py (row.rawEnvelope.get "id")
  if row.rawEnvelope = contentMarker then .within session run (.str "content")
  else if sourceId ≠ "" then .given (words ':' session ++ words ':' sourceId)
  else .within session run (.num row.ordinal)

def toolLabel (session : String) (run : Label) (entry : Json × Nat) : Label :=
  match namedOrNone py ((entry.1.get "tool_call_id").either (entry.1.get "tool_use_id")) with
  | some call => .given (words ':' session ++ (Key.mk .run run).words py ++ words ':' call)
  | none => .within session run (.num entry.2)

variable [DecidableEq D]

def runKeys (ctx : Context) (before after : Progress D) (entry : Json × Nat) : List Key :=
  let label := runLabel py ctx.sessionId entry.2 entry.1
  ⟨.run, label⟩ ::
    ((after.messages.drop before.messages.length).map fun row =>
      ⟨.message, messageLabel py ctx.sessionId label row⟩) ++
    (((entry.1.get "tools").items.zipIdx.filter fun e => e.1.isDict).map fun e =>
      ⟨.tool, toolLabel py ctx.sessionId label e⟩)

def keysFrom (ctx : Context) : Progress D → List (Json × Nat) → List Key
  | _, [] => []
  | before, entry :: rest =>
    match projectRun py ctx before entry with
    | .ok after => runKeys py ctx before after entry ++ keysFrom ctx after rest
    | .error _ => []

def rowKeys (legacy : LegacyRow) (nowMs : Int) : List Key :=
  if trim legacy.sessionId = "" then []
  else
    match projectRuns py (context py legacy nowMs) (runsRaw py legacy).1 with
    | .error _ => []
    | .ok _ => keysFrom py (context py legacy nowMs) {} (runsRaw py legacy).1.zipIdx

def Progress.ids (progress : Progress D) : List String :=
  progress.runs.map (·.id) ++ progress.messages.map (·.id) ++ progress.tools.map (·.id)

def rowIds (legacy : LegacyRow) (tenantId : String) (nowMs : Int) : List String :=
  match buildSessionProjection py legacy tenantId nowMs with
  | .error _ => []
  | .ok p => p.runs.map (·.id) ++ p.messages.map (·.id) ++ p.tools.map (·.id)

/-! ### The words of identifiers -/

section

variable {py} {ctx : Context} {frame : RunFrame}

omit [DecidableEq D]

theorem word_plain (kind : Kind) : ':' ∉ kind.word.toList := by cases kind <;> decide

theorem words_stableId (hhex : PlainHex py) (kind : Kind) (parts : List Json) :
    words ':' (stableId py kind.word parts) = [kind.word.toList, (cut py parts).toList] := by
  have hcut : ':' ∉ (cut py parts).toList := by
    rw [cut, Lib.clip, String.toList_ofList]
    exact fun hmem => hhex _ (mem_of_mem_take hmem)
  rw [stableId]
  show words ':' (kind.word ++ String.ofList [':'] ++ cut py parts) = _
  rw [words_join, words_of_not_mem (word_plain kind), words_of_not_mem hcut]
  rfl

theorem words_joined (kind : Kind) (session rest : String) :
    words ':' (kind.word ++ ":" ++ session ++ ":" ++ rest) =
      kind.word.toList :: (words ':' session ++ words ':' rest) := by
  show words ':' (kind.word ++ String.ofList [':'] ++ session ++ String.ofList [':'] ++ rest) = _
  rw [words_join, words_join, words_of_not_mem (word_plain kind)]
  rfl

theorem textOf_words (text : String) : textOf (words ':' text) = text := by
  rw [textOf, words, intercalate_splitOn, String.ofList_toList]

theorem words_runId (hhex : PlainHex py) (ordinal : Nat) (run : Json) :
    words ':' (runId py ctx ordinal run) = (Key.mk .run (runLabel py ctx.sessionId ordinal run)).words py := by
  rw [runId, runLabel]
  split
  · exact words_joined .run _ _
  · exact words_stableId hhex .run _

theorem runId_runLabel (hhex : PlainHex py) (ordinal : Nat) (run : Json) :
    (runLabel py ctx.sessionId ordinal run).runId py = runId py ctx ordinal run := by
  have h : words ':' (runId py ctx ordinal run) = (Key.mk .run (runLabel py ctx.sessionId ordinal run)).words py :=
    words_runId hhex ordinal run
  rw [Key.words] at h
  rw [Label.runId, ← textOf_words (runId py ctx ordinal run), h]

def RunFrame.Labelled (py : Stdlib D) (frame : RunFrame) (label : Label) : Prop := frame.id = label.runId py

theorem words_messageRow (hhex : PlainHex py) {label : Label} (hframe : frame.Labelled py label)
    (sequence ordinal : Nat) {message : Json} (hread : unread py message = false) :
    words ':' (messageRow py ctx frame sequence ordinal message).id =
      (Key.mk .message (messageLabel py ctx.sessionId label
        (messageRow py ctx frame sequence ordinal message))).words py := by
  have hraw : (messageRow py ctx frame sequence ordinal message).rawEnvelope = message :=
    asObject_of_isDict (isDict_of_not_unread hread)
  have hordinal : (messageRow py ctx frame sequence ordinal message).ordinal = ordinal := rfl
  have hid : (messageRow py ctx frame sequence ordinal message).id =
      if named py (message.get "id") ≠ "" then "msg:" ++ ctx.sessionId ++ ":" ++ named py (message.get "id")
      else stableId py "msg" [.str ctx.sessionId, .str frame.id, .num ordinal] := by
    rw [messageRow]
  rw [messageLabel, hraw, hordinal, if_neg (ne_contentMarker hread), hid]
  split
  · exact words_joined .message _ _
  · rw [hframe]
    exact words_stableId hhex .message _

theorem words_contentRow (hhex : PlainHex py) {label : Label} (hframe : frame.Labelled py label) (value : Json)
    (sequence ordinal : Nat) :
    words ':' (contentRow py ctx frame value sequence ordinal).id =
      (Key.mk .message (messageLabel py ctx.sessionId label
        (contentRow py ctx frame value sequence ordinal))).words py := by
  have hid : (contentRow py ctx frame value sequence ordinal).id =
      stableId py "msg" [.str ctx.sessionId, .str frame.id, .str "content"] := rfl
  have hraw : (contentRow py ctx frame value sequence ordinal).rawEnvelope = contentMarker := rfl
  rw [messageLabel, hraw, if_pos rfl, hid, hframe]
  exact words_stableId hhex .message _

theorem words_toolRow (hhex : PlainHex py) {label : Label} (hframe : frame.Labelled py label)
    (hlabel : words ':' frame.id = (Key.mk .run label).words py) {ordinal position : Nat} {tool : Json}
    {row : ToolRow} (hrow : toolRow py ctx frame ordinal position tool = .ok row) :
    words ':' row.id = (Key.mk .tool (toolLabel py ctx.sessionId label (tool, position))).words py := by
  rw [toolRow] at hrow
  cases hlife : normalizedToolLifecycle py tool with
  | error e => simp [hlife, bind, Except.bind] at hrow
  | ok life =>
    simp only [hlife, bind, Except.bind, pure, Except.pure, Except.ok.injEq] at hrow
    rw [toolLabel]
    cases hcall : namedOrNone py ((tool.get "tool_call_id").either (tool.get "tool_use_id")) with
    | some call =>
      simp only [hcall] at hrow
      have hid : row.id = Kind.tool.word ++ ":" ++ ctx.sessionId ++ ":" ++ frame.id ++
          String.ofList [':'] ++ call := by
        rw [← hrow]
        rfl
      have hfront := words_joined .tool ctx.sessionId frame.id
      rw [hlabel] at hfront
      rw [hid, words_join, hfront]
      rfl
    | none =>
      simp only [hcall] at hrow
      have hid : row.id = stableId py "tool" [.str ctx.sessionId, .str frame.id, .num position] := by
        rw [← hrow]
      rw [hid, hframe]
      exact words_stableId hhex .tool _

theorem words_toolRows (hhex : PlainHex py) {label : Label} (hframe : frame.Labelled py label)
    (hlabel : words ':' frame.id = (Key.mk .run label).words py) {before position : Nat} {tools : List Json}
    {rows : List ToolRow} (h : toolRows py ctx frame before position tools = .ok rows) :
    rows.map (fun row => words ':' row.id) =
      ((tools.zipIdx position).filter fun e => e.1.isDict).map fun e =>
        (Key.mk .tool (toolLabel py ctx.sessionId label e)).words py := by
  induction tools generalizing before position rows with
  | nil =>
    cases h
    rfl
  | cons tool rest ih =>
    rw [toolRows] at h
    rw [zipIdx_cons]
    cases hdict : tool.isDict with
    | false =>
      rw [if_neg (by simp [hdict])] at h
      rw [filter_cons_of_neg (by simp [hdict])]
      exact ih h
    | true =>
      rw [if_pos hdict] at h
      rw [filter_cons_of_pos (by exact hdict), map_cons]
      cases hrow : toolRow py ctx frame before position tool with
      | error e => simp [hrow, bind, Except.bind] at h
      | ok row =>
        cases hrest : toolRows py ctx frame (before + 1) (position + 1) rest with
        | error e => simp [hrow, hrest, bind, Except.bind] at h
        | ok others =>
          simp only [hrow, hrest, bind, Except.bind, pure, Except.pure, Except.ok.injEq] at h
          subst h
          rw [map_cons, words_toolRow hhex hframe hlabel hrow, ih hrest]

end

section

variable {py} {ctx : Context} {frame : RunFrame}

theorem messageLoop_rows {seen : Counts D} {before : Nat} {messages : List Json} {row : MessageRow}
    (h : row ∈ (messageLoop py ctx frame seen before messages).rows) :
    ∃ sequence ordinal message, unread py message = false ∧
      row = messageRow py ctx frame sequence ordinal message := by
  have hfold : ∀ (entries : List (Json × Nat)) (loop : MessageLoop D),
      (∀ row ∈ loop.rows, ∃ sequence ordinal message, unread py message = false ∧
        row = messageRow py ctx frame sequence ordinal message) →
      ∀ row ∈ (entries.foldl (messageStep py ctx frame seen before) loop).rows,
        ∃ sequence ordinal message, unread py message = false ∧
          row = messageRow py ctx frame sequence ordinal message := by
    intro entries
    induction entries with
    | nil => exact fun loop hloop => hloop
    | cons entry rest ih =>
      intro loop hloop
      apply ih
      intro row hrow
      rw [messageStep] at hrow
      cases hread : unread py entry.1 with
      | true =>
        rw [if_pos hread] at hrow
        exact hloop row hrow
      | false =>
        rw [if_neg (by simp [hread])] at hrow
        dsimp only at hrow
        split at hrow
        · exact hloop row hrow
        · rcases List.mem_append.mp hrow with hmem | hmem
          · exact hloop row hmem
          · exact ⟨_, _, _, hread, List.mem_singleton.mp hmem⟩
  exact hfold _ _ (fun row hrow => absurd hrow not_mem_nil) row h

theorem perm_behind {α : Type} (a b c a' b' c' : List α) :
    ((a ++ a') ++ (b ++ b') ++ (c ++ c')).Perm ((a ++ b ++ c) ++ (a' ++ b' ++ c')) := by
  classical
  rw [perm_iff_count]
  intro x
  simp only [count_append]
  omega

variable {before after : Progress D}

theorem words_projectRun (hhex : PlainHex py) {entry : Json × Nat}
    (h : projectRun py ctx before entry = .ok after) :
    (after.ids.map (words ':')).Perm
      (before.ids.map (words ':') ++ (runKeys py ctx before after entry).map fun key => key.words py) := by
  obtain ⟨run, ordinal⟩ := entry
  rw [projectRun] at h
  cases hdict : run.isDict with
  | false => simp [hdict, bind, Except.bind] at h
  | true =>
    cases hlife : runLifecycle py ordinal run with
    | error e => simp [hdict, hlife, bind, Except.bind] at h
    | ok life =>
      simp only [hdict, hlife, Bool.not_true, Bool.false_eq_true, if_false, bind, Except.bind, pure,
        Except.pure] at h
      split at h
      · cases h
      · rename_i tools htools
        cases h
        generalize hrow : runRow py ctx ordinal run life (boundedRunEnvelope py run) = row at *
        have hrowId : row.id = runId py ctx ordinal run := hrow ▸ runRow_id ..
        have hframe : row.frame.Labelled py (runLabel py ctx.sessionId ordinal run) :=
          hrowId.trans (runId_runLabel hhex ordinal run).symm
        have hlabel : words ':' row.frame.id =
            (Key.mk .run (runLabel py ctx.sessionId ordinal run)).words py := by
          rw [← words_runId hhex]
          exact congrArg _ hrowId
        generalize hloop : messageLoop py ctx row.frame before.seen before.messages.length
          (run.get "messages").items = loop
        have hmessages : ∀ message ∈ loop.rows ++
            contentRows py ctx row.frame run (before.messages ++ loop.rows),
            words ':' message.id = (Key.mk .message
              (messageLabel py ctx.sessionId (runLabel py ctx.sessionId ordinal run) message)).words py := by
          intro message hmem
          rcases List.mem_append.mp hmem with hin | hin
          · rw [← hloop] at hin
            obtain ⟨sequence, place, raw, hread, rfl⟩ := messageLoop_rows hin
            exact words_messageRow hhex hframe sequence place hread
          · rw [contentRows] at hin
            split at hin
            · cases hin
            · cases List.mem_singleton.mp hin
              exact words_contentRow hhex hframe ..
        rw [runKeys, Progress.ids, Progress.ids]
        dsimp only
        rw [append_assoc before.messages, drop_left]
        generalize loop.rows ++ contentRows py ctx row.frame run (before.messages ++ loop.rows) = fresh at *
        have hrow' : words ':' (runRow py ctx ordinal run life
            (withSkipped (boundedRunEnvelope py run) loop.skipped)).id =
            (Key.mk .run (runLabel py ctx.sessionId ordinal run)).words py := by
          rw [runRow_id, words_runId hhex]
        have hnew := perm_behind (before.runs.map fun r => words ':' r.id)
          (before.messages.map fun r => words ':' r.id) (before.tools.map fun r => words ':' r.id)
          [(Key.mk .run (runLabel py ctx.sessionId ordinal run)).words py]
          (fresh.map fun r => words ':' r.id) (tools.map fun r => words ':' r.id)
        have hfresh := map_congr_left hmessages
        have htoolWords := words_toolRows hhex hframe hlabel htools
        rw [htoolWords, hfresh] at hnew
        simpa only [map_append, map_map, map_cons, map_nil, Function.comp_def, hrow',
          htoolWords, hfresh, cons_append, nil_append] using hnew

theorem words_keysFrom (hhex : PlainHex py) {entries : List (Json × Nat)}
    (h : entries.foldlM (projectRun py ctx) before = .ok after) :
    (after.ids.map (words ':')).Perm
      (before.ids.map (words ':') ++ (keysFrom py ctx before entries).map fun key => key.words py) := by
  induction entries generalizing before with
  | nil =>
    cases h
    rw [keysFrom, map_nil, append_nil]
  | cons entry rest ih =>
    rw [foldlM_cons] at h
    rw [keysFrom]
    cases hrun : projectRun py ctx before entry with
    | error e => simp [hrun, bind, Except.bind] at h
    | ok next =>
      simp only [hrun, bind, Except.bind] at h
      dsimp only
      rw [map_append, ← append_assoc]
      exact (ih h).trans ((words_projectRun hhex hrun).append_right _)

theorem words_rowIds (hhex : PlainHex py) (legacy : LegacyRow) (tenantId : String) (nowMs : Int) :
    ((rowIds py legacy tenantId nowMs).map (words ':')).Perm
      ((rowKeys py legacy nowMs).map fun key => key.words py) := by
  rw [rowIds, rowKeys, buildSessionProjection]
  by_cases hid : trim legacy.sessionId = ""
  · rw [if_pos hid, if_pos hid]
    exact List.Perm.refl _
  · rw [if_neg hid, if_neg hid]
    cases hruns : projectRuns py (context py legacy nowMs) (runsRaw py legacy).1 with
    | error text => exact List.Perm.refl _
    | ok progress => exact words_keysFrom hhex hruns

/-! ### The words of labels -/

section

omit [DecidableEq D]

theorem formed_runLabel (py : Stdlib D) (session : String) (ordinal : Nat) (run : Json) :
    (runLabel py session ordinal run).Formed := by
  rw [runLabel]
  split
  · exact .given _ _
  · exact .placed _ _

theorem formed_messageLabel {session : String} {run : Label} (hrun : run.Formed) (row : MessageRow) :
    (messageLabel py session run row).Formed := by
  rw [messageLabel]
  split
  · exact .within hrun _ _
  · split
    · exact .given _ _
    · exact .within hrun _ _

theorem words_textOf (hhex : PlainHex py) (kind : Kind) {label : Label} (h : label.Formed) :
    words ':' (textOf (kind.word.toList :: label.words py)) = kind.word.toList :: label.words py := by
  have hplaced : ∀ parts, words ':' (textOf [kind.word.toList, (cut py parts).toList]) =
      [kind.word.toList, (cut py parts).toList] := by
    intro parts
    rw [← words_stableId hhex kind parts, textOf_words]
  cases h with
  | given session rest => rw [Label.words, ← words_joined, textOf_words]
  | placed session ordinal => exact hplaced _
  | within hrun session place => exact hplaced _

theorem formed_toolLabel (hhex : PlainHex py) {session : String} {run : Label} (hrun : run.Formed)
    (entry : Json × Nat) : (toolLabel py session run entry).Formed := by
  rw [toolLabel]
  split
  · rename_i call hcall
    have hwords : words ':' (run.runId py ++ String.ofList [':'] ++ call) =
        (Key.mk .run run).words py ++ words ':' call := by
      rw [words_join, Label.runId, words_textOf hhex .run hrun, Key.words]
    rw [append_assoc, ← hwords]
    exact .given _ _
  · exact .within hrun _ _

theorem not_formed_singleton (word : List Char) : ¬ (Label.given [word]).Formed := by
  intro hformed
  generalize hlabel : Label.given [word] = label at hformed
  cases hformed with
  | given session rest =>
    have hfront := length_pos_of_ne_nil (words_ne_nil ':' session)
    have hback := length_pos_of_ne_nil (words_ne_nil ':' rest)
    have hlength := congrArg List.length (Label.given.inj hlabel)
    rw [length_append, length_singleton] at hlength
    omega
  | placed session ordinal => cases hlabel
  | within hrun session place => cases hlabel

theorem label_of_words (hhex : PlainHex py) {a b : Label} (ha : a.Formed) (hb : b.Formed)
    (hapart : ∀ p ∈ a.digested py, ∀ q ∈ b.digested py, cut py p = cut py q → p = q)
    (h : a.words py = b.words py) : a = b := by
  induction a generalizing b with
  | given ws =>
    cases b with
    | given ws' => exact congrArg _ h
    | _ =>
      rw [Label.words, Label.words] at h
      exact absurd (h ▸ ha) (not_formed_singleton _)
  | placed session ordinal =>
    cases b with
    | given ws' =>
      rw [Label.words, Label.words] at h
      exact absurd (h ▸ hb) (not_formed_singleton _)
    | placed session' ordinal' =>
      rw [Label.words, Label.words, singleton_inj, String.toList_inj] at h
      have hparts := hapart _ (mem_singleton_self _) _ (mem_singleton_self _) h
      simp only [List.cons.injEq, Json.str.injEq, Json.num.injEq, Nat.cast_inj, and_true] at hparts
      rw [hparts.1, hparts.2]
    | within session' run' place' =>
      rw [Label.words, Label.words, singleton_inj, String.toList_inj] at h
      have hparts := hapart _ (mem_singleton_self _) _ mem_cons_self h
      simp at hparts
  | within session run place ih =>
    cases b with
    | given ws' =>
      rw [Label.words, Label.words] at h
      exact absurd (h ▸ hb) (not_formed_singleton _)
    | placed session' ordinal' =>
      rw [Label.words, Label.words, singleton_inj, String.toList_inj] at h
      have hparts := hapart _ mem_cons_self _ (mem_singleton_self _) h
      simp at hparts
    | within session' run' place' =>
      cases ha with
      | within hrun =>
      cases hb with
      | within hrun' =>
      rw [Label.words, Label.words, singleton_inj, String.toList_inj] at h
      have hparts := hapart _ mem_cons_self _ mem_cons_self h
      simp only [List.cons.injEq, Json.str.injEq, and_true] at hparts
      obtain ⟨hsession, hid, hplace⟩ := hparts
      have hwords : run.words py = run'.words py := by
        have hboth := congrArg (words ':') hid
        rw [Label.runId, Label.runId, words_textOf hhex .run hrun, words_textOf hhex .run hrun'] at hboth
        exact tail_eq_of_cons_eq hboth
      have hsame : run = run' := by
        refine ih hrun hrun' (fun p hp q hq => ?_) hwords
        exact hapart p (mem_cons_of_mem _ hp) q (mem_cons_of_mem _ hq)
      rw [hsession, hsame, hplace]

theorem word_inj {a b : Kind} (h : a.word.toList = b.word.toList) : a = b := by
  cases a <;> cases b <;> first | rfl | exact absurd h (by decide)

end

/-! ### Apart exactly where the labels are -/

omit [DecidableEq D] in
theorem formed_runKeys (hhex : PlainHex py) {entry : Json × Nat} {key : Key}
    (h : key ∈ runKeys py ctx before after entry) : key.label.Formed := by
  have hrun := formed_runLabel py ctx.sessionId entry.2 entry.1
  rw [runKeys, mem_append, mem_cons, mem_map, mem_map] at h
  generalize runLabel py ctx.sessionId entry.2 entry.1 = label at *
  rcases h with (hkey | ⟨row, -, hkey⟩) | ⟨e, -, hkey⟩
  · rw [hkey]
    exact hrun
  · rw [← hkey]
    dsimp only
    exact formed_messageLabel hrun row
  · rw [← hkey]
    dsimp only
    exact formed_toolLabel hhex hrun e

theorem formed_keysFrom (hhex : PlainHex py) {before : Progress D} {entries : List (Json × Nat)} {key : Key}
    (h : key ∈ keysFrom py ctx before entries) : key.label.Formed := by
  induction entries generalizing before with
  | nil =>
    simp [keysFrom] at h
  | cons entry rest ih =>
    rw [keysFrom] at h
    split at h
    · rcases List.mem_append.mp h with hnew | hrest
      · exact formed_runKeys hhex hnew
      · exact ih hrest
    · cases h

theorem formed_rowKeys (hhex : PlainHex py) {legacy : LegacyRow} {nowMs : Int} {key : Key}
    (h : key ∈ rowKeys py legacy nowMs) : key.label.Formed := by
  rw [rowKeys] at h
  split at h
  · cases h
  · split at h
    · cases h
    · exact formed_keysFrom hhex h

def DigestsApart (py : Stdlib D) (keys : List Key) : Prop :=
  ∀ a ∈ keys, ∀ b ∈ keys, ∀ p ∈ a.label.digested py, ∀ q ∈ b.label.digested py, cut py p = cut py q → p = q

def IdsApart (py : Stdlib D) (sessions : List (LegacyRow × Int)) (tenantId : String) : Prop :=
  (sessions.flatMap fun e => rowIds py e.1 tenantId e.2).Nodup

def KeysApart (py : Stdlib D) (sessions : List (LegacyRow × Int)) : Prop :=
  (sessions.flatMap fun e => rowKeys py e.1 e.2).Nodup

/-- No two rows of any sessions share an identifier, exactly if no two share a kind and a label. -/
theorem ids_apart_iff (hhex : PlainHex py) (sessions : List (LegacyRow × Int)) (tenantId : String)
    (hdigests : DigestsApart py (sessions.flatMap fun e => rowKeys py e.1 e.2)) :
    IdsApart py sessions tenantId ↔ KeysApart py sessions := by
  have hperm : ((sessions.flatMap fun e => rowIds py e.1 tenantId e.2).map (words ':')).Perm
      ((sessions.flatMap fun e => rowKeys py e.1 e.2).map fun key => key.words py) := by
    rw [List.map_flatMap, List.map_flatMap]
    exact List.Perm.flatMap_left sessions fun e _ => words_rowIds hhex e.1 tenantId e.2
  rw [IdsApart, KeysApart, ← List.nodup_map_iff (words_injective ':'), hperm.nodup_iff]
  refine ⟨List.Nodup.of_map _, fun h => h.map_on fun a ha b hb hwords => ?_⟩
  obtain ⟨e, -, hae⟩ := List.mem_flatMap.mp ha
  obtain ⟨e', -, hbe⟩ := List.mem_flatMap.mp hb
  obtain ⟨hkind, hlabels⟩ := List.cons.inj hwords
  exact key_ext (word_inj hkind)
    (label_of_words hhex (formed_rowKeys hhex hae) (formed_rowKeys hhex hbe) (hdigests a ha b hb) hlabels)

end

namespace Sample

def nameless : Json :=
  .obj [("status", .str "COMPLETED"), ("messages", .arr [.obj [("role", .str "user")]])]

def namelessText : String := "[\x7b\"status\": \"COMPLETED\", \"messages\": [\x7b\"role\": \"user\"\x7d]\x7d]"

def only (id : String) : String := "[" ++ finishedText id ++ "]"

def digests : Stdlib (List Json) :=
  { reading [(only "c", .arr [finished "c"]), (only "b:c", .arr [finished "b:c"]), (namelessText, .arr [nameless])]
    with hex := fun parts => String.ofList (List.replicate 64 (if parts.length = 2 then '2' else '3')) }

theorem digests_plain : PlainHex digests := by
  intro parts hmem
  rw [digests, String.toList_ofList] at hmem
  have hcolon := eq_of_mem_replicate hmem
  split at hcolon <;> exact absurd hcolon (by decide)

def session (id runs : String) : LegacyRow × Int := ({ sessionId := id, runs := some runs }, 0)

end Sample

theorem named_and_nameless_ids_apart :
    IdsApart Sample.digests [Sample.session "a" (Sample.only "c"), Sample.session "b" Sample.namelessText]
      "tenant" :=
  (ids_apart_iff Sample.digests_plain _ "tenant" (by unfold DigestsApart; decide +kernel)).mpr
    (by unfold KeysApart; decide)

/-- The run `c` of the session `a:b` and the run `b:c` of the session `a` get one identifier. -/
theorem joined_names_run_together :
    ¬ ∀ (py : Stdlib (List Json)) (sessions : List (LegacyRow × Int)) (tenantId : String), PlainHex py →
      DigestsApart py (sessions.flatMap fun e => rowKeys py e.1 e.2) →
        (sessions.map fun e => trim e.1.sessionId).Nodup → IdsApart py sessions tenantId := by
  intro h
  have hclash : ¬ IdsApart Sample.digests
      [Sample.session "a:b" (Sample.only "c"), Sample.session "a" (Sample.only "b:c")] "tenant" := by
    unfold IdsApart
    decide
  exact hclash (h Sample.digests _ "tenant" Sample.digests_plain (by unfold DigestsApart; decide)
    (by decide))

end OpenAgent.Projection
