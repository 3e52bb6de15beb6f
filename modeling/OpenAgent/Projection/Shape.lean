import OpenAgent.Projection.Layout
import OpenAgent.Lib.Place

/-!
# The shape of a projection

What the loops of the projection leave behind, one list of rows for each run: the rows of a run name the
run, the rows of a session are numbered in the order they were made, and every message and tool of a run
is found either in a row or in the envelope.
-/

namespace OpenAgent.Projection

open List

variable {D : Type} {py : Stdlib D} {ctx : Context} {frame : RunFrame}

/-! ### Messages -/

theorem isDict_of_not_unread {message : Json} (h : unread py message = false) : message.isDict = true := by
  rw [unread, Bool.or_eq_false_iff, Bool.not_eq_false'] at h
  exact h.1

theorem asObject_of_isDict {value : Json} (h : value.isDict = true) : asObject value = value := by
  rw [asObject, if_pos h]

/-- A row never looks like the one that shows `run.content`, which has no role. -/
theorem ne_contentMarker {message : Json} (h : unread py message = false) : message ≠ contentMarker := by
  rintro rfl
  have hget : contentMarker.get "role" = .null := by decide
  have hword : word py .null = "" := by
    show lower (trim "") = ""
    rfl
  have hrole : hasRole py contentMarker = false := by
    simp [hasRole, messageRole, promptRole, hget, hword]
  rw [unread, hrole] at h
  simp at h

variable [DecidableEq D]

structure LoopAt (py : Stdlib D) (ctx : Context) (frame : RunFrame) (before : Nat) (messages : List Json)
    (n : Nat) (loop : MessageLoop D) : Prop where
  rows : ∀ row ∈ loop.rows, row.runId = frame.id ∧ row.ordinal < n ∧
    messages[row.ordinal]? = some row.rawEnvelope ∧ unread py row.rawEnvelope = false
  skipped : ∀ e ∈ loop.skipped, ∃ i : Nat, e.1 = toString i ∧ messages[i]? = some e.2
  covers : ∀ i x, i < n → messages[i]? = some x → unread py x = false →
    (∃ row ∈ loop.rows, row.ordinal = i ∧ row.rawEnvelope = x) ∨ (toString i, x) ∈ loop.skipped
  sequences : loop.rows.map (·.sequence) = List.range' before loop.rows.length

theorem LoopAt.step {seen : Counts D} {before n : Nat} {messages : List Json} {loop : MessageLoop D}
    {message : Json} (h : LoopAt py ctx frame before messages n loop) (hn : messages[n]? = some message) :
    LoopAt py ctx frame before messages (n + 1)
      (messageStep py ctx frame seen before loop (message, n)) := by
  rw [messageStep]
  cases hread : unread py message with
  | true =>
    simp only [if_true]
    refine ⟨fun row hrow => ?_, h.skipped, fun i x hi hx hreadx => ?_, h.sequences⟩
    · obtain ⟨hid, hlt, hget, hrow'⟩ := h.rows row hrow
      exact ⟨hid, by omega, hget, hrow'⟩
    · by_cases hin : i = n
      · subst hin
        cases hn.symm.trans hx
        simp [hread] at hreadx
      · exact h.covers i x (by omega) hx hreadx
  | false =>
    simp only [Bool.false_eq_true, if_false]
    split
    · refine ⟨fun row hrow => ?_, fun e he => ?_, fun i x hi hx hreadx => ?_, h.sequences⟩
      · obtain ⟨hid, hlt, hget, hrow'⟩ := h.rows row hrow
        exact ⟨hid, by omega, hget, hrow'⟩
      · rcases List.mem_append.mp he with hmem | hmem
        · exact h.skipped e hmem
        · cases List.mem_singleton.mp hmem
          exact ⟨n, rfl, hn⟩
      · by_cases hin : i = n
        · subst hin
          cases hn.symm.trans hx
          exact .inr (mem_append_right _ (mem_singleton_self _))
        · exact (h.covers i x (by omega) hx hreadx).imp id fun hmem => mem_append_left _ hmem
    · have hraw : asObject message = message := asObject_of_isDict (isDict_of_not_unread hread)
      refine ⟨fun row hrow => ?_, h.skipped, fun i x hi hx hreadx => ?_, ?_⟩
      · rcases List.mem_append.mp hrow with hmem | hmem
        · obtain ⟨hid, hlt, hget, hrow'⟩ := h.rows row hmem
          exact ⟨hid, by omega, hget, hrow'⟩
        · rw [List.mem_singleton.mp hmem]
          refine ⟨rfl, Nat.lt_succ_self n, ?_, ?_⟩
          · show messages[n]? = some (asObject message)
            rw [hraw, hn]
          · show unread py (asObject message) = false
            rw [hraw, hread]
      · by_cases hin : i = n
        · subst hin
          cases hn.symm.trans hx
          exact .inl ⟨_, mem_append_right _ (mem_singleton_self _), rfl, hraw⟩
        · refine (h.covers i x (by omega) hx hreadx).imp (fun hrow => ?_) id
          obtain ⟨row, hmem, hplace⟩ := hrow
          exact ⟨row, mem_append_left _ hmem, hplace⟩
      · rw [map_append, h.sequences, length_append, length_singleton, range'_concat,
          Nat.one_mul]
        rfl

theorem messageLoop_spec (seen : Counts D) (before : Nat) (messages : List Json) :
    LoopAt py ctx frame before messages messages.length
      (messageLoop py ctx frame seen before messages) := by
  have hfold : ∀ (rest : List Json) (n : Nat) (loop : MessageLoop D), messages.drop n = rest →
      n ≤ messages.length → LoopAt py ctx frame before messages n loop →
      LoopAt py ctx frame before messages messages.length
        ((rest.zipIdx n).foldl (messageStep py ctx frame seen before) loop) := by
    intro rest
    induction rest with
    | nil =>
      intro n loop hdrop hle h
      have hlen : messages.length = n := by
        have := congrArg List.length hdrop
        rw [length_drop, length_nil] at this
        omega
      rw [hlen]
      exact h
    | cons message rest ih =>
      intro n loop hdrop hle h
      have hget : messages[n]? = some message := by
        rw [← head?_drop, hdrop]
        rfl
      obtain ⟨hlt, -⟩ := List.getElem?_eq_some_iff.mp hget
      rw [zipIdx_cons, foldl_cons]
      apply ih (n + 1) _ _ hlt (h.step hget)
      rw [← drop_drop, hdrop]
      rfl
  apply hfold messages 0 _ drop_zero (Nat.zero_le _)
  refine ⟨fun row hrow => absurd hrow not_mem_nil, fun e he => absurd he not_mem_nil, ?_, rfl⟩
  intro i x hi
  omega

/-! ### Tools -/

omit [DecidableEq D] in
theorem toolRows_spec {before position : Nat} {tools : List Json} {rows : List ToolRow}
    (h : toolRows py ctx frame before position tools = .ok rows) :
    rows.map (·.rawEnvelope) = tools.filter Json.isDict ∧
      (∀ row ∈ rows, row.sessionRunId = frame.id ∧ row.rootId = ctx.sessionId) ∧
      rows.map (·.ordinal) = List.range' before rows.length := by
  induction tools generalizing before position rows with
  | nil =>
    cases h
    exact ⟨rfl, fun row hrow => absurd hrow not_mem_nil, rfl⟩
  | cons tool rest ih =>
    rw [toolRows] at h
    cases hdict : tool.isDict with
    | false =>
      rw [if_neg (by simp [hdict])] at h
      rw [filter_cons_of_neg (by simp [hdict])]
      exact ih h
    | true =>
      rw [if_pos hdict] at h
      cases hrow : toolRow py ctx frame before position tool with
      | error e => simp [hrow, bind, Except.bind] at h
      | ok row =>
        cases hrest : toolRows py ctx frame (before + 1) (position + 1) rest with
        | error e => simp [hrow, hrest, bind, Except.bind] at h
        | ok others =>
          simp only [hrow, hrest, bind, Except.bind, pure, Except.pure, Except.ok.injEq] at h
          subst h
          obtain ⟨hraw, hids, hordinals⟩ := ih hrest
          obtain ⟨hraw', hrun, hroot, hordinal⟩ : row.rawEnvelope = tool ∧
              row.sessionRunId = frame.id ∧ row.rootId = ctx.sessionId ∧ row.ordinal = before := by
            rw [toolRow] at hrow
            cases hlife : normalizedToolLifecycle py tool with
            | error e => simp [hlife, bind, Except.bind] at hrow
            | ok life =>
              simp only [hlife, bind, Except.bind, pure, Except.pure, Except.ok.injEq] at hrow
              subst hrow
              exact ⟨asObject_of_isDict hdict, rfl, rfl, rfl⟩
          refine ⟨?_, ?_, ?_⟩
          · rw [map_cons, hraw', hraw, filter_cons_of_pos hdict]
          · intro r hr
            rcases List.mem_cons.mp hr with rfl | hmem
            · exact ⟨hrun, hroot⟩
            · exact hids r hmem
          · rw [map_cons, hordinal, hordinals, length_cons, range'_succ]

/-! ### Runs -/

structure Part where
  row : RunRow
  messages : List MessageRow
  content : List MessageRow
  tools : List ToolRow

structure PartOf (py : Stdlib D) (ctx : Context) (run : Json) (ordinal : Nat) (part : Part) : Prop where
  isDict : run.isDict = true
  ordinal_eq : part.row.ordinal = ordinal
  fromLoop : ∃ (frame : RunFrame) (before : Nat) (loop : MessageLoop D), frame.id = part.row.id ∧
    LoopAt py ctx frame before (run.get "messages").items (run.get "messages").items.length loop ∧
    part.messages = loop.rows ∧
    part.row.rawEnvelope = asObject (withSkipped (boundedRunEnvelope py run) loop.skipped)
  content : ∀ row ∈ part.content, row.runId = part.row.id ∧ row.rawEnvelope = contentMarker
  tools : part.tools.map (·.rawEnvelope) = (run.get "tools").items.filter Json.isDict
  toolRun : ∀ row ∈ part.tools, row.sessionRunId = part.row.id ∧ row.rootId = ctx.sessionId

structure Progress.Numbered (progress : Progress D) : Prop where
  sequences : progress.messages.map (·.sequence) = List.range progress.messages.length
  ordinals : progress.tools.map (·.ordinal) = List.range progress.tools.length

section

omit [DecidableEq D]

variable (ordinal : Nat) (run : Json) (life : RunStatus × String × Bool) (envelope : Json)

theorem runRow_id : (runRow py ctx ordinal run life envelope).id = runId py ctx ordinal run := by
  rw [runRow]

theorem runRow_ordinal : (runRow py ctx ordinal run life envelope).ordinal = ordinal := by
  rw [runRow]

theorem runRow_rawEnvelope : (runRow py ctx ordinal run life envelope).rawEnvelope = asObject envelope := by
  rw [runRow]

end

omit [DecidableEq D] in
/-- The row that shows `run.content` comes after all rows so far. -/
theorem contentRows_spec (run : Json) (rows : List MessageRow) :
    (∀ row ∈ contentRows py ctx frame run rows, row.runId = frame.id ∧ row.rawEnvelope = contentMarker) ∧
      (contentRows py ctx frame run rows).map (·.sequence)
        = List.range' rows.length (contentRows py ctx frame run rows).length := by
  rw [contentRows]
  split
  · exact ⟨fun row hrow => absurd hrow not_mem_nil, rfl⟩
  · refine ⟨fun row hrow => ?_, rfl⟩
    rw [List.mem_singleton.mp hrow]
    exact ⟨rfl, rfl⟩

theorem projectRun_spec {progress progress' : Progress D} {run : Json} {ordinal : Nat}
    (h : projectRun py ctx progress (run, ordinal) = .ok progress') (hnumbered : progress.Numbered) :
    ∃ part, PartOf py ctx run ordinal part ∧ progress'.runs = progress.runs ++ [part.row] ∧
      progress'.messages = progress.messages ++ (part.messages ++ part.content) ∧
      progress'.tools = progress.tools ++ part.tools ∧ progress'.Numbered := by
  rw [projectRun] at h
  cases hdict : run.isDict with
  | false => simp [hdict, bind, Except.bind] at h
  | true =>
    cases hlife : runLifecycle py ordinal run with
    | error e => simp [hdict, hlife, bind, Except.bind] at h
    | ok life =>
      simp only [hdict, hlife, Bool.not_true, Bool.false_eq_true, if_false, bind, Except.bind, pure,
        Except.pure] at h
      split at h
      · cases h
      · rename_i tools htools
        cases h
        obtain ⟨hraw, hruns, hordinals⟩ := toolRows_spec htools
        generalize hrow : runRow py ctx ordinal run life (boundedRunEnvelope py run) = row at *
        have hloop := @messageLoop_spec _ py ctx row.frame _ progress.seen
          progress.messages.length (run.get "messages").items
        generalize messageLoop py ctx row.frame progress.seen progress.messages.length
          (run.get "messages").items = loop at *
        obtain ⟨hcontent, hsequences⟩ := @contentRows_spec _ py ctx row.frame
          run (progress.messages ++ loop.rows)
        have hid : row.id = runId py ctx ordinal run := hrow ▸ runRow_id ..
        generalize hrow' : runRow py ctx ordinal run life
          (withSkipped (boundedRunEnvelope py run) loop.skipped) = row'
        have hid' : row.id = row'.id := hid.trans (hrow' ▸ (runRow_id ..).symm)
        have hraw' : row'.rawEnvelope = asObject (withSkipped (boundedRunEnvelope py run) loop.skipped) :=
          hrow' ▸ runRow_rawEnvelope ..
        have hordinal : row'.ordinal = ordinal := hrow' ▸ runRow_ordinal ..
        refine ⟨⟨row', loop.rows, contentRows py ctx row.frame run (progress.messages ++ loop.rows), tools⟩,
          ⟨hdict, hordinal, ⟨row.frame, _, loop, hid', hloop, rfl, hraw'⟩, fun r hr => ?_, hraw,
            fun r hr => ?_⟩, rfl, append_assoc _ _ _, rfl, ?_, ?_⟩
        · obtain ⟨hrun, hmarker⟩ := hcontent r hr
          exact ⟨hrun.trans hid', hmarker⟩
        · obtain ⟨hrun, hroot⟩ := hruns r hr
          exact ⟨hrun.trans hid', hroot⟩
        · show (progress.messages ++ loop.rows ++ _).map _ = _
          rw [map_append, map_append, hnumbered.sequences, hloop.sequences, hsequences]
          simp only [length_append, range_eq_range']
          rw [← range'_append_1, ← range'_append_1, Nat.zero_add, Nat.zero_add]
        · show (progress.tools ++ tools).map _ = _
          rw [map_append, hnumbered.ordinals, hordinals]
          simp only [length_append, range_eq_range']
          rw [← range'_append_1, Nat.zero_add]

structure Parts (py : Stdlib D) (ctx : Context) (runs : List Json) (progress : Progress D)
    (parts : List Part) : Prop where
  length : parts.length = runs.length
  part : ∀ (i : Nat) (run : Json) (part : Part), runs[i]? = some run → parts[i]? = some part →
    PartOf py ctx run i part
  runs : progress.runs = parts.map (·.row)
  messages : progress.messages = parts.flatMap fun part => part.messages ++ part.content
  tools : progress.tools = parts.flatMap (·.tools)
  numbered : progress.Numbered

variable {parts : List Part}

variable {runs : List Json}

theorem Parts.snoc {progress progress' : Progress D} {run : Json}
    (h : Parts py ctx runs progress parts)
    (hrun : projectRun py ctx progress (run, runs.length) = .ok progress') :
    ∃ part, Parts py ctx (runs ++ [run]) progress' (parts ++ [part]) := by
  obtain ⟨part, hpart, hruns, hmessages, htools, hnumbered⟩ := projectRun_spec hrun h.numbered
  refine ⟨part, by simp [h.length], ?_, ?_, ?_, ?_, hnumbered⟩
  · intro i run' part' hrun' hpart'
    rcases Lib.getElem?_append_singleton.mp hrun' with hold | ⟨rfl, rfl⟩
    · obtain ⟨hlt, -⟩ := List.getElem?_eq_some_iff.mp hold
      rw [getElem?_append_left (by rw [h.length]; exact hlt)] at hpart'
      exact h.part i run' part' hold hpart'
    · rw [← h.length, getElem?_concat_length] at hpart'
      cases hpart'
      exact hpart
  · rw [hruns, h.runs, map_append]
    rfl
  · rw [hmessages, h.messages, flatMap_append, flatMap_singleton]
  · rw [htools, h.tools, flatMap_append, flatMap_singleton]

theorem projectRuns_spec {progress : Progress D}
    (h : projectRuns py ctx runs = .ok progress) : ∃ parts, Parts py ctx runs progress parts := by
  have hfold : ∀ (rest front : List Json) (before : Progress D) (parts : List Part),
      Parts py ctx front before parts →
      (rest.zipIdx front.length).foldlM (projectRun py ctx) before = .ok progress →
      ∃ parts, Parts py ctx (front ++ rest) progress parts := by
    intro rest
    induction rest with
    | nil =>
      intro front before parts hparts hrest
      cases hrest
      rw [append_nil]
      exact ⟨parts, hparts⟩
    | cons run rest ih =>
      intro front before parts hparts hrest
      rw [zipIdx_cons, foldlM_cons] at hrest
      cases hrun : projectRun py ctx before (run, front.length) with
      | error e => simp [hrun, bind, Except.bind] at hrest
      | ok after =>
        simp only [hrun, bind, Except.bind] at hrest
        obtain ⟨part, hparts'⟩ := hparts.snoc hrun
        have hlength : (front ++ [run]).length = front.length + 1 := by simp
        rw [← hlength] at hrest
        have hdone := ih (front ++ [run]) after (parts ++ [part]) hparts' hrest
        rwa [append_assoc] at hdone
  have hempty : Parts py ctx [] ({} : Progress D) [] :=
    ⟨rfl, fun i run part hrun => by simp at hrun, rfl, rfl, rfl, rfl, rfl⟩
  exact hfold runs [] {} [] hempty h

/-! ### The rows of one run among those of a session -/

theorem filter_flatMap_part {α : Type} {entries : Part → List α} {runOf : α → String}
    (hown : ∀ part ∈ parts, ∀ x ∈ entries part, runOf x = part.row.id)
    (hapart : parts.Pairwise fun a b => a.row.id ≠ b.row.id) {part : Part} (hpart : part ∈ parts) :
    (parts.flatMap entries).filter (fun x => runOf x = part.row.id) = entries part := by
  have hnone : ∀ rest : List Part, (∀ p ∈ rest, p.row.id ≠ part.row.id) →
      (∀ p ∈ rest, ∀ x ∈ entries p, runOf x = p.row.id) →
      (rest.flatMap entries).filter (fun x => runOf x = part.row.id) = [] := by
    intro rest hne hown
    rw [filter_eq_nil_iff]
    intro x hx
    obtain ⟨p, hp, hxp⟩ := List.mem_flatMap.mp hx
    rw [decide_eq_true_eq, hown p hp x hxp]
    exact hne p hp
  induction parts with
  | nil => cases hpart
  | cons first rest ih =>
    have hrest := List.pairwise_cons.mp hapart
    have hownRest : ∀ p ∈ rest, ∀ x ∈ entries p, runOf x = p.row.id :=
      fun p hp => hown p (mem_cons_of_mem _ hp)
    rw [flatMap_cons, filter_append]
    rcases List.mem_cons.mp hpart with rfl | hmem
    · have hself : (entries part).filter (fun x => runOf x = part.row.id) = entries part := by
        rw [filter_eq_self]
        intro x hx
        exact decide_eq_true (hown part mem_cons_self x hx)
      rw [hself, hnone rest (fun p hp => (hrest.1 p hp).symm) hownRest, append_nil]
    · have hfirst : (entries first).filter (fun x => runOf x = part.row.id) = [] := by
        rw [filter_eq_nil_iff]
        intro x hx
        rw [decide_eq_true_eq, hown first mem_cons_self x hx]
        exact hrest.1 part hmem
      rw [hfirst, nil_append]
      exact ih hownRest hrest.2 hmem

omit [DecidableEq D] in
theorem PartOf.message {run : Json} {i : Nat} {part : Part} (h : PartOf py ctx run i part) {row : MessageRow}
    (hrow : row ∈ part.messages) : row.runId = part.row.id ∧ unread py row.rawEnvelope = false := by
  obtain ⟨frame, before, loop, hid, hloop, hrows, -⟩ := h.fromLoop
  rw [hrows] at hrow
  obtain ⟨hrun, -, -, hread⟩ := hloop.rows row hrow
  exact ⟨hrun.trans hid, hread⟩

omit [DecidableEq D] in
theorem Parts.partOf {progress : Progress D}
    (h : Parts py ctx runs progress parts) {part : Part} (hpart : part ∈ parts) :
    ∃ run i, PartOf py ctx run i part := by
  obtain ⟨i, hlt, hget⟩ := List.mem_iff_getElem.mp hpart
  have hrun := hlt
  rw [h.length] at hrun
  refine ⟨runs[i], i, h.part i _ part (getElem?_eq_getElem hrun) ?_⟩
  rw [getElem?_eq_getElem hlt, hget]

omit [DecidableEq D] in
theorem Parts.isDict {progress : Progress D}
    (h : Parts py ctx runs progress parts) :
    (∀ row ∈ progress.messages, row.rawEnvelope.isDict = true) ∧
      ∀ row ∈ progress.tools, row.rawEnvelope.isDict = true := by
  constructor
  · intro row hrow
    rw [h.messages] at hrow
    obtain ⟨part, hpart, hin⟩ := List.mem_flatMap.mp hrow
    obtain ⟨run, i, hpartOf⟩ := h.partOf hpart
    rcases List.mem_append.mp hin with hmem | hmem
    · exact isDict_of_not_unread (hpartOf.message hmem).2
    · rw [(hpartOf.content row hmem).2]
      rfl
  · intro row hrow
    rw [h.tools] at hrow
    obtain ⟨part, hpart, hin⟩ := List.mem_flatMap.mp hrow
    obtain ⟨run, i, hpartOf⟩ := h.partOf hpart
    have hraw : row.rawEnvelope ∈ part.tools.map (·.rawEnvelope) := mem_map_of_mem hin
    rw [hpartOf.tools] at hraw
    exact (List.mem_filter.mp hraw).2

end OpenAgent.Projection
