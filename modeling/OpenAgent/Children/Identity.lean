import OpenAgent.Children.Slots
import OpenAgent.Lib.Dict

/-!
# The ids of child sessions

A child that is spawned without a session id gets one from `mint_child_session_id`. A delegation and a spawn of an
unknown origin end theirs with a whole `uuid4`; the others join the names of their work with colons, and draw eight
digits only where a firing or a delivery has no id. The steps of a workflow that share a session are meant to meet
there. What is shown is that no other two spawns meet, as far as their names tell them apart.
-/

namespace OpenAgent.Children.Identity

open Lib Slots List

/-- The dictionary `origin_ref`; a value may be `None`. -/
abbrev OriginRef := Dict String (Option String)

/-- `origin_ref.get(key) or default` -/
def OriginRef.getOr (ref : OriginRef) (key default : String) : String := pick (ref.get? key).join default

/-- `text[:n]` -/
def leading (n : Nat) (text : String) : String := String.ofList (text.toList.take n)

/-- `text.split("::sub::", 1)[0]`, a character at a time. -/
def beforeSub : List Char → List Char
  | [] => []
  | c :: rest => if "::sub::".toList.isPrefixOf (c :: rest) then [] else c :: beforeSub rest

/-- `re.fullmatch(r"[A-Za-z0-9][A-Za-z0-9_.:@-]\x7b0,47\x7d", root)` -/
def isBoundedRoot : List Char → Bool
  | [] => false
  | c :: rest => c.isAlphanum && decide (rest.length ≤ 47) &&
      rest.all fun d => d.isAlphanum || d == '_' || d == '.' || d == ':' || d == '@' || d == '-'

variable (sha256 : String → String)

def displayRoot (parent : String) : String :=
  let root := String.ofList (beforeSub parent.toList)
  if isBoundedRoot root.toList then root else "childroot_" ++ leading 24 (sha256 root)

def delegationLabel (parent modelId : String) : String := leading 24 (sha256 (parent ++ "\x00" ++ modelId))

/-- `mint_child_session_id`, where `token` is the hex of the `uuid4` that the call may draw and `sha256` the hex digest
of a text. -/
def mintChildSessionId (origin : String) (originRef : OriginRef) (token : String) : String :=
  if origin = "delegation" then
    let parent := originRef.getOr "parent_session_id" "root"
    let modelId := originRef.getOr "model_id" "model"
    displayRoot sha256 parent ++ "::sub::" ++ delegationLabel sha256 parent modelId ++ "::" ++ token
  else if origin = "scheduler" then
    let taskId := originRef.getOr "task_id" "task"
    let runId := originRef.getOr "run_id" (leading 8 token)
    "scheduler:" ++ taskId ++ ":" ++ runId
  else if origin = "workflow" then
    let wf := originRef.getOr "workflow_id" "wf"
    let run := originRef.getOr "run_id" "run"
    let node := originRef.getOr "node_id" ""
    if node = "" then "workflow:" ++ wf ++ ":" ++ run else "workflow:" ++ wf ++ ":" ++ run ++ ":" ++ node
  else if origin = "event" then
    let ev := originRef.getOr "event_id" "event"
    let delivery := originRef.getOr "delivery_id" (leading 8 token)
    "event:" ++ ev ++ ":" ++ delivery
  else origin ++ ":" ++ token

/-- A call of `run_child_session`, or of `mint_child_session_id` itself, with the `uuid4` that it draws. -/
structure Spawn where
  origin : String
  originRef : OriginRef
  parentSessionId : Option String := none
  sessionId : Option String := none
  token : String

/-- The reference that the id is minted from: it names the parent, unless it has done so. -/
def Spawn.ref (s : Spawn) : OriginRef :=
  if pick s.parentSessionId "" ≠ "" ∧ ¬s.originRef.contains "parent_session_id" then
    s.originRef.set "parent_session_id" s.parentSessionId
  else s.originRef

/-- `session_id or mint_child_session_id(origin, origin_ref)` -/
def Spawn.childSid (s : Spawn) : String := pick s.sessionId (mintChildSessionId sha256 s.origin s.ref s.token)

def Spawn.Unnamed (s : Spawn) : Prop := pick s.sessionId "" = ""

instance (s : Spawn) : Decidable s.Unnamed := inferInstanceAs (Decidable (_ = _))

/-! ### The steps of a workflow -/

/-- An `ai-prompt` step, with its `session_policy`. -/
structure PromptNode where
  id : String
  sessionPolicy : String := "ephemeral"

def PromptNode.isShared (node : PromptNode) : Bool := node.sessionPolicy == "shared"

structure RunCtx where
  workflowId : String
  runId : String

/-- What `_h_ai_prompt` spawns for a step. -/
def hAiPrompt (ctx : RunCtx) (node : PromptNode) (token : String) : Spawn where
  origin := "workflow"
  originRef :=
    let ref : OriginRef := (Dict.empty.set "workflow_id" (some ctx.workflowId)).set "run_id" (some ctx.runId)
    if node.isShared then ref else ref.set "node_id" (some node.id)
  parentSessionId := if node.isShared then none else some ("workflow:" ++ ctx.workflowId ++ ":" ++ ctx.runId)
  token := token

/-- The steps that `_h_loop` walks through: its body once for each item, up to the greatest number of iterations. -/
def hLoop {Item : Type} (maxIter : Nat) (items : List Item) (body : List PromptNode) : List PromptNode :=
  (items.take maxIter).flatMap fun _ => body

def spawnAll (ctx : RunCtx) (nodes : List PromptNode) (tokens : List String) : List Spawn :=
  List.zipWith (hAiPrompt ctx) nodes tokens

/-! ### What an id says -/

def Spawn.parts (s : Spawn) : List String :=
  if s.origin = "delegation" then
    let parent := s.ref.getOr "parent_session_id" "root"
    [displayRoot sha256 parent, "", "sub", "", delegationLabel sha256 parent (s.ref.getOr "model_id" "model"), "", s.token]
  else if s.origin = "scheduler" then
    ["scheduler", s.ref.getOr "task_id" "task", s.ref.getOr "run_id" (leading 8 s.token)]
  else if s.origin = "workflow" then
    ["workflow", s.ref.getOr "workflow_id" "wf", s.ref.getOr "run_id" "run"] ++
      if s.ref.getOr "node_id" "" = "" then [] else [s.ref.getOr "node_id" ""]
  else if s.origin = "event" then
    ["event", s.ref.getOr "event_id" "event", s.ref.getOr "delivery_id" (leading 8 s.token)]
  else [s.origin, s.token]

def cut (text : String) : List (List Char) := text.toList.splitOn ':'

def Spawn.pieces (s : Spawn) : List (List Char) := (s.parts sha256).flatMap cut

/-- The spawn's id ends with the whole `uuid4` that it drew. -/
def Spawn.DrawsWhole (s : Spawn) : Prop := s.origin ≠ "scheduler" ∧ s.origin ≠ "workflow" ∧ s.origin ≠ "event"

def Spawn.Plain (s : Spawn) : Prop := s.origin = "delegation" ∨ ∀ part ∈ s.parts sha256, ':' ∉ part.toList

/-- What is asked of the `uuid4`s of a history. -/
structure Drawn (history : List Spawn) : Prop where
  distinct : (history.map Spawn.token).Nodup
  colonless : ∀ s ∈ history, ':' ∉ s.token.toList

variable {sha256 : String → String} {s a b : Spawn}

theorem Spawn.childSid_eq (h : s.Unnamed) : s.childSid sha256 = mintChildSessionId sha256 s.origin s.ref s.token := by
  rw [Unnamed] at h
  rw [childSid]
  cases hs : s.sessionId with
  | none => rfl
  | some text =>
    by_cases htext : text = ""
    · simp [pick, htext]
    · simp [hs, pick, htext] at h

attribute [local simp] Spawn.parts

theorem Spawn.mint_eq_join : mintChildSessionId sha256 s.origin s.ref s.token = ":".intercalate (s.parts sha256) := by
  apply String.toList_injective
  rw [String.toList_intercalate, mintChildSessionId, parts]
  by_cases hdelegation : s.origin = "delegation"
  · simp [hdelegation, List.intercalate]
  by_cases hscheduler : s.origin = "scheduler"
  · simp [hscheduler, List.intercalate]
  by_cases hworkflow : s.origin = "workflow"
  · by_cases hnode : s.ref.getOr "node_id" "" = "" <;> simp [hworkflow, hnode, List.intercalate]
  by_cases hevent : s.origin = "event"
  · simp [hevent, List.intercalate]
  · simp [hdelegation, hscheduler, hworkflow, hevent, List.intercalate]

theorem cut_join {parts : List String} (hne : parts ≠ []) : cut (":".intercalate parts) = parts.flatMap cut := by
  rw [cut, String.toList_intercalate]
  induction parts with
  | nil => exact absurd rfl hne
  | cons part rest ih =>
    cases rest with
    | nil => simp [cut]
    | cons next rest =>
      rw [map_cons, intercalate_cons_of_ne_nil (by simp), append_assoc]
      have hcolon : ":".toList ++ ":".toList.intercalate ((next :: rest).map String.toList) =
          ':' :: ":".toList.intercalate ((next :: rest).map String.toList) := rfl
      rw [hcolon, splitOn_append_cons_self, ih (by simp)]
      rfl

theorem Spawn.parts_ne_nil : s.parts sha256 ≠ [] := by
  rw [parts]
  split_ifs <;> simp

theorem Spawn.cut_childSid (h : s.Unnamed) : cut (s.childSid sha256) = s.pieces sha256 := by
  rw [childSid_eq h, mint_eq_join, cut_join parts_ne_nil, pieces]

theorem Spawn.pieces_getLast? (hwhole : s.DrawsWhole) (hcolon : ':' ∉ s.token.toList) :
    (s.pieces sha256).getLast? = some s.token.toList := by
  have hlast : ∃ front, s.parts sha256 = front ++ [s.token] := by
    rw [parts, if_neg hwhole.1, if_neg hwhole.2.1, if_neg hwhole.2.2]
    split
    · exact ⟨[_, "", "sub", "", _, ""], rfl⟩
    · exact ⟨[s.origin], rfl⟩
  obtain ⟨front, hfront⟩ := hlast
  rw [pieces, hfront, flatMap_append, flatMap_singleton, cut, splitOn_eq_singleton hcolon]
  simp

theorem cut_ne_nil (text : String) : cut text ≠ [] := splitOn_ne_nil _ _

theorem length_le_length_pieces (parts : List String) : parts.length ≤ (parts.flatMap cut).length := by
  induction parts with
  | nil => exact Nat.le_refl 0
  | cons part rest ih =>
    have hpos := length_pos_of_ne_nil (cut_ne_nil part)
    rw [flatMap_cons, length_append, length_cons]
    omega

theorem flatMap_cut_of_colonless {parts : List String} (h : ∀ part ∈ parts, ':' ∉ part.toList) :
    parts.flatMap cut = parts.map String.toList := by
  induction parts with
  | nil => rfl
  | cons part rest ih =>
    rw [flatMap_cons, cut, splitOn_eq_singleton (h part mem_cons_self),
      ih fun p hp => h p (mem_cons_of_mem _ hp)]
    rfl

theorem Spawn.length_pieces_of_delegation (h : s.origin = "delegation") : 7 ≤ (s.pieces sha256).length := by
  have hlength := length_le_length_pieces (s.parts sha256)
  have hparts : (s.parts sha256).length = 7 := by rw [parts, if_pos h]; rfl
  rw [pieces]
  omega

theorem Spawn.length_parts_of_other (h : s.origin ≠ "delegation") : (s.parts sha256).length ≤ 4 := by
  rw [parts, if_neg h]
  split_ifs <;> simp

theorem Spawn.pieces_of_plain (h : s.Plain sha256) (hother : s.origin ≠ "delegation") :
    s.pieces sha256 = (s.parts sha256).map String.toList := flatMap_cut_of_colonless (h.resolve_left hother)

theorem Spawn.drawsWhole_iff_length (hother : s.origin ≠ "delegation") :
    s.DrawsWhole ↔ (s.parts sha256).length = 2 := by
  rw [parts, if_neg hother, DrawsWhole]
  split_ifs <;> simp_all

/-! ### Spawns that meet -/

theorem Spawn.pieces_eq_of_childSid_eq (ha : a.Unnamed) (hb : b.Unnamed)
    (heq : a.childSid sha256 = b.childSid sha256) : a.pieces sha256 = b.pieces sha256 := by
  rw [← cut_childSid ha, ← cut_childSid hb, heq]

theorem Spawn.not_both_whole (hne : a.token ≠ b.token) (hcolonA : ':' ∉ a.token.toList) (hcolonB : ':' ∉ b.token.toList)
    (hpieces : a.pieces sha256 = b.pieces sha256) : ¬(a.DrawsWhole ∧ b.DrawsWhole) := by
  rintro ⟨hwholeA, hwholeB⟩
  have hlast : some a.token.toList = some b.token.toList := by
    rw [← pieces_getLast? hwholeA hcolonA, ← pieces_getLast? hwholeB hcolonB, hpieces]
  apply hne
  apply String.toList_injective
  exact Option.some.inj hlast

theorem Spawn.parts_eq_of_plain (hwhole : ¬(a.DrawsWhole ∧ b.DrawsWhole)) (hpieces : a.pieces sha256 = b.pieces sha256)
    (hplainA : a.Plain sha256) (hplainB : b.Plain sha256) :
    ¬a.DrawsWhole ∧ ¬b.DrawsWhole ∧ a.parts sha256 = b.parts sha256 := by
  by_cases hotherA : a.origin = "delegation"
  · have hlong := @length_pieces_of_delegation sha256 a hotherA
    by_cases hotherB : b.origin = "delegation"
    · exact absurd ⟨by simp [DrawsWhole, hotherA], by simp [DrawsWhole, hotherB]⟩ hwhole
    · have hshort := @length_parts_of_other sha256 b hotherB
      rw [hpieces, pieces_of_plain hplainB hotherB, length_map] at hlong
      omega
  · have hshort := @length_parts_of_other sha256 a hotherA
    by_cases hotherB : b.origin = "delegation"
    · have hlong := @length_pieces_of_delegation sha256 b hotherB
      rw [← hpieces, pieces_of_plain hplainA hotherA, length_map] at hlong
      omega
    · rw [pieces_of_plain hplainA hotherA, pieces_of_plain hplainB hotherB] at hpieces
      have hparts := List.map_injective_iff.mpr (fun _ _ => String.toList_injective) hpieces
      have hsame : a.DrawsWhole ↔ b.DrawsWhole := by
        rw [@drawsWhole_iff_length sha256 a hotherA, @drawsWhole_iff_length sha256 b hotherB, hparts]
      exact ⟨fun h => hwhole ⟨h, hsame.mp h⟩, fun h => hwhole ⟨hsame.mpr h, h⟩, hparts⟩

@[simp] theorem hAiPrompt_origin (ctx : RunCtx) (node : PromptNode) (token : String) :
    (hAiPrompt ctx node token).origin = "workflow" := rfl

theorem hAiPrompt_unnamed (ctx : RunCtx) (node : PromptNode) (token : String) : (hAiPrompt ctx node token).Unnamed := rfl

theorem Spawn.ref_getOr {key default : String} (hkey : key ≠ "parent_session_id") :
    s.ref.getOr key default = s.originRef.getOr key default := by
  rw [ref]
  split
  · rw [OriginRef.getOr, Dict.get?_set_ne _ _ hkey, OriginRef.getOr]
  · rfl

theorem hAiPrompt_parts (ctx : RunCtx) (node : PromptNode) (token : String) :
    (hAiPrompt ctx node token).parts sha256 =
      ["workflow", pick (some ctx.workflowId) "wf", pick (some ctx.runId) "run"] ++
        if node.isShared ∨ node.id = "" then [] else [node.id] := by
  rw [Spawn.parts, hAiPrompt_origin, if_neg (by decide), if_neg (by decide), if_pos rfl, Spawn.ref_getOr (by decide),
    Spawn.ref_getOr (by decide), Spawn.ref_getOr (by decide)]
  cases hshared : node.isShared with
  | true => simp [hAiPrompt, hshared, OriginRef.getOr, Dict.get?_set, pick]
  | false => by_cases hid : node.id = "" <;> simp [hAiPrompt, hshared, OriginRef.getOr, Dict.get?_set, pick, hid]

theorem hAiPrompt_childSid (ctx : RunCtx) (node : PromptNode) (token : String) :
    (hAiPrompt ctx node token).childSid sha256 =
      ":".intercalate (["workflow", pick (some ctx.workflowId) "wf", pick (some ctx.runId) "run"] ++
        if node.isShared ∨ node.id = "" then [] else [node.id]) := by
  rw [Spawn.childSid_eq (hAiPrompt_unnamed ctx node token), Spawn.mint_eq_join, hAiPrompt_parts]

theorem shared_steps_meet {ctx : RunCtx} {first second : PromptNode} {t u : String} (hfirst : first.isShared)
    (hsecond : second.isShared) :
    (hAiPrompt ctx first t).childSid sha256 = (hAiPrompt ctx second u).childSid sha256 := by
  rw [hAiPrompt_childSid, hAiPrompt_childSid, if_pos (.inl hfirst), if_pos (.inl hsecond)]

namespace Sample

def digest (text : String) : String :=
  if text = "chat\x00fast" then "5a737f70c24ba806d9b4fd342d2fc2dbbcade2e2f51f49aa798dea218b5835a1" else ""

def ctx : RunCtx := ⟨"report", "1"⟩

def firstToken : String := "6f1c0a52c7b94d0e8a3f5b7d9e112233"

def secondToken : String := "0b8d4e6f2a1c4937b5d6e8f7a9c04455"

def steps : List Spawn := spawnAll ctx [⟨"draft", "shared"⟩, ⟨"review", "shared"⟩] [firstToken, secondToken]

def delegated (token : String) : Spawn where
  origin := "delegation"
  originRef := Dict.empty.set "model_id" (some "fast")
  parentSessionId := some "chat"
  token := token

def delegations : List Spawn := [delegated firstToken, delegated secondToken]

theorem steps_drawn : (∀ s ∈ steps, s.Unnamed) ∧ Drawn steps := by
  have hcases : ∀ s ∈ steps, s.Unnamed ∧ ':' ∉ s.token.toList := by
    intro s hs
    simp only [steps, spawnAll, zipWith_cons_cons, zipWith_nil_left, mem_cons, not_mem_nil,
      or_false] at hs
    rcases hs with rfl | rfl
    · exact ⟨rfl, by decide +kernel⟩
    · exact ⟨rfl, by decide⟩
  exact ⟨fun s hs => (hcases s hs).1, by decide, fun s hs => (hcases s hs).2⟩

theorem delegations_drawn : (∀ s ∈ delegations, s.Unnamed) ∧ Drawn delegations := by
  have hcases : ∀ s ∈ delegations, s.Unnamed ∧ ':' ∉ s.token.toList := by
    intro s hs
    simp only [delegations, mem_cons, not_mem_nil, or_false] at hs
    rcases hs with rfl | rfl
    · exact ⟨rfl, by decide +kernel⟩
    · exact ⟨rfl, by decide +kernel⟩
  exact ⟨fun s hs => (hcases s hs).1, by decide, fun s hs => (hcases s hs).2⟩

end Sample

/-- Two steps of one run that share a session are two spawns with one id. -/
theorem two_spawns_of_one_id :
    (∀ s ∈ Sample.steps, s.Unnamed) ∧ Drawn Sample.steps ∧ ¬(Sample.steps.map (Spawn.childSid Sample.digest)).Nodup :=
  ⟨Sample.steps_drawn.1, Sample.steps_drawn.2, by decide +kernel⟩

/-- In every history of spawns without a session id, whose draws differ, two spawns get one id only where they do not
both end with their draw and their names, cut at their colons, agree; where the names hold no colon, they name the same
work. The steps of a run that share a session are given one. -/
theorem spawns_meet_where_their_names_do {history : List Spawn} (hunnamed : ∀ s ∈ history, s.Unnamed)
    (hdrawn : Drawn history) :
    history.Pairwise (fun a b => a.childSid sha256 = b.childSid sha256 →
      ¬(a.DrawsWhole ∧ b.DrawsWhole) ∧ a.pieces sha256 = b.pieces sha256 ∧
        (a.Plain sha256 → b.Plain sha256 → ¬a.DrawsWhole ∧ ¬b.DrawsWhole ∧ a.parts sha256 = b.parts sha256)) ∧
    ∀ (ctx : RunCtx) (first second : PromptNode) (t u : String), first.isShared → second.isShared →
      (hAiPrompt ctx first t).childSid sha256 = (hAiPrompt ctx second u).childSid sha256 := by
  refine ⟨?_, fun ctx first second t u => shared_steps_meet⟩
  have hdistinct : history.Pairwise fun a b => a.token ≠ b.token := List.pairwise_map.mp hdrawn.distinct
  refine hdistinct.imp_of_mem fun {a b} ha hb hne heq => ?_
  have hpieces := Spawn.pieces_eq_of_childSid_eq (hunnamed a ha) (hunnamed b hb) heq
  have hwhole := Spawn.not_both_whole hne (hdrawn.colonless a ha) (hdrawn.colonless b hb) hpieces
  exact ⟨hwhole, hpieces, Spawn.parts_eq_of_plain hwhole hpieces⟩

theorem delegations_do_not_meet :
    (Sample.delegated Sample.firstToken).childSid Sample.digest ≠
      (Sample.delegated Sample.secondToken).childSid Sample.digest := by
  intro heq
  have hpairs := (@spawns_meet_where_their_names_do Sample.digest Sample.delegations Sample.delegations_drawn.1
    Sample.delegations_drawn.2).1
  have hwhole := ((List.pairwise_cons.mp hpairs).1 _ List.mem_cons_self heq).1
  exact hwhole ⟨⟨by decide, by decide, by decide⟩, by decide, by decide, by decide⟩

end OpenAgent.Children.Identity
