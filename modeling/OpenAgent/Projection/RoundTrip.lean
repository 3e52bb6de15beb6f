import OpenAgent.Projection.Project
import OpenAgent.Projection.Shape

/-!
# A projected session loads back

The loader finds the lists of a run by the layout that the projection leaves in its envelope. Where a
layout was left, the run comes back with every key it had. A run that had neither a list of messages nor
one of tools is left without a layout, and then the loader gives the whole session up.
-/

namespace OpenAgent.Projection

open Lib List

variable {D : Type} {py : Stdlib D} {run : Json}

/-! ### The envelope that was written -/

def hasLists (run : Json) : Bool := (run.get "messages").isList || (run.get "tools").isList

structure KeepsMessages (py : Stdlib D) (messages : List Json) (skipped : List (String × Json))
    (spec : Json) : Prop where
  labelled : ∃ fields, spec.field "passthrough" = some (.obj fields) ∧ Labelled messages fields ∧
    (∀ (i : Nat) (x : Json), messages[i]? = some x → unread py x = true → (toString i, x) ∈ fields) ∧
    ∀ e ∈ skipped, e ∈ fields

structure Keeps (py : Stdlib D) (run : Json) (skipped : List (String × Json)) (envelope layout : Json) :
    Prop where
  isDict : envelope.isDict = true
  layoutDict : layout.isDict = true
  atKey : envelope.field nestedLayoutKey = some layout
  others : ∀ key, key ≠ nestedLayoutKey → envelope.field key =
    if key = "messages" ∧ (run.get "messages").isList = true then none
    else if key = "tools" ∧ (run.get "tools").isList = true then none
    else run.field key
  reserved : layout.field "provider_reserved_value" = run.field nestedLayoutKey
  messages : if (run.get "messages").isList then
      ∃ spec, layout.field "messages" = some spec ∧
        KeepsMessages py (run.get "messages").items skipped spec
    else layout.field "messages" = none
  tools : layout.field "tools" = if (run.get "tools").isList then
      some (.obj [("passthrough", passthrough (fun tool => !tool.isDict) (run.get "tools").items)])
    else none

theorem mem_passthrough {p : Json → Bool} {xs : List Json} {fields : List (String × Json)}
    (h : passthrough p xs = .obj fields) {e : String × Json} :
    e ∈ fields ↔ ∃ i : Nat, e.1 = toString i ∧ xs[i]? = some e.2 ∧ p e.2 = true := by
  obtain rfl := Json.obj.inj h
  rw [mem_filterMap]
  constructor
  · rintro ⟨⟨x, i⟩, hmem, hsome⟩
    have hget := (mk_mem_zipIdx_iff_getElem?).mp hmem
    cases hp : p x with
    | false => simp [hp] at hsome
    | true =>
      simp only [hp, if_true, Option.some.injEq] at hsome
      subst hsome
      exact ⟨i, rfl, hget, hp⟩
  · rintro ⟨i, hlabel, hget, hp⟩
    refine ⟨(e.2, i), mk_mem_zipIdx_iff_getElem?.mpr hget, ?_⟩
    simp [hp, ← hlabel]

theorem foldl_put {xs : List Json} {skipped fields : List (String × Json)} (hfields : Labelled xs fields)
    (hskipped : Labelled xs skipped) :
    ∃ fields', skipped.foldl (fun value e => value.put e.1 e.2) (Json.obj fields) = .obj fields' ∧
      Labelled xs fields' ∧ (∀ e ∈ fields, e ∈ fields') ∧ ∀ e ∈ skipped, e ∈ fields' := by
  induction skipped generalizing fields with
  | nil => exact ⟨fields, rfl, hfields, fun _ h => h, fun e he => absurd he not_mem_nil⟩
  | cons e rest ih =>
    obtain ⟨i, hlabel, hplace⟩ := hskipped e mem_cons_self
    have hkeeps : ∀ e' ∈ fields, e' ∈ fields.filter (fun f => f.1 ≠ e.1) ++ [(e.1, e.2)] := by
      intro e' he'
      rw [mem_append]
      by_cases hkey : e'.1 = e.1
      · obtain ⟨j, hlabel', hplace'⟩ := hfields e' he'
        have hij : j = i := by
          have hparse := parseInt_toString j
          rw [← hlabel', hkey, hlabel, parseInt_toString] at hparse
          exact (Option.some.inj hparse).symm
        subst hij
        have hvalue := Option.some.inj (hplace'.symm.trans hplace)
        refine .inr (List.mem_singleton.mpr (Prod.ext hkey hvalue))
      · exact .inl (List.mem_filter.mpr ⟨he', decide_eq_true hkey⟩)
    have hlabelled : Labelled xs (fields.filter (fun f => f.1 ≠ e.1) ++ [(e.1, e.2)]) := by
      intro e' he'
      rcases List.mem_append.mp he' with hmem | hmem
      · exact hfields e' (mem_of_mem_filter hmem)
      · rw [List.mem_singleton.mp hmem]
        exact ⟨i, hlabel, hplace⟩
    obtain ⟨fields', hfold, hlabelled', hold, hrest⟩ :=
      ih hlabelled fun e' he' => hskipped e' (mem_cons_of_mem _ he')
    refine ⟨fields', hfold, hlabelled', fun e' he' => hold e' (hkeeps e' he'), fun e' he' => ?_⟩
    rcases List.mem_cons.mp he' with rfl | hmem
    · exact hold e' (mem_append_right _ (mem_singleton_self _))
    · exact hrest e' hmem

theorem field_withoutLists (run : Json) (key : String) :
    (withoutLists run).field key =
      if key = "messages" ∧ (run.get "messages").isList = true then none
      else if key = "tools" ∧ (run.get "tools").isList = true then none
      else run.field key := by
  rw [withoutLists]
  cases (run.get "messages").isList <;> cases (run.get "tools").isList <;>
    by_cases hm : key = "messages" <;> by_cases ht : key = "tools" <;>
    simp [Json.field_pop, hm, ht]

theorem isDict_withoutLists (h : run.isDict = true) : (withoutLists run).isDict = true := by
  rw [withoutLists]
  split <;> split <;> simp [h]

theorem field_layout (py : Stdlib D) (run : Json) (reserved : Option Json) :
    let layout := Json.obj (nestedLayout py run ++
      (reserved.map fun value => ("provider_reserved_value", value)).toList)
    layout.field "provider_reserved_value" = reserved ∧
      layout.field "messages" = (if (run.get "messages").isList then
        some (.obj [("passthrough", passthrough (unread py) (run.get "messages").items)]) else none) ∧
      layout.field "tools" = (if (run.get "tools").isList then
        some (.obj [("passthrough", passthrough (fun tool => !tool.isDict) (run.get "tools").items)])
        else none) := by
  intro layout
  show Json.field (.obj _) _ = _ ∧ Json.field (.obj _) _ = _ ∧ Json.field (.obj _) _ = _
  rw [nestedLayout]
  cases (run.get "messages").isList <;> cases (run.get "tools").isList <;> cases reserved <;>
    simp [Json.field]

theorem boundedRunEnvelope_of_lists (h : hasLists run = true) :
    boundedRunEnvelope py run = ((withoutLists run).pop nestedLayoutKey).put nestedLayoutKey
      (.obj (nestedLayout py run ++
        ((run.field nestedLayoutKey).map fun value => ("provider_reserved_value", value)).toList)) := by
  have hne : nestedLayout py run ≠ [] := by
    rw [nestedLayout]
    rw [hasLists, Bool.or_eq_true] at h
    rcases h with hm | ht
    · simp [hm]
    · simp [ht]
  have hreserved : (withoutLists run).field nestedLayoutKey = run.field nestedLayoutKey := by
    rw [field_withoutLists]
    simp [nestedLayoutKey]
  have hlist : (if (withoutLists run).has nestedLayoutKey then
      [("provider_reserved_value", (withoutLists run).get nestedLayoutKey)] else []) =
      ((run.field nestedLayoutKey).map fun value => ("provider_reserved_value", value)).toList := by
    rw [Json.has, Json.get, hreserved]
    cases run.field nestedLayoutKey <;> rfl
  rw [boundedRunEnvelope]
  split
  · rename_i hnil
    exact absurd hnil hne
  · dsimp only
    rw [hlist]

theorem keeps_of_lists (hdict : run.isDict = true) (hlists : hasLists run = true)
    {skipped : List (String × Json)} (hskipped : Labelled (run.get "messages").items skipped) :
    ∃ layout, Keeps py run skipped (withSkipped (boundedRunEnvelope py run) skipped) layout := by
  generalize hlayout : Json.obj (nestedLayout py run ++
    ((run.field nestedLayoutKey).map fun value => ("provider_reserved_value", value)).toList) = layout
  obtain ⟨hreserved, hmessages, htools⟩ := field_layout py run (run.field nestedLayoutKey)
  rw [hlayout] at hreserved hmessages htools
  have hlayoutDict : layout.isDict = true := by
    rw [← hlayout]
    rfl
  have hbare : ((withoutLists run).pop nestedLayoutKey).isDict = true := by
    rw [Json.isDict_pop]
    exact isDict_withoutLists hdict
  have henvelope : boundedRunEnvelope py run
      = ((withoutLists run).pop nestedLayoutKey).put nestedLayoutKey layout := by
    rw [boundedRunEnvelope_of_lists hlists, hlayout]
  have hothers : ∀ key, key ≠ nestedLayoutKey →
      ((withoutLists run).pop nestedLayoutKey).field key = (withoutLists run).field key := by
    intro key hkey
    rw [Json.field_pop, if_neg hkey]
  have hbase : ∃ fields, passthrough (unread py) (run.get "messages").items = .obj fields ∧
      Labelled (run.get "messages").items fields ∧ ∀ (i : Nat) (x : Json),
        (run.get "messages").items[i]? = some x → unread py x = true → (toString i, x) ∈ fields := by
    refine ⟨_, rfl, fun e he => ?_, fun i x hx hunread => ?_⟩
    · obtain ⟨i, hlabel, hplace, -⟩ := (mem_passthrough rfl).mp he
      exact ⟨i, hlabel, hplace⟩
    · exact (mem_passthrough rfl).mpr ⟨i, rfl, hx, hunread⟩
  obtain ⟨fields, hfields, hlabelled, hcovers⟩ := hbase
  rw [henvelope]
  cases hskip : skipped with
  | nil =>
    refine ⟨layout, by rw [withSkipped, Json.isDict_put]; exact hbare, hlayoutDict, ?_, ?_, hreserved, ?_, htools⟩
    · rw [withSkipped, Json.field_put hbare, if_pos rfl]
    · intro key hkey
      rw [withSkipped, Json.field_put hbare, if_neg hkey, hothers key hkey, field_withoutLists]
    · split
      · rename_i hlist
        rw [if_pos hlist] at hmessages
        refine ⟨_, hmessages, ⟨fields, ?_, hlabelled, hcovers, fun e he => absurd he not_mem_nil⟩⟩
        rw [hfields]
        rfl
      · rename_i hlist
        rw [hmessages, if_neg hlist]
  | cons first rest =>
    have hlist : (run.get "messages").isList = true := by
      obtain ⟨i, -, hplace⟩ := hskipped first (hskip ▸ mem_cons_self)
      cases hm : run.get "messages" with
      | arr _ => rfl
      | _ => simp [hm, Json.items] at hplace
    rw [← hskip]
    rw [if_pos hlist] at hmessages
    obtain ⟨fields', hfold, hlabelled', hold, hnew⟩ := foldl_put hlabelled hskipped
    have hspec : Json.obj [("passthrough", passthrough (unread py) (run.get "messages").items)]
        = .obj [("passthrough", .obj fields)] := by rw [hfields]
    rw [hspec] at hmessages
    have hatKey : (((withoutLists run).pop nestedLayoutKey).put nestedLayoutKey layout).get
        nestedLayoutKey = layout := by
      apply Json.get_of_field
      rw [Json.field_put hbare, if_pos rfl]
    have hput : (((withoutLists run).pop nestedLayoutKey).put nestedLayoutKey layout).isDict = true := by
      rw [Json.isDict_put]
      exact hbare
    have hwith : withSkipped (((withoutLists run).pop nestedLayoutKey).put nestedLayoutKey layout) skipped
        = (((withoutLists run).pop nestedLayoutKey).put nestedLayoutKey layout).put nestedLayoutKey
          (layout.put "messages" (.obj [("passthrough", .obj fields')])) := by
      rw [hskip, withSkipped, hatKey, Json.get_of_field hmessages, ← hskip]
      · show Json.put _ _ (Json.put _ _ (Json.put _ _
          (skipped.foldl _ ((Json.obj [("passthrough", Json.obj fields)]).get "passthrough")))) = _
        have hget : (Json.obj [("passthrough", Json.obj fields)]).get "passthrough" = .obj fields := rfl
        rw [hget, hfold]
        rfl
      · simp
    refine ⟨layout.put "messages" (.obj [("passthrough", .obj fields')]), ?_, ?_, ?_, ?_, ?_, ?_, ?_⟩
    · rw [hwith, Json.isDict_put]
      exact hput
    · rw [Json.isDict_put]
      exact hlayoutDict
    · rw [hwith, Json.field_put hput, if_pos rfl]
    · intro key hkey
      rw [hwith, Json.field_put hput, if_neg hkey, Json.field_put hbare, if_neg hkey, hothers key hkey,
        field_withoutLists]
    · rw [Json.field_put hlayoutDict, if_neg (by decide), hreserved]
    · rw [if_pos hlist]
      refine ⟨.obj [("passthrough", .obj fields')], ?_,
        ⟨fields', rfl, hlabelled', fun i x hx hunread =>
          hold _ (hcovers i x hx hunread), hnew⟩⟩
      rw [Json.field_put hlayoutDict, if_pos rfl]
    · rw [Json.field_put hlayoutDict, if_neg (by decide), htools]

/-! ### One run -/

theorem restoreKey_eq (run : Json) (key : String) (restored : Json → Option (List Json))
    {envelope layout : Json} (hdict : envelope.isDict = true)
    (h : if (run.get key).isList then
        ∃ spec, layout.field key = some spec ∧ restored spec = some (run.get key).items
      else layout.field key = none)
    (henvelope : envelope.field key = if (run.get key).isList then none else run.field key) :
    ∃ whole, restoreKey envelope layout key restored = some whole ∧ whole.isDict = true ∧
      whole.field key = run.field key ∧ ∀ k, k ≠ key → whole.field k = envelope.field k := by
  by_cases hlist : (run.get key).isList = true
  · rw [if_pos hlist] at h
    obtain ⟨spec, hspec, hrestored⟩ := h
    refine ⟨envelope.put key (.arr (run.get key).items), ?_, ?_, ?_, fun k hk => ?_⟩
    · rw [restoreKey, Json.has, hspec, Json.get_of_field hspec, hrestored]
      rfl
    · rw [Json.isDict_put]
      exact hdict
    · rw [Json.field_put hdict, if_pos rfl, ← Json.eq_arr_of_isList hlist]
      have hfield : (run.field key).isSome = true := by
        cases hrun : run.field key with
        | some x => rfl
        | none =>
          rw [Json.get, hrun] at hlist
          cases hlist
      obtain ⟨x, hx⟩ := Option.isSome_iff_exists.mp hfield
      rw [hx, Json.get_of_field hx]
    · rw [Json.field_put hdict, if_neg hk]
  · rw [if_neg hlist] at h henvelope
    refine ⟨envelope, ?_, hdict, henvelope, fun _ _ => rfl⟩
    rw [restoreKey, Json.has, h]
    rfl

variable {ctx : Context}

theorem restorePositioned_of_loop {frame : RunFrame} {before : Nat} {messages : List Json}
    {loop : MessageLoop D} {spec : Json} (hloop : LoopAt py ctx frame before messages messages.length loop)
    (hspec : KeepsMessages py messages loop.skipped spec) :
    restorePositioned spec (loop.rows.map fun row => (row.ordinal, row.rawEnvelope)) = some messages := by
  obtain ⟨fields, hfields, hlabelled, hunread, hskipped⟩ := hspec.labelled
  apply restorePositioned_eq hfields hlabelled
  · intro e he
    obtain ⟨row, hrow, rfl⟩ := List.mem_map.mp he
    exact (hloop.rows row hrow).2.2.1
  · intro i x hx
    cases hread : unread py x with
    | true => exact .inl (hunread i x hx hread)
    | false =>
      obtain ⟨hlt, -⟩ := List.getElem?_eq_some_iff.mp hx
      rcases hloop.covers i x hlt hx hread with ⟨row, hrow, hordinal, hraw⟩ | hskip
      · exact .inr (List.mem_map.mpr ⟨row, hrow, by rw [hordinal, hraw]⟩)
      · exact .inl (hskipped _ hskip)

variable {messages : List MessageRow}

theorem restoreRun_of_lists {ordinal : Nat} {part : Part}
    {tools : List ToolValues} {row : RunRow} (hpart : PartOf py ctx run ordinal part)
    (hlists : hasLists run = true) (hraw : row.rawEnvelope = part.row.rawEnvelope)
    (hmessages : messageGroup messages row.id = part.messages.map fun m => (m.ordinal, m.rawEnvelope))
    (htools : toolGroup tools row.id = part.tools.map (·.rawEnvelope)) :
    ∃ restored, restoreRun messages tools row = some restored ∧ restored.SameDict run := by
  obtain ⟨frame, before, loop, -, hloop, hrows, henvelope⟩ := hpart.fromLoop
  obtain ⟨layout, hkeeps⟩ : ∃ layout, Keeps py run loop.skipped
      (withSkipped (boundedRunEnvelope py run) loop.skipped) layout :=
    keeps_of_lists hpart.isDict hlists fun e he => hloop.skipped e he
  generalize hwith : withSkipped (boundedRunEnvelope py run) loop.skipped = envelope at hkeeps henvelope
  have hstored : row.rawEnvelope = envelope := by
    rw [hraw, henvelope, asObject_of_isDict hkeeps.isDict]
  -- The envelope once the layout has given back what the provider kept under the reserved key.
  generalize hcleared : (if layout.has "provider_reserved_value" then
      (envelope.pop nestedLayoutKey).put nestedLayoutKey (layout.get "provider_reserved_value")
    else envelope.pop nestedLayoutKey) = cleared
  have hpopDict : (envelope.pop nestedLayoutKey).isDict = true := by
    rw [Json.isDict_pop]
    exact hkeeps.isDict
  have hclearedDict : cleared.isDict = true := by
    rw [← hcleared]
    split
    · rw [Json.isDict_put]
      exact hpopDict
    · exact hpopDict
  have hclearedKey : cleared.field nestedLayoutKey = run.field nestedLayoutKey := by
    rw [← hcleared, Json.has, Json.get, hkeeps.reserved]
    cases run.field nestedLayoutKey with
    | none => simp [Json.field_pop]
    | some x => simp [Json.field_put hpopDict]
  have hclearedOther : ∀ key, key ≠ nestedLayoutKey → cleared.field key = envelope.field key := by
    intro key hkey
    rw [← hcleared]
    split
    · rw [Json.field_put hpopDict, if_neg hkey, Json.field_pop, if_neg hkey]
    · rw [Json.field_pop, if_neg hkey]
  obtain ⟨afterMessages, hafter, hafterDict, hafterKey, hafterOther⟩ :=
    restoreKey_eq run "messages" (fun spec => restorePositioned spec (messageGroup messages row.id))
      hclearedDict
      (by
        have hspec := hkeeps.messages
        by_cases hlist : (run.get "messages").isList = true
        · rw [if_pos hlist] at hspec ⊢
          obtain ⟨spec, hfield, hkept⟩ := hspec
          refine ⟨spec, hfield, ?_⟩
          rw [hmessages, hrows]
          exact restorePositioned_of_loop hloop hkept
        · rw [if_neg hlist] at hspec ⊢
          exact hspec)
      (by
        rw [hclearedOther _ (by decide), hkeeps.others _ (by decide)]
        simp)
  obtain ⟨whole, hwhole, hwholeDict, hwholeKey, hwholeOther⟩ :=
    restoreKey_eq run "tools" (fun spec => restorePacked spec (toolGroup tools row.id)) hafterDict
      (by
        rw [hkeeps.tools]
        by_cases hlist : (run.get "tools").isList = true
        · rw [if_pos hlist, if_pos hlist]
          refine ⟨_, rfl, ?_⟩
          rw [htools, hpart.tools]
          have hpacked : restorePacked
              (.obj [("passthrough", passthrough (fun tool => !tool.isDict) (run.get "tools").items)])
              ((run.get "tools").items.filter fun tool => !!tool.isDict) = some (run.get "tools").items :=
            restorePacked_eq rfl
          simpa using hpacked
        · rw [if_neg hlist, if_neg hlist])
      (by
        rw [hafterOther _ (by decide), hclearedOther _ (by decide), hkeeps.others _ (by decide)]
        simp)
  refine ⟨whole, ?_, hwholeDict, hpart.isDict, fun key => ?_⟩
  · rw [restoreRun, hstored, Json.get_of_field hkeeps.atKey]
    dsimp only
    rw [hkeeps.isDict, hkeeps.layoutDict, hcleared, hafter]
    exact hwhole
  · by_cases ht : key = "tools"
    · rw [ht]
      exact hwholeKey
    · rw [hwholeOther key ht]
      by_cases hm : key = "messages"
      · rw [hm]
        exact hafterKey
      · rw [hafterOther key hm]
        by_cases hkey : key = nestedLayoutKey
        · rw [hkey]
          exact hclearedKey
        · rw [hclearedOther key hkey, hkeeps.others key hkey]
          simp [hm, ht]

theorem field_ne_self (value : Json) (key : String) : value.field key ≠ some value := by
  intro h
  cases value with
  | obj fields =>
    obtain ⟨f, hfind, hvalue⟩ := Option.map_eq_some_iff.mp h
    have hmem := mem_of_find?_eq_some hfind
    have hfield : sizeOf f.2 < sizeOf f := by
      cases f
      simp
    have hsize := sizeOf_lt_of_mem hmem
    rw [hvalue, Json.obj.sizeOf_spec] at hfield
    omega
  | _ => cases h

theorem restoreRun_of_no_lists {ordinal : Nat} {part : Part}
    {tools : List ToolValues} {row : RunRow} {restored : Json} (hpart : PartOf py ctx run ordinal part)
    (hlists : hasLists run = false) (hraw : row.rawEnvelope = part.row.rawEnvelope)
    (hrestored : restoreRun messages tools row = some restored) : ¬ restored.SameDict run := by
  obtain ⟨frame, before, loop, -, hloop, hrows, henvelope⟩ := hpart.fromLoop
  rw [hasLists, Bool.or_eq_false_iff] at hlists
  have hskipped : loop.skipped = [] := by
    rw [eq_nil_iff_forall_not_mem]
    intro e he
    obtain ⟨i, -, hplace⟩ := hloop.skipped e he
    cases hm : run.get "messages" with
    | arr _ =>
      rw [hm] at hlists
      cases hlists.1
    | _ => simp [hm, Json.items] at hplace
  have hlayout : nestedLayout py run = [] := by
    rw [nestedLayout]
    simp [hlists.1, hlists.2]
  have hstored : row.rawEnvelope = run := by
    rw [hraw, henvelope, hskipped, withSkipped, boundedRunEnvelope, hlayout,
      asObject_of_isDict hpart.isDict]
  rintro ⟨hdict, -, hsame⟩
  rw [restoreRun, hstored] at hrestored
  dsimp only at hrestored
  split at hrestored
  · cases hrestored
  · rename_i hguard
    have hlayoutDict : (run.get nestedLayoutKey).isDict = true := by
      rw [hpart.isDict] at hguard
      simpa using hguard
    have hfield : run.field nestedLayoutKey = some (run.get nestedLayoutKey) := by
      cases hrun : run.field nestedLayoutKey with
      | some x => rw [Json.get_of_field hrun]
      | none =>
        rw [Json.get, hrun] at hlayoutDict
        cases hlayoutDict
    have hkey : restored.field nestedLayoutKey = (run.get nestedLayoutKey).field "provider_reserved_value" := by
      have hput : ∀ {envelope whole : Json} {layout : Json} {key : String}
          {f : Json → Option (List Json)}, envelope.isDict = true → key ≠ nestedLayoutKey →
          restoreKey envelope layout key f = some whole →
          whole.isDict = true ∧ whole.field nestedLayoutKey = envelope.field nestedLayoutKey := by
        intro envelope whole layout key f henv hne h
        rw [restoreKey] at h
        split at h
        · obtain ⟨items, -, rfl⟩ := Option.map_eq_some_iff.mp h
          rw [Json.isDict_put, Json.field_put henv, if_neg (Ne.symm hne)]
          exact ⟨henv, rfl⟩
        · cases h
          exact ⟨henv, rfl⟩
      have hpopDict : (run.pop nestedLayoutKey).isDict = true := by
        rw [Json.isDict_pop]
        exact hpart.isDict
      obtain ⟨afterMessages, hafter, hwhole⟩ := Option.bind_eq_some_iff.mp hrestored
      rw [Json.has] at hafter
      cases hreserved : (run.get nestedLayoutKey).field "provider_reserved_value" with
      | none =>
        rw [hreserved] at hafter
        obtain ⟨hafterDict, hafterKey⟩ := hput hpopDict (by decide) hafter
        obtain ⟨-, hwholeKey⟩ := hput hafterDict (by decide) hwhole
        rw [hwholeKey, hafterKey, Json.field_pop, if_pos rfl]
      | some x =>
        rw [hreserved, Json.get_of_field hreserved, Option.isSome_some, if_pos rfl] at hafter
        obtain ⟨hafterDict, hafterKey⟩ := hput (by rw [Json.isDict_put]; exact hpopDict) (by decide) hafter
        obtain ⟨-, hwholeKey⟩ := hput hafterDict (by decide) hwhole
        rw [hwholeKey, hafterKey, Json.field_put hpopDict, if_pos rfl]
    rw [hsame, hfield] at hkey
    exact field_ne_self _ _ hkey.symm

/-! ### The rows of a session in their order -/

theorem rowsInOrder_eq {α : Type} {table : Dict String (Stored α)} {key : α → String}
    {tenantId sessionId : String} {rows : List α} {column : α → Nat}
    (h : Holds table key tenantId sessionId rows) (hsorted : rows.Pairwise fun a b => column a < column b) :
    rowsInOrder table sessionId column = rows := by
  apply orderBy_eq_of_perm _ hsorted
  have hread : (rowsOf table sessionId).values.map (·.row)
      = (rowsOf table sessionId).entries.map fun e => e.2.row := by
    rw [Dict.values, map_map]
    rfl
  have hentry : ∀ e ∈ (rowsOf table sessionId).entries, e.2.row ∈ rows ∧ key e.2.row = e.1 := by
    intro e he
    obtain ⟨hmem, hsession⟩ := List.mem_filter.mp he
    have hget : table.get? e.1 = some e.2 := Dict.get?_eq_some_iff.mpr hmem
    exact (h.noneStale e.1 e.2 hget (of_decide_eq_true hsession)).2
  rw [hread, perm_ext_iff_of_nodup]
  · intro row
    rw [mem_map]
    constructor
    · rintro ⟨e, he, rfl⟩
      exact (hentry e he).1
    · intro hrow
      obtain ⟨version, hget⟩ := h.noneMissing row hrow
      exact ⟨_, List.mem_filter.mpr ⟨Dict.get?_eq_some_iff.mp hget, decide_eq_true rfl⟩, rfl⟩
  · have hkeys : ((rowsOf table sessionId).entries.map fun e => e.2.row).map key
        = (rowsOf table sessionId).entries.map Prod.fst := by
      rw [map_map]
      exact map_congr_left fun e he => (hentry e he).2
    apply List.Nodup.of_map key
    rw [hkeys]
    exact (rowsOf table sessionId).nodup
  · exact hsorted.imp fun hlt heq => by
      rw [heq] at hlt
      exact Nat.lt_irrefl _ hlt

theorem pairwise_of_map_range {α : Type} {rows : List α} {column : α → Nat} {n : Nat}
    (h : rows.map column = List.range n) : rows.Pairwise fun a b => column a < column b := by
  rw [← pairwise_map (f := column) (R := fun a b => a < b), h]
  exact pairwise_lt_range

variable [DecidableEq D]

variable {runs : List Json}

variable {progress : Progress D}

variable {parts : List Part}

omit [DecidableEq D] in
theorem Parts.runOrdinals
    (h : Parts py ctx runs progress parts) : progress.runs.map (·.ordinal) = List.range runs.length := by
  apply ext_getElem?
  intro i
  rw [h.runs, map_map, getElem?_map]
  cases hpart : parts[i]? with
  | none =>
    have hlen := List.getElem?_eq_none_iff.mp hpart
    rw [getElem?_eq_none (by rw [length_range, ← h.length]; exact hlen)]
    rfl
  | some part =>
    obtain ⟨hlt, -⟩ := List.getElem?_eq_some_iff.mp hpart
    rw [h.length] at hlt
    have hrun := getElem?_eq_getElem hlt
    rw [getElem?_range hlt, Option.map_some]
    exact congrArg some (h.part i _ part hrun hpart).ordinal_eq

/-! ### Whole sessions -/

theorem mapM_forall₂_iff {α : Type} {f : α → Option Json} {R : Json → Json → Prop} {rows : List α}
    :
    (∃ loaded, rows.mapM f = some loaded ∧ List.Forall₂ R loaded runs) ↔
      List.Forall₂ (fun row run => ∃ restored, f row = some restored ∧ R restored run) rows runs := by
  induction rows generalizing runs with
  | nil =>
    constructor
    · rintro ⟨loaded, hmap, hall⟩
      cases hmap
      cases hall
      exact .nil
    · intro h
      cases h
      exact ⟨[], rfl, .nil⟩
  | cons row rest ih =>
    constructor
    · rintro ⟨loaded, hmap, hall⟩
      rw [mapM_cons] at hmap
      obtain ⟨restored, hrow, hrest⟩ := Option.bind_eq_some_iff.mp hmap
      obtain ⟨others, hothers, hloaded⟩ := Option.bind_eq_some_iff.mp hrest
      cases hloaded
      cases hall with
      | cons hhead htail => exact .cons ⟨restored, hrow, hhead⟩ (ih.mp ⟨others, hothers, htail⟩)
    · intro h
      cases h with
      | cons hhead htail =>
        obtain ⟨restored, hrow, hsame⟩ := hhead
        obtain ⟨others, hothers, hall⟩ := ih.mpr htail
        refine ⟨restored :: others, ?_, .cons hsame hall⟩
        rw [mapM_cons, hrow, hothers]
        rfl

variable (py)

def LoadsBack (t : Tables D) (legacy : LegacyRow) : Prop :=
  ∃ loaded, loadV2LegacySession t legacy.sessionId = some loaded ∧
    loaded.sessionId = legacy.sessionId ∧ loaded.header = legacy.header ∧
    List.Forall₂ Json.SameDict loaded.runs (runsRaw py legacy).1

variable {py}

theorem complete_progress {legacy : LegacyRow} {tenantId : String} {nowMs : Int} {p : SessionProjection D}
    (hbuild : buildSessionProjection py legacy tenantId nowMs = .ok p)
    (hcomplete : p.session.completeness = .complete) :
    ∃ progress, projectRuns py (context py legacy nowMs) (runsRaw py legacy).1 = .ok progress ∧
      p.runs = progress.runs ∧ p.messages = progress.messages ∧ p.tools = progress.tools ∧
      p.session.id = trim legacy.sessionId ∧ p.session.deletedAtMs = none ∧
      p.session.metadata.projectionSchema = 3 ∧ p.session.metadata.legacyHeader = some legacy.header := by
  rw [buildSessionProjection] at hbuild
  split at hbuild
  · cases hbuild
  · cases hprogress : projectRuns py (context py legacy nowMs) (runsRaw py legacy).1 with
    | error text =>
      simp only [hprogress] at hbuild
      cases hbuild
      cases hcomplete
    | ok progress =>
      simp only [hprogress] at hbuild
      cases hbuild
      exact ⟨progress, rfl, rfl, rfl, rfl, rfl, rfl, rfl, rfl⟩

theorem Holds.pairwise_key {α : Type} {table : Dict String (Stored α)} {key : α → String}
    {tenantId sessionId : String} {rows : List α} {column : α → Nat}
    (h : Holds table key tenantId sessionId rows) (hsorted : rows.Pairwise fun a b => column a < column b) :
    rows.Pairwise fun a b => key a ≠ key b := by
  refine hsorted.imp_of_mem fun {a b} ha hb hlt heq => ?_
  obtain ⟨version, hgetA⟩ := h.noneMissing a ha
  obtain ⟨version', hgetB⟩ := h.noneMissing b hb
  rw [heq, hgetB, Option.some.injEq, Stored.mk.injEq] at hgetA
  rw [hgetA.2.2.2] at hlt
  exact Nat.lt_irrefl _ hlt

omit [DecidableEq D] in
theorem Parts.messageGroup
    (h : Parts py ctx runs progress parts) (hapart : parts.Pairwise fun a b => a.row.id ≠ b.row.id)
    {part : Part} (hpart : part ∈ parts) :
    Projection.messageGroup progress.messages part.row.id
      = part.messages.map fun m => (m.ordinal, m.rawEnvelope) := by
  have hown : ∀ p ∈ parts, ∀ row ∈ p.messages ++ p.content, row.runId = p.row.id := by
    intro p hp row hrow
    obtain ⟨run, i, hpartOf⟩ := h.partOf hp
    rcases List.mem_append.mp hrow with hmem | hmem
    · exact (hpartOf.message hmem).1
    · exact (hpartOf.content row hmem).1
  obtain ⟨run, i, hpartOf⟩ := h.partOf hpart
  have hmessages : part.messages.filter (fun row => decide (row.rawEnvelope ≠ contentMarker))
      = part.messages := by
    rw [filter_eq_self]
    intro row hrow
    exact decide_eq_true (ne_contentMarker (hpartOf.message hrow).2)
  have hcontent : part.content.filter (fun row => decide (row.rawEnvelope ≠ contentMarker)) = [] := by
    rw [filter_eq_nil_iff]
    intro row hrow
    simp [(hpartOf.content row hrow).2]
  rw [Projection.messageGroup, h.messages]
  simp only [← filter_filter]
  rw [filter_comm, filter_flatMap_part hown hapart hpart, filter_append, hmessages, hcontent, append_nil]

omit [DecidableEq D] in
theorem Parts.toolGroup
    (h : Parts py ctx runs progress parts) (hapart : parts.Pairwise fun a b => a.row.id ≠ b.row.id)
    {part : Part} (hpart : part ∈ parts) (session : SessionRow D) (tenantId : String) (t : Tables D) :
    Projection.toolGroup (progress.tools.map (toolValues py tenantId t session)) part.row.id
      = part.tools.map (·.rawEnvelope) := by
  have hown : ∀ p ∈ parts, ∀ row ∈ p.tools, row.sessionRunId = p.row.id := by
    intro p hp row hrow
    obtain ⟨run, i, hpartOf⟩ := h.partOf hp
    exact (hpartOf.toolRun row hrow).1
  rw [Projection.toolGroup, filter_map, map_map, h.tools]
  exact congrArg (List.map _) (filter_flatMap_part hown hapart hpart)

omit [DecidableEq D] in
theorem Parts.restores
    (h : Parts py ctx runs progress parts) (hapart : progress.runs.Pairwise fun a b => a.id ≠ b.id)
    (session : SessionRow D) (tenantId : String) (t : Tables D) :
    List.Forall₂ (fun row run => ∃ restored, restoreRun progress.messages
        (progress.tools.map (toolValues py tenantId t session)) row = some restored ∧ restored.SameDict run)
      (ownRuns progress.runs) runs ↔ ∀ run ∈ runs, hasLists run = true := by
  rw [h.runs, pairwise_map] at hapart
  rw [List.forall₂_iff_get]
  constructor
  · rintro ⟨-, hall⟩ run hrun
    obtain ⟨i, hlt, rfl⟩ := List.mem_iff_getElem.mp hrun
    have hi := hlt
    rw [← h.length] at hi
    have hpart := h.part i _ _ (getElem?_eq_getElem hlt) (getElem?_eq_getElem hi)
    obtain ⟨restored, hrestored, hsame⟩ := hall i (by simpa [ownRuns, h.runs] using hi) hlt
    by_contra hlists
    refine restoreRun_of_no_lists hpart (Bool.eq_false_iff.mpr hlists) ?_ hrestored hsame
    simp [ownRuns, h.runs]
  · intro hlists
    refine ⟨by simp [ownRuns, h.runs, h.length], fun i hrow hlt => ?_⟩
    have hi := hlt
    rw [← h.length] at hi
    have hpart := h.part i _ _ (getElem?_eq_getElem hlt) (getElem?_eq_getElem hi)
    have hmem := getElem_mem hi
    have hid : ((ownRuns progress.runs).get ⟨i, hrow⟩).id = parts[i].row.id := by simp [ownRuns, h.runs]
    apply restoreRun_of_lists hpart (hlists _ (getElem_mem hlt))
    · simp [ownRuns, h.runs]
    · rw [hid]
      exact h.messageGroup hapart hmem
    · rw [hid]
      exact h.toolGroup hapart hmem session tenantId t

omit [DecidableEq D] in
theorem loadV2LegacySession_eq {t : Tables D} {sessionId : String} {stored : StoredSession D} {header : Header}
    {runs : List RunRow} {tools : List ToolValues}
    (hstored : t.sessions.get? sessionId = some stored) (hlive : stored.row.deletedAtMs = none)
    (hschema : stored.row.metadata.projectionSchema = 3)
    (hheader : stored.row.metadata.legacyHeader = some header)
    (hruns : rowsInOrder t.runs sessionId (·.ordinal) = runs)
    (hmessages : rowsInOrder t.messages sessionId (·.sequence) = messages)
    (htools : rowsInOrder t.tools sessionId (·.ordinal) = tools)
    (hmessageDicts : ∀ row ∈ messages, row.rawEnvelope.isDict = true)
    (htoolDicts : ∀ row ∈ tools, row.rawEnvelope.isDict = true)
    (hordinals : runs.map (·.ordinal) = List.range runs.length) :
    loadV2LegacySession t sessionId
      = (runs.mapM (restoreRun messages tools)).map fun loaded => ⟨header, sessionId, loaded⟩ := by
  have hplaces : runs.zipIdx.all (fun e => decide (e.1.ordinal = e.2)) = true := by
    rw [all_eq_true]
    rintro ⟨row, i⟩ he
    have hget := mk_mem_zipIdx_iff_getElem?.mp he
    have hlt := (List.getElem?_eq_some_iff.mp hget).1
    have hordinal : (runs.map (·.ordinal))[i]? = some row.ordinal := by rw [getElem?_map, hget]; rfl
    rw [hordinals, getElem?_range hlt, Option.some.injEq] at hordinal
    exact decide_eq_true hordinal.symm
  rw [loadV2LegacySession]
  simp only [hstored, hlive, hschema, hheader, hruns, hmessages, htools, Option.bind_eq_bind, Option.bind_some,
    List.all_eq_true.mpr hmessageDicts, List.all_eq_true.mpr htoolDicts, hplaces]
  cases runs.mapM (restoreRun messages tools) <;> rfl

/-- A session whose projection is complete loads back from the projected rows exactly when its identifier
has no blanks around it and every run has a list of messages or one of tools. -/
theorem loads_back_iff {legacy : LegacyRow} {tenantId : String} {nowMs : Int} {p : SessionProjection D}
    {t : Tables D} (hbuild : buildSessionProjection py legacy tenantId nowMs = .ok p)
    (hcomplete : p.session.completeness = .complete) (hrows : Matches py tenantId t legacy.sessionId p) :
    LoadsBack py t legacy ↔ trim legacy.sessionId = legacy.sessionId ∧
      ∀ run ∈ (runsRaw py legacy).1, hasLists run = true := by
  obtain ⟨progress, hprogress, hruns, hmessages, htools, hid, hlive, hschema, hheader⟩ :=
    complete_progress hbuild hcomplete
  obtain ⟨parts, hparts⟩ := projectRuns_spec hprogress
  have hordinals : (ownRuns p.runs).map (·.ordinal) = List.range (runsRaw py legacy).1.length := by
    rw [← hparts.runOrdinals, ownRuns, List.map_map, hruns]
    rfl
  have hsorted := pairwise_of_map_range hordinals
  have hrunsRead := rowsInOrder_eq hrows.runs hsorted
  have hmessagesRead := rowsInOrder_eq hrows.messages
    (pairwise_of_map_range (hmessages ▸ hparts.numbered.sequences))
  have htoolsRead : rowsInOrder t.tools legacy.sessionId (·.ordinal)
      = p.tools.map (toolValues py tenantId t (linked tenantId t p.session)) := by
    apply rowsInOrder_eq hrows.tools
    rw [List.pairwise_map]
    exact pairwise_of_map_range (htools ▸ hparts.numbered.ordinals)
  have hapart : progress.runs.Pairwise fun a b => a.id ≠ b.id := by
    have hkeys := hrows.runs.pairwise_key hsorted
    rw [ownRuns, List.pairwise_map, hruns] at hkeys
    exact hkeys
  rw [hmessages] at hmessagesRead
  rw [htools] at htoolsRead
  rw [hruns] at hrunsRead hordinals
  have hrestores := hparts.restores hapart (linked tenantId t p.session) tenantId t
  by_cases htrim : trim legacy.sessionId = legacy.sessionId
  · have hsession := hrows.session
    rw [if_pos (hid.trans htrim)] at hsession
    obtain ⟨stored, hstored, hrow⟩ := Option.map_eq_some_iff.mp hsession
    have hload := loadV2LegacySession_eq hstored (by rw [hrow]; exact hlive) (by rw [hrow]; exact hschema)
      (by rw [hrow]; exact hheader) hrunsRead hmessagesRead htoolsRead hparts.isDict.1
      (by
        intro row hrow
        obtain ⟨tool, htool, rfl⟩ := List.mem_map.mp hrow
        exact hparts.isDict.2 tool htool)
      (by
        have hlength : (ownRuns progress.runs).length = (runsRaw py legacy).1.length := by
          have hlengths := congrArg List.length hordinals
          rwa [List.length_map, List.length_range] at hlengths
        rw [hlength]
        exact hordinals)
    rw [← hrestores, ← mapM_forall₂_iff, LoadsBack, hload]
    constructor
    · rintro ⟨loaded, hloaded, -, -, hall⟩
      obtain ⟨restored, hmap, rfl⟩ := Option.map_eq_some_iff.mp hloaded
      exact ⟨htrim, restored, hmap, hall⟩
    · rintro ⟨-, restored, hmap, hall⟩
      exact ⟨_, Option.map_eq_some_iff.mpr ⟨restored, hmap, rfl⟩, rfl, rfl, hall⟩
  · -- The projected session lives under another identifier, and the loader finds no row.
    have hsession := hrows.session
    rw [if_neg (fun heq => htrim (hid.symm.trans heq)), Option.map_eq_none_iff] at hsession
    constructor
    · rintro ⟨loaded, hloaded, -⟩
      simp [loadV2LegacySession, hsession] at hloaded
    · rintro ⟨heq, -⟩
      exact absurd heq htrim

/-! ### Two sessions -/

namespace Sample

def listed : Json :=
  .obj [("run_id", .str "r1"), ("status", .str "COMPLETED"),
    ("messages", .arr [.obj [("id", .str "m1"), ("role", .str "user")], .str "note"]), ("tools", .arr [])]

def bare : Json := .obj [("run_id", .str "r1"), ("status", .str "COMPLETED")]

def listedText : String :=
  "[\x7b\"run_id\": \"r1\", \"status\": \"COMPLETED\", " ++
    "\"messages\": [\x7b\"id\": \"m1\", \"role\": \"user\"\x7d, \"note\"], \"tools\": []\x7d]"

def bareText : String := "[\x7b\"run_id\": \"r1\", \"status\": \"COMPLETED\"\x7d]"

def reading (texts : List (String × Json)) : Stdlib (List Json) where
  loads text := texts.lookup text
  float _ := none
  number _ := ""
  repr _ := ""
  digest parts := parts
  hex _ := ""
  sha256 text := text

def stdlib : Stdlib (List Json) := reading [(listedText, .arr [listed]), (bareText, .arr [bare])]

def legacy (runs : String) : LegacyRow := { sessionId := "s", runs := some runs, createdAt := some 1 }

def complete (runs : String) : Option (SessionProjection (List Json) × Tables (List Json)) := do
  let p ← (buildSessionProjection stdlib (legacy runs) "tenant" 0).toOption
  let (t, _) ← projectLegacySession stdlib "tenant" Tables.empty "s" (some (legacy runs)) 0
  if p.session.completeness = .complete ∧ Matches stdlib "tenant" t "s" p then some (p, t) else none

theorem complete_spec {runs : String} {p : SessionProjection (List Json)} {t : Tables (List Json)}
    (h : complete runs = some (p, t)) :
    buildSessionProjection stdlib (legacy runs) "tenant" 0 = .ok p ∧
      p.session.completeness = .complete ∧ Matches stdlib "tenant" t "s" p := by
  obtain ⟨p', hbuilt, h⟩ := Option.bind_eq_some_iff.mp h
  obtain ⟨⟨t', outcome⟩, -, h⟩ := Option.bind_eq_some_iff.mp h
  dsimp only at h
  split at h
  · rename_i hholds
    cases Option.some.inj h
    refine ⟨?_, hholds⟩
    cases hbuild : buildSessionProjection stdlib (legacy runs) "tenant" 0 with
    | error text =>
      rw [hbuild] at hbuilt
      cases hbuilt
    | ok built =>
      rw [hbuild] at hbuilt
      exact congrArg Except.ok (Option.some.inj hbuilt)
  · cases h

end Sample

theorem listed_session_loads_back :
    ∃ t : Tables (List Json), LoadsBack Sample.stdlib t (Sample.legacy Sample.listedText) := by
  have hsome : (Sample.complete Sample.listedText).isSome = true := by decide +kernel
  obtain ⟨⟨p, t⟩, hsome⟩ := Option.isSome_iff_exists.mp hsome
  obtain ⟨hbuild, hcomplete, hrows⟩ := Sample.complete_spec hsome
  exact ⟨t, (loads_back_iff hbuild hcomplete hrows).mpr (by decide)⟩

/-- The projection of a run without lists is complete, and the loader gives its session up. -/
theorem bare_session_is_lost :
    ¬ ∀ (py : Stdlib (List Json)) (legacy : LegacyRow) (tenantId : String) (nowMs : Int)
      (p : SessionProjection (List Json)) (t : Tables (List Json)),
      buildSessionProjection py legacy tenantId nowMs = .ok p → p.session.completeness = .complete →
        Matches py tenantId t legacy.sessionId p → LoadsBack py t legacy := by
  intro h
  have htrace : (Sample.complete Sample.bareText).map
      (fun e => (loadV2LegacySession e.2 "s").isNone) = some true := by
    decide +kernel
  obtain ⟨⟨p, t⟩, hsome, hnone⟩ := Option.map_eq_some_iff.mp htrace
  obtain ⟨hbuild, hcomplete, hrows⟩ := Sample.complete_spec hsome
  obtain ⟨loaded, hloaded, -⟩ := h _ _ _ _ p t hbuild hcomplete hrows
  rw [Option.isNone_iff_eq_none] at hnone
  rw [Sample.legacy] at hloaded
  simp [hnone] at hloaded

end OpenAgent.Projection
