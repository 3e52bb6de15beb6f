import OpenAgent.Scheduler.Schedules

/-!
# Schedule rows follow the graph

What a save has done so far is the part of its graph that it has seen: the valid blocks in it have their
rows, or the row of the last one is about to be written. Other saves and ticks keep which rows there are and
the expressions in them, so this survives whatever happens in between.
-/

namespace OpenAgent.Scheduler

open Lib List

variable {Zone : Type} {cal : Croniter Zone}

/-! ### Rows -/

def HasRow (rows : List ScheduleRow) (workflowId nodeId cron : String) (timezone : Option String) : Prop :=
  ∃ r ∈ rows, r.workflowId = workflowId ∧ r.nodeId = nodeId ∧ r.cronExpression = cron ∧ r.timezone = timezone

/-- What a change of the table keeps for one workflow: its rows, and their expressions. -/
structure Kept (workflowId : String) (rows rows' : List ScheduleRow) : Prop where
  has : ∀ nodeId cron timezone, HasRow rows workflowId nodeId cron timezone →
    HasRow rows' workflowId nodeId cron timezone
  back : ∀ r' ∈ rows', r'.workflowId = workflowId → ∃ r ∈ rows, r.key = r'.key
  forth : ∀ r ∈ rows, r.workflowId = workflowId → ∃ r' ∈ rows', r'.key = r.key ∧ r'.id = r.id

theorem Kept.refl (workflowId : String) (rows : List ScheduleRow) : Kept workflowId rows rows :=
  ⟨fun _ _ _ h => h, fun r hr _ => ⟨r, hr, rfl⟩, fun r hr _ => ⟨r, hr, rfl, rfl⟩⟩

variable {f : ScheduleRow → ScheduleRow}

theorem mem_updateRow {rows : List ScheduleRow} {id : Nat} {r : ScheduleRow} :
    r ∈ updateRow rows id f ↔ ∃ q ∈ rows, (if q.id = id then f q else q) = r :=
  mem_map

theorem map_updateRow {β : Type} (g : ScheduleRow → β) (rows : List ScheduleRow) (id : Nat)
    (hf : ∀ r, g (f r) = g r) :
    (updateRow rows id f).map g = rows.map g := by
  rw [updateRow, map_map]
  apply map_congr_left
  intro r _
  simp only [Function.comp]
  split
  · exact hf r
  · rfl

theorem kept_updateRow (workflowId : String) (rows : List ScheduleRow) (id : Nat)
    (hkey : ∀ r, (f r).key = r.key) (hid : ∀ r, (f r).id = r.id)
    (hcron : ∀ r ∈ rows, r.id = id → r.workflowId = workflowId →
      (f r).cronExpression = r.cronExpression ∧ (f r).timezone = r.timezone) :
    Kept workflowId rows (updateRow rows id f) := by
  have hone : ∀ r : ScheduleRow, (if r.id = id then f r else r).key = r.key ∧
      (if r.id = id then f r else r).id = r.id := by
    intro r
    split
    · exact ⟨hkey r, hid r⟩
    · exact ⟨rfl, rfl⟩
  refine ⟨?_, ?_, ?_⟩
  · rintro nodeId cron timezone ⟨r, hr, hworkflow, hnode, hcronr, hzone⟩
    have hkey' := (hone r).1
    rw [ScheduleRow.key, ScheduleRow.key, Prod.mk.injEq] at hkey'
    refine ⟨if r.id = id then f r else r, mem_updateRow.mpr ⟨r, hr, rfl⟩, hkey'.1.trans hworkflow,
      hkey'.2.trans hnode, ?_⟩
    split
    · rename_i heq
      obtain ⟨hc, hz⟩ := hcron r hr heq hworkflow
      exact ⟨hc.trans hcronr, hz.trans hzone⟩
    · exact ⟨hcronr, hzone⟩
  · intro r' hr' _
    obtain ⟨r, hr, rfl⟩ := mem_updateRow.mp hr'
    exact ⟨r, hr, (hone r).1.symm⟩
  · intro r hr _
    exact ⟨_, mem_updateRow.mpr ⟨r, hr, rfl⟩, hone r⟩

/-! ### The invariant -/

structure Follows (cal : Croniter Zone) (rows : List ScheduleRow) (workflowId : String) (blocks : Blocks) :
    Prop where
  has : ∀ b ∈ blocks.list, ∀ cron, b.expression cal = some cron →
    HasRow rows workflowId b.nodeId cron b.zone
  no_more : ∀ r ∈ rows, r.workflowId = workflowId →
    ∃ b ∈ blocks.list, b.nodeId = r.nodeId ∧ (b.expression cal).isSome

theorem Follows.kept {rows rows' : List ScheduleRow} {workflowId : String} {blocks : Blocks}
    (h : Follows cal rows workflowId blocks) (hkept : Kept workflowId rows rows') :
    Follows cal rows' workflowId blocks := by
  refine ⟨fun b hb cron hcron => hkept.has _ _ _ (h.has b hb cron hcron), ?_⟩
  intro r' hr' hworkflow
  obtain ⟨r, hr, hkey⟩ := hkept.back r' hr' hworkflow
  rw [ScheduleRow.key, ScheduleRow.key, Prod.mk.injEq] at hkey
  obtain ⟨b, hb, hnode, hsome⟩ := h.no_more r hr (hkey.1.trans hworkflow)
  exact ⟨b, hb, hnode.trans hkey.2, hsome⟩

/-- An upsert on its way is about a valid block, and the row it has read is still the block's row. -/
structure Pending (cal : Croniter Zone) (rows : List ScheduleRow) (workflowId : String) (seen : List Block)
    (u : Upsert) : Prop where
  block : ∃ b ∈ seen, b.nodeId = u.nodeId ∧ b.expression cal = some u.cronExpression ∧ b.zone = u.timezone
  occurs : Occurs cal u.cronExpression u.timezone u.nextRunAt
  update : ∀ old, u.existing = some old → Occurs cal old.cronExpression old.timezone old.nextRunAt ∧
    ∃ r ∈ rows, r.id = old.id ∧ r.key = (workflowId, u.nodeId)
  insert : u.existing = none → ∀ r ∈ rows, r.key ≠ (workflowId, u.nodeId)

structure Seen (cal : Croniter Zone) (rows : List ScheduleRow) (v : Save) (seen : List Block) : Prop where
  keep : ∀ nodeId, nodeId ∈ v.keepNodeIds ↔ ∃ b ∈ seen, b.nodeId = nodeId ∧ (b.expression cal).isSome
  has : ∀ b ∈ seen, ∀ cron, b.expression cal = some cron →
    HasRow rows v.workflowId b.nodeId cron b.zone ∨ ∃ u, v.upsert = some u ∧ u.nodeId = b.nodeId
  pending : ∀ u, v.upsert = some u → Pending cal rows v.workflowId seen u

def Saving (cal : Croniter Zone) (s : Schedules) (v : Save) : Prop :=
  ∃ blocks seen, s.graphs.get? v.workflowId = some blocks ∧ blocks.list = seen ++ v.todo ∧
    Seen cal s.rows v seen

variable {v : Save}

theorem Seen.kept {rows rows' : List ScheduleRow} {seen : List Block} (h : Seen cal rows v seen)
    (hkept : Kept v.workflowId rows rows') : Seen cal rows' v seen := by
  refine ⟨h.keep, ?_, ?_⟩
  · intro b hb cron hcron
    rcases h.has b hb cron hcron with hrow | hupsert
    · exact .inl (hkept.has _ _ _ hrow)
    · exact .inr hupsert
  · intro u hu
    obtain ⟨hblock, hoccurs, hupdate, hinsert⟩ := h.pending u hu
    refine ⟨hblock, hoccurs, ?_, ?_⟩
    · intro old hold
      obtain ⟨holdoccurs, r, hr, hid, hkey⟩ := hupdate old hold
      have hworkflow : r.workflowId = v.workflowId := congrArg Prod.fst hkey
      obtain ⟨r', hr', hkey', hid'⟩ := hkept.forth r hr hworkflow
      exact ⟨holdoccurs, r', hr', hid'.trans hid, hkey'.trans hkey⟩
    · intro hnone r' hr' hkey'
      have hworkflow : r'.workflowId = v.workflowId := congrArg Prod.fst hkey'
      obtain ⟨r, hr, hkey⟩ := hkept.back r' hr' hworkflow
      exact hinsert hnone r hr (hkey.trans hkey')

structure Inv (cal : Croniter Zone) (s : Schedules) : Prop where
  ids : (s.rows.map (·.id)).Nodup
  fresh : ∀ r ∈ s.rows, r.id < s.nextId
  keys : (s.rows.map ScheduleRow.key).Nodup
  known : ∀ r ∈ s.rows, (s.graphs.get? r.workflowId).isSome
  occurs : ∀ r ∈ s.rows, Occurs cal r.cronExpression r.timezone r.nextRunAt
  copies : ∀ t ∈ s.ticks, ∀ r ∈ t.due, (s.graphs.get? r.workflowId).isSome
  alone : ∀ (j k : Nat) v w, s.saves[j]? = some v → s.saves[k]? = some w → v.done = false →
    w.done = false → v.workflowId = w.workflowId → j = k
  saving : ∀ (k : Nat) v, s.saves[k]? = some v → v.done = false → Saving cal s v
  follows : ∀ workflowId blocks, s.graphs.get? workflowId = some blocks →
    (∀ (k : Nat) v, s.saves[k]? = some v → v.done = false → v.workflowId ≠ workflowId) →
    Follows cal s.rows workflowId blocks

theorem eq_of_id {rows : List ScheduleRow} (h : (rows.map (·.id)).Nodup) {r q : ScheduleRow} (hr : r ∈ rows)
    (hq : q ∈ rows) (hid : r.id = q.id) : r = q :=
  inj_on_of_nodup_map h hr hq hid

theorem eq_of_key {rows : List ScheduleRow} (h : (rows.map ScheduleRow.key).Nodup) {r q : ScheduleRow}
    (hr : r ∈ rows) (hq : q ∈ rows) (hkey : r.key = q.key) : r = q :=
  inj_on_of_nodup_map h hr hq hkey

variable {s : Schedules}

theorem followsGraphs_of_inv (h : Inv cal s) (hquiet : s.quiet = true) :
    FollowsGraphs cal s := by
  rw [Schedules.quiet, Bool.and_eq_true] at hquiet
  have hidle : ∀ (k : Nat) v, s.saves[k]? = some v → v.done = false → ∀ workflowId, v.workflowId ≠ workflowId := by
    intro k v hv hdone
    have hall := List.all_eq_true.mp hquiet.1 v (mem_of_getElem? hv)
    simp [hdone] at hall
  refine ⟨?_, ?_, h.occurs⟩
  · intro workflowId blocks hgraph b hb cron hcron
    have hfollows := h.follows workflowId blocks hgraph fun k v hv hdone => hidle k v hv hdone workflowId
    obtain ⟨r, hr, hworkflow, hnode, hrcron, hzone⟩ := hfollows.has b hb cron hcron
    refine ⟨r, ?_, hrcron, hzone⟩
    have hkey : r.key = (workflowId, b.nodeId) := by rw [ScheduleRow.key, hworkflow, hnode]
    have hcount : (s.rows.filter fun q => q.key = (workflowId, b.nodeId)).Nodup := by
      apply List.Nodup.filter
      exact h.ids.of_map
    apply List.perm_singleton.mp
    apply (perm_ext_iff_of_nodup hcount (nodup_singleton r)).mpr
    intro q
    rw [List.mem_filter, decide_eq_true_eq, mem_singleton]
    constructor
    · rintro ⟨hq, hqkey⟩
      exact eq_of_key h.keys hq hr (hqkey.trans hkey.symm)
    · rintro rfl
      exact ⟨hr, hkey⟩
  · intro r hr blocks hgraph
    have hfollows := h.follows r.workflowId blocks hgraph fun k v hv hdone => hidle k v hv hdone r.workflowId
    exact hfollows.no_more r hr rfl

theorem Inv.rows (h : Inv cal s) {rows : List ScheduleRow} (hids : (rows.map (·.id)).Nodup)
    (hfresh : ∀ r ∈ rows, r.id < s.nextId) (hkeys : (rows.map ScheduleRow.key).Nodup)
    (hknown : ∀ r ∈ rows, (s.graphs.get? r.workflowId).isSome)
    (hoccurs : ∀ r ∈ rows, Occurs cal r.cronExpression r.timezone r.nextRunAt)
    (hkept : ∀ workflowId, Kept workflowId s.rows rows) : Inv cal { s with rows := rows } := by
  refine ⟨hids, hfresh, hkeys, hknown, hoccurs, h.copies, h.alone, ?_, ?_⟩
  · intro k v hv hdone
    obtain ⟨blocks, seen, hgraph, hlist, hseen⟩ := h.saving k v hv hdone
    exact ⟨blocks, seen, hgraph, hlist, hseen.kept (hkept _)⟩
  · intro workflowId blocks hgraph hidle
    exact (h.follows workflowId blocks hgraph hidle).kept (hkept _)

theorem Inv.advance {s : Schedules} (h : Inv cal s) {k : Nat} {v v' : Save} (hv : s.saves[k]? = some v)
    (hopen : v.done = false) (hworkflow : v'.workflowId = v.workflowId) {rows : List ScheduleRow} {nextId : Nat}
    (hids : (rows.map (·.id)).Nodup) (hfresh : ∀ r ∈ rows, r.id < nextId)
    (hkeys : (rows.map ScheduleRow.key).Nodup) (hknown : ∀ r ∈ rows, (s.graphs.get? r.workflowId).isSome)
    (hoccurs : ∀ r ∈ rows, Occurs cal r.cronExpression r.timezone r.nextRunAt)
    (hkept : ∀ workflowId, workflowId ≠ v.workflowId → Kept workflowId s.rows rows)
    (hgoes : v'.done = false → ∃ blocks seen, s.graphs.get? v.workflowId = some blocks ∧
      blocks.list = seen ++ v'.todo ∧ Seen cal rows v' seen)
    (hends : v'.done = true → ∀ blocks, s.graphs.get? v.workflowId = some blocks →
      Follows cal rows v.workflowId blocks) :
    Inv cal { s with rows := rows, nextId := nextId, saves := s.saves.set k v' } := by
  have hset : ∀ (j : Nat) w, (s.saves.set k v')[j]? = some w ↔
      k = j ∧ v' = w ∨ k ≠ j ∧ s.saves[j]? = some w :=
    fun j w => getElem?_set_eq_some hv
  have hapart : ∀ (j : Nat) w, k ≠ j → s.saves[j]? = some w → w.done = false → w.workflowId ≠ v.workflowId := by
    intro j w hne hw hwopen heq
    exact hne (h.alone j k w v hw hv hwopen hopen heq).symm
  refine ⟨hids, hfresh, hkeys, hknown, hoccurs, h.copies, ?_, ?_, ?_⟩
  · intro i j x y hx hy hxopen hyopen heq
    rcases (hset i x).mp hx with ⟨rfl, rfl⟩ | ⟨hi, hx⟩
    · rcases (hset j y).mp hy with ⟨rfl, -⟩ | ⟨hj, hy⟩
      · rfl
      · exact absurd (heq.symm.trans hworkflow) (hapart j y hj hy hyopen)
    · rcases (hset j y).mp hy with ⟨rfl, rfl⟩ | ⟨hj, hy⟩
      · exact absurd (heq.trans hworkflow) (hapart i x hi hx hxopen)
      · exact h.alone i j x y hx hy hxopen hyopen heq
  · intro j w hw hwopen
    rcases (hset j w).mp hw with ⟨rfl, rfl⟩ | ⟨hj, hw⟩
    · obtain ⟨blocks, seen, hgraph, hlist, hseen⟩ := hgoes hwopen
      exact ⟨blocks, seen, by rw [hworkflow]; exact hgraph, hlist, hseen⟩
    · obtain ⟨blocks, seen, hgraph, hlist, hseen⟩ := h.saving j w hw hwopen
      exact ⟨blocks, seen, hgraph, hlist, hseen.kept (hkept _ (hapart j w hj hw hwopen))⟩
  · intro workflowId blocks hgraph hidle
    by_cases heq : workflowId = v.workflowId
    · cases hdone : v'.done with
      | false =>
        have hk := (hset k v').mpr (.inl ⟨rfl, rfl⟩)
        exact absurd (hworkflow.trans heq.symm) (hidle k v' hk hdone)
      | true =>
        rw [heq] at hgraph ⊢
        exact hends hdone blocks hgraph
    · have hbefore := h.follows workflowId blocks hgraph (by
        intro j w hw hwopen
        by_cases hj : k = j
        · rw [← hj, hv] at hw
          cases hw
          exact Ne.symm heq
        · exact hidle j w ((hset j w).mpr (.inr ⟨hj, hw⟩)) hwopen)
      exact hbefore.kept (hkept workflowId heq)

/-! ### The steps of a save -/

theorem inv_save (h : Inv cal s) (workflowId : String) (blocks : Blocks)
    (halone : ∀ v ∈ s.saves, v.done = false → v.workflowId ≠ workflowId) :
    Inv cal { s with
      graphs := s.graphs.set workflowId blocks
      saves := s.saves ++ [{ workflowId, todo := blocks.list }] } := by
  have hgrow : ∀ other, (s.graphs.get? other).isSome → ((s.graphs.set workflowId blocks).get? other).isSome := by
    intro other hother
    rw [Dict.get?_set]
    split
    · rfl
    · exact hother
  have hold : ∀ (k : Nat) v, s.saves[k]? = some v → v.done = false → v.workflowId ≠ workflowId :=
    fun k v hv => halone v (mem_of_getElem? hv)
  refine ⟨h.ids, h.fresh, h.keys, fun r hr => hgrow _ (h.known r hr), h.occurs,
    fun t ht r hr => hgrow _ (h.copies t ht r hr), ?_, ?_, ?_⟩
  · intro j k v w hv hw hvopen hwopen heq
    rcases getElem?_append_singleton.mp hv with hv | ⟨rfl, rfl⟩
    · rcases getElem?_append_singleton.mp hw with hw | ⟨rfl, rfl⟩
      · exact h.alone j k v w hv hw hvopen hwopen heq
      · exact absurd heq (hold j v hv hvopen)
    · rcases getElem?_append_singleton.mp hw with hw | ⟨rfl, -⟩
      · exact absurd heq.symm (hold k w hw hwopen)
      · rfl
  · intro k v hv hvopen
    rcases getElem?_append_singleton.mp hv with hv | ⟨rfl, rfl⟩
    · obtain ⟨others, seen, hgraph, hlist, hseen⟩ := h.saving k v hv hvopen
      refine ⟨others, seen, ?_, hlist, hseen⟩
      rw [Dict.get?_set_ne s.graphs blocks (hold k v hv hvopen)]
      exact hgraph
    · refine ⟨blocks, [], Dict.get?_set_self .., rfl, ?_, ?_, ?_⟩
      · intro nodeId
        simp
      · exact fun b hb => absurd hb not_mem_nil
      · exact fun u hu => by cases hu
  · intro other others hgraph hidle
    have hne : other ≠ workflowId := by
      rintro rfl
      exact hidle s.saves.length _ (getElem?_append_singleton.mpr (.inr ⟨rfl, rfl⟩)) rfl rfl
    rw [Dict.get?_set_ne s.graphs blocks hne] at hgraph
    exact h.follows other others hgraph fun k v hv =>
      hidle k v (getElem?_append_singleton.mpr (.inl hv))

theorem seen_look (hoccurs : ∀ r ∈ s.rows, Occurs cal r.cronExpression r.timezone r.nextRunAt) {v v' : Save}
    {seen : List Block} (hseen : Seen cal s.rows v seen) (hidle : v.upsert = none) {b : Block}
    {rest : List Block} (htodo : v.todo = b :: rest) (hnext : ∀ cron, b.expression cal = some cron →
      (cal.nextRunForExpression cron s.clock b.zone).isSome) (hlook : lookStep cal s v = some v') :
    Seen cal s.rows v' (seen ++ [b]) ∧ v'.todo = rest ∧ v'.workflowId = v.workflowId ∧ v'.done = v.done := by
  have hbefore : ∀ c ∈ seen, ∀ cron, c.expression cal = some cron →
      HasRow s.rows v.workflowId c.nodeId cron c.zone := by
    intro c hc cron hcron
    rcases hseen.has c hc cron hcron with hrow | ⟨u, hu, -⟩
    · exact hrow
    · simp [hidle] at hu
  rw [lookStep, htodo] at hlook
  cases hexpr : b.expression cal with
  | none =>
    simp only [hexpr, Option.some.injEq] at hlook
    subst hlook
    refine ⟨⟨?_, ?_, ?_⟩, rfl, rfl, rfl⟩
    · intro nodeId
      rw [hseen.keep nodeId]
      constructor
      · rintro ⟨c, hc, hnode, hsome⟩
        exact ⟨c, mem_append_left _ hc, hnode, hsome⟩
      · rintro ⟨c, hc, hnode, hsome⟩
        rcases List.mem_append.mp hc with hc | hc
        · exact ⟨c, hc, hnode, hsome⟩
        · simp [List.mem_singleton.mp hc, hexpr] at hsome
    · intro c hc cron hcron
      rcases List.mem_append.mp hc with hc | hc
      · exact .inl (hbefore c hc cron hcron)
      · simp [List.mem_singleton.mp hc, hexpr] at hcron
    · intro u hu
      simp [hidle] at hu
  | some cron =>
    obtain ⟨next, hsome⟩ := Option.isSome_iff_exists.mp (hnext cron hexpr)
    simp only [hexpr, hsome, Option.some.injEq] at hlook
    subst hlook
    refine ⟨⟨?_, ?_, ?_⟩, rfl, rfl, rfl⟩
    · intro nodeId
      rw [mem_append, mem_singleton, hseen.keep nodeId]
      constructor
      · rintro (⟨c, hc, hnode, hvalid⟩ | rfl)
        · exact ⟨c, mem_append_left _ hc, hnode, hvalid⟩
        · exact ⟨b, mem_append_right _ (List.mem_singleton.mpr rfl), rfl, by rw [hexpr]; rfl⟩
      · rintro ⟨c, hc, hnode, hvalid⟩
        rcases List.mem_append.mp hc with hc | hc
        · exact .inl ⟨c, hc, hnode, hvalid⟩
        · rw [List.mem_singleton.mp hc] at hnode
          exact .inr hnode.symm
    · intro c hc cron' hcron
      rcases List.mem_append.mp hc with hc | hc
      · exact .inl (hbefore c hc cron' hcron)
      · rw [List.mem_singleton.mp hc]
        exact .inr ⟨_, rfl, rfl⟩
    · intro u hu
      cases hu
      refine ⟨⟨b, mem_append_right _ (List.mem_singleton.mpr rfl), rfl, hexpr, rfl⟩, ⟨_, hsome⟩, ?_, ?_⟩
      · intro old hold
        have hmem := mem_of_find?_eq_some hold
        have hkey := find?_some hold
        exact ⟨hoccurs old hmem, old, hmem, rfl, of_decide_eq_true hkey⟩
      · intro hnone r hr hkey
        exact List.find?_eq_none.mp hnone r hr (decide_eq_true hkey)

theorem inv_look (h : Inv cal s) {k : Nat} {v v' : Save} (hv : s.saves[k]? = some v)
    (hopen : v.done = false) (hidle : v.upsert = none) (hlook : lookStep cal s v = some v')
    (hnext : ∀ b ∈ v.todo.head?, ∀ cron, b.expression cal = some cron →
      (cal.nextRunForExpression cron s.clock b.zone).isSome) :
    Inv cal { s with saves := s.saves.set k v' } := by
  obtain ⟨blocks, seen, hgraph, hlist, hseen⟩ := h.saving k v hv hopen
  cases htodo : v.todo with
  | nil =>
    simp [lookStep, htodo] at hlook
  | cons b rest =>
    obtain ⟨hseen', htodo', hworkflow, hdone⟩ := seen_look h.occurs hseen hidle htodo
      (hnext b (by rw [htodo]; rfl)) hlook
    apply h.advance hv hopen hworkflow h.ids h.fresh h.keys h.known h.occurs
    · exact fun workflowId _ => Kept.refl workflowId s.rows
    · intro _
      refine ⟨blocks, seen ++ [b], hgraph, ?_, hseen'⟩
      rw [hlist, htodo, htodo', append_assoc]
      rfl
    · intro hends
      simp [hdone, hopen] at hends

theorem Blocks.eq_of_node (blocks : Blocks) {b c : Block} (hb : b ∈ blocks.list) (hc : c ∈ blocks.list)
    (hnode : b.nodeId = c.nodeId) : b = c :=
  inj_on_of_nodup_map blocks.nodup hb hc hnode

theorem seen_write {rows rows' : List ScheduleRow} {blocks : Blocks} {seen : List Block}
    (hlist : blocks.list = seen ++ v.todo) (hseen : Seen cal rows v seen) {u : Upsert} (hu : v.upsert = some u)
    (hrow : HasRow rows' v.workflowId u.nodeId u.cronExpression u.timezone)
    (hothers : ∀ nodeId, nodeId ≠ u.nodeId → ∀ cron timezone, HasRow rows v.workflowId nodeId cron timezone →
      HasRow rows' v.workflowId nodeId cron timezone) :
    Seen cal rows' { v with upsert := none } seen := by
  obtain ⟨⟨c, hc, hnode, hexpr, hzone⟩, -, -, -⟩ := hseen.pending u hu
  have hmem : ∀ b ∈ seen, b ∈ blocks.list := by
    intro b hb
    rw [hlist]
    exact mem_append_left _ hb
  refine ⟨hseen.keep, ?_, fun u hu => by cases hu⟩
  intro b hb cron hcron
  by_cases heq : b.nodeId = u.nodeId
  · have hbc : b = c := blocks.eq_of_node (hmem b hb) (hmem c hc) (heq.trans hnode.symm)
    rw [hbc, hexpr] at hcron
    rw [heq, hbc, hzone, ← Option.some.inj hcron]
    exact .inl hrow
  · rcases hseen.has b hb cron hcron with hold | ⟨u', hu', hnode'⟩
    · exact .inl (hothers b.nodeId heq cron b.zone hold)
    · rw [hu] at hu'
      rw [← Option.some.inj hu'] at hnode'
      exact absurd hnode'.symm heq

theorem inv_update (h : Inv cal s) {k : Nat} (hv : s.saves[k]? = some v) (hopen : v.done = false)
    {u : Upsert} (hu : v.upsert = some u) {old : ScheduleRow} (hold : u.existing = some old) :
    Inv cal { s with
      rows := updateRow s.rows old.id (u.applied old)
      saves := s.saves.set k { v with upsert := none } } := by
  obtain ⟨blocks, seen, hgraph, hlist, hseen⟩ := h.saving k v hv hopen
  have hpending := hseen.pending u hu
  obtain ⟨holdoccurs, r, hr, hid, hkey⟩ := hpending.update old hold
  rw [ScheduleRow.key, Prod.mk.injEq] at hkey
  -- the row that is written is the block's
  have hrow : ∀ q ∈ s.rows, q.id = old.id → q = r :=
    fun q hq hqid => eq_of_id h.ids hq hr (hqid.trans hid.symm)
  have hkeyed : ∀ q : ScheduleRow, (u.applied old q).key = q.key := fun _ => rfl
  have hids : ∀ q : ScheduleRow, (u.applied old q).id = q.id := fun _ => rfl
  apply @Inv.advance _ _ s h k v { v with upsert := none } hv hopen rfl
  · rw [map_updateRow (·.id) s.rows old.id hids]
    exact h.ids
  · intro q' hq'
    obtain ⟨q, hq, rfl⟩ := mem_updateRow.mp hq'
    split
    · exact h.fresh q hq
    · exact h.fresh q hq
  · rw [map_updateRow ScheduleRow.key s.rows old.id hkeyed]
    exact h.keys
  · intro q' hq'
    obtain ⟨q, hq, rfl⟩ := mem_updateRow.mp hq'
    split
    · exact h.known q hq
    · exact h.known q hq
  · intro q' hq'
    obtain ⟨q, hq, rfl⟩ := mem_updateRow.mp hq'
    split
    · simp only [Upsert.applied]
      split
      · rename_i hsame
        rw [← hsame.1, ← hsame.2]
        exact holdoccurs
      · exact hpending.occurs
    · exact h.occurs q hq
  · intro workflowId hne
    apply kept_updateRow workflowId s.rows old.id hkeyed hids
    intro q hq hqid hworkflow
    rw [hrow q hq hqid, hkey.1] at hworkflow
    exact absurd hworkflow.symm hne
  · intro _
    refine ⟨blocks, seen, hgraph, hlist, seen_write hlist hseen hu ?_ ?_⟩
    · refine ⟨u.applied old r, mem_updateRow.mpr ⟨r, hr, if_pos hid⟩, hkey.1, hkey.2, rfl, rfl⟩
    · rintro nodeId hne cron timezone ⟨q, hq, hworkflow, hnode, hcron, hzone⟩
      have hqid : q.id ≠ old.id := by
        intro hqid
        rw [hrow q hq hqid] at hnode
        exact hne (hnode.symm.trans hkey.2)
      exact ⟨q, mem_updateRow.mpr ⟨q, hq, if_neg hqid⟩, hworkflow, hnode, hcron, hzone⟩
  · intro hends
    simp [show ({ v with upsert := none } : Save).done = v.done from rfl, hopen] at hends

theorem inv_insert (h : Inv cal s) {k : Nat} (hv : s.saves[k]? = some v) (hopen : v.done = false)
    {u : Upsert} (hu : v.upsert = some u) (hnone : u.existing = none) :
    Inv cal { s with
      rows := s.rows ++ [{
        id := s.nextId
        workflowId := v.workflowId
        nodeId := u.nodeId
        cronExpression := u.cronExpression
        timezone := u.timezone
        nextRunAt := u.nextRunAt
        enabled := u.enabled }]
      nextId := s.nextId + 1
      saves := s.saves.set k { v with upsert := none } } := by
  obtain ⟨blocks, seen, hgraph, hlist, hseen⟩ := h.saving k v hv hopen
  have hpending := hseen.pending u hu
  have hnew := hpending.insert hnone
  have hsplit : ∀ {p : ScheduleRow → Prop} {row : ScheduleRow}, (∀ r ∈ s.rows, p r) → p row →
      ∀ r ∈ s.rows ++ [row], p r := by
    intro p row hrows hrow r hr
    rcases List.mem_append.mp hr with hr | hr
    · exact hrows r hr
    · rw [List.mem_singleton.mp hr]
      exact hrow
  apply @Inv.advance _ _ s h k v { v with upsert := none } hv hopen rfl
  · rw [map_append, map_singleton]
    apply h.ids.append (nodup_singleton _)
    intro id hmem hid
    obtain ⟨r, hr, rfl⟩ := List.mem_map.mp hmem
    exact absurd (List.mem_singleton.mp hid) (Nat.ne_of_lt (h.fresh r hr))
  · exact hsplit (fun r hr => Nat.lt_succ_of_lt (h.fresh r hr)) (Nat.lt_succ_self s.nextId)
  · rw [map_append, map_singleton]
    apply h.keys.append (nodup_singleton _)
    intro key hmem hkey
    obtain ⟨r, hr, rfl⟩ := List.mem_map.mp hmem
    exact hnew r hr (List.mem_singleton.mp hkey)
  · exact hsplit h.known (by
      show (s.graphs.get? v.workflowId).isSome
      rw [hgraph]
      rfl)
  · exact hsplit h.occurs hpending.occurs
  · intro workflowId hne
    refine ⟨?_, ?_, ?_⟩
    · rintro nodeId cron timezone ⟨r, hr, hrest⟩
      exact ⟨r, mem_append_left _ hr, hrest⟩
    · intro r hr hworkflow
      rcases List.mem_append.mp hr with hr | hr
      · exact ⟨r, hr, rfl⟩
      · rw [List.mem_singleton.mp hr] at hworkflow
        exact absurd hworkflow.symm hne
    · exact fun r hr _ => ⟨r, mem_append_left _ hr, rfl, rfl⟩
  · intro _
    refine ⟨blocks, seen, hgraph, hlist, seen_write hlist hseen hu ?_ ?_⟩
    · exact ⟨_, mem_append_right _ (List.mem_singleton.mpr rfl), rfl, rfl, rfl, rfl⟩
    · rintro nodeId _ cron timezone ⟨r, hr, hrest⟩
      exact ⟨r, mem_append_left _ hr, hrest⟩
  · intro hends
    simp [show ({ v with upsert := none } : Save).done = v.done from rfl, hopen] at hends

theorem inv_write (h : Inv cal s) {k : Nat} (hv : s.saves[k]? = some v) (hopen : v.done = false)
    {u : Upsert} (hu : v.upsert = some u) : Inv cal (writeStep s k v u) := by
  rw [writeStep]
  cases hexisting : u.existing with
  | some old => exact inv_update h hv hopen hu hexisting
  | none =>
    obtain ⟨blocks, seen, hgraph, hlist, hseen⟩ := h.saving k v hv hopen
    have hfree : (s.rows.any fun r => r.key = (v.workflowId, u.nodeId)) = false := by
      apply List.any_eq_false.mpr
      intro r hr hkey
      exact (hseen.pending u hu).insert hexisting r hr (of_decide_eq_true hkey)
    simp only [hfree, Bool.false_eq_true, if_false]
    exact inv_insert h hv hopen hu hexisting

theorem inv_prune (h : Inv cal s) {k : Nat} (hv : s.saves[k]? = some v) (hopen : v.done = false)
    (hidle : v.upsert = none) (htodo : v.todo = []) :
    Inv cal { s with
      rows := s.rows.filter fun r =>
        !(decide (r.workflowId = v.workflowId) && decide (r.nodeId ∉ v.keepNodeIds))
      saves := s.saves.set k { v with done := true } } := by
  obtain ⟨blocks, seen, hgraph, hlist, hseen⟩ := h.saving k v hv hopen
  rw [htodo, append_nil] at hlist
  have hmem : ∀ r, (r ∈ s.rows.filter fun r =>
      !(decide (r.workflowId = v.workflowId) && decide (r.nodeId ∉ v.keepNodeIds))) ↔
        r ∈ s.rows ∧ (r.workflowId = v.workflowId → r.nodeId ∈ v.keepNodeIds) := by
    intro r
    rw [List.mem_filter]
    apply and_congr_right
    intro _
    simp [imp_iff_not_or]
  have hsub := filter_sublist (l := s.rows) (p := fun r =>
    !(decide (r.workflowId = v.workflowId) && decide (r.nodeId ∉ v.keepNodeIds)))
  apply @Inv.advance _ _ s h k v { v with done := true } hv hopen rfl
  · exact h.ids.sublist (hsub.map _)
  · exact fun r hr => h.fresh r ((hmem r).mp hr).1
  · exact h.keys.sublist (hsub.map _)
  · exact fun r hr => h.known r ((hmem r).mp hr).1
  · exact fun r hr => h.occurs r ((hmem r).mp hr).1
  · intro workflowId hne
    have hstays : ∀ r ∈ s.rows, r.workflowId = workflowId → r ∈ s.rows.filter fun r =>
        !(decide (r.workflowId = v.workflowId) && decide (r.nodeId ∉ v.keepNodeIds)) :=
      fun r hr hworkflow => (hmem r).mpr ⟨hr, fun heq => absurd (hworkflow.symm.trans heq) hne⟩
    refine ⟨?_, ?_, ?_⟩
    · rintro nodeId cron timezone ⟨r, hr, hworkflow, hrest⟩
      exact ⟨r, hstays r hr hworkflow, hworkflow, hrest⟩
    · exact fun r hr _ => ⟨r, ((hmem r).mp hr).1, rfl⟩
    · exact fun r hr hworkflow => ⟨r, hstays r hr hworkflow, rfl, rfl⟩
  · exact nofun
  · intro _ blocks' hgraph'
    rw [hgraph] at hgraph'
    cases hgraph'
    refine ⟨?_, ?_⟩
    · intro b hb cron hcron
      rw [hlist] at hb
      rcases hseen.has b hb cron hcron with ⟨r, hr, hworkflow, hnode, hrest⟩ | ⟨u, hu, -⟩
      · refine ⟨r, (hmem r).mpr ⟨hr, fun _ => ?_⟩, hworkflow, hnode, hrest⟩
        rw [hnode]
        exact (hseen.keep b.nodeId).mpr ⟨b, hb, rfl, by rw [hcron]; rfl⟩
      · simp [hidle] at hu
    · intro r hr hworkflow
      rw [hlist]
      exact (hseen.keep r.nodeId).mp (((hmem r).mp hr).2 hworkflow)

/-! ### The steps of a tick -/

theorem inv_tick (h : Inv cal s) (workflowEnabled : String → Bool) :
    Inv cal { s with
      ticks := s.ticks ++ [{
        now := s.clock
        due := (s.rows.filter fun r =>
          r.enabled && workflowEnabled r.workflowId && decide (r.nextRunAt ≤ s.clock)).mergeSort
            fun r q => r.nextRunAt ≤ q.nextRunAt }] } := by
  refine ⟨h.ids, h.fresh, h.keys, h.known, h.occurs, ?_, h.alone, h.saving, h.follows⟩
  intro t ht r hr
  rcases List.mem_append.mp ht with ht | ht
  · exact h.copies t ht r hr
  · rw [List.mem_singleton.mp ht] at hr
    exact h.known r (List.mem_filter.mp (List.mem_mergeSort.mp hr)).1

theorem inv_fireRow (h : Inv cal s) (now : Int) (copy : ScheduleRow)
    (hsame : isOneShotExpression copy.cronExpression = true ∨ ∀ r ∈ s.rows, r.id = copy.id →
      r.cronExpression = copy.cronExpression ∧ r.timezone = copy.timezone) :
    Inv cal { s with rows := fireRow cal s.rows now copy } := by
  have hupdate : ∀ f : ScheduleRow → ScheduleRow, (∀ r, (f r).key = r.key) → (∀ r, (f r).id = r.id) →
      (∀ r, (f r).cronExpression = r.cronExpression ∧ (f r).timezone = r.timezone) →
      (∀ r ∈ s.rows, r.id = copy.id → Occurs cal r.cronExpression r.timezone (f r).nextRunAt) →
      Inv cal { s with rows := updateRow s.rows copy.id f } := by
    intro f hkey hid hexpr hoccurs
    apply h.rows
    · rw [map_updateRow (·.id) s.rows copy.id hid]
      exact h.ids
    · intro r' hr'
      obtain ⟨r, hr, rfl⟩ := mem_updateRow.mp hr'
      split
      · rw [hid r]
        exact h.fresh r hr
      · exact h.fresh r hr
    · rw [map_updateRow ScheduleRow.key s.rows copy.id hkey]
      exact h.keys
    · intro r' hr'
      obtain ⟨r, hr, rfl⟩ := mem_updateRow.mp hr'
      split
      · rw [show (f r).workflowId = r.workflowId from congrArg Prod.fst (hkey r)]
        exact h.known r hr
      · exact h.known r hr
    · intro r' hr'
      obtain ⟨r, hr, rfl⟩ := mem_updateRow.mp hr'
      split
      · rename_i heq
        rw [(hexpr r).1, (hexpr r).2]
        exact hoccurs r hr heq
      · exact h.occurs r hr
    · exact fun workflowId => kept_updateRow workflowId s.rows copy.id hkey hid fun r _ _ _ => hexpr r
  rw [fireRow]
  split
  · exact hupdate _ (fun _ => rfl) (fun _ => rfl) (fun _ => ⟨rfl, rfl⟩) fun r hr _ => h.occurs r hr
  · rename_i hrecurs
    cases hnext : cal.nextRunForExpression copy.cronExpression now copy.timezone with
    | none => exact h
    | some next =>
      apply hupdate (fun row => { row with lastRunAt := some now, nextRunAt := next }) (fun _ => rfl) (fun _ => rfl) (fun _ => ⟨rfl, rfl⟩)
      intro r hr hid
      obtain ⟨hcron, hzone⟩ := (hsame.resolve_left hrecurs) r hr hid
      rw [hcron, hzone]
      exact ⟨now, hnext⟩

theorem inv_fire (h : Inv cal s) {k : Nat} {t : ScheduleTick} (ht : s.ticks[k]? = some t)
    {copy : ScheduleRow} {rest : List ScheduleRow} (hdue : t.due = copy :: rest) :
    Inv cal { s with ticks := s.ticks.set k { t with due := rest } } ∧
      (s.graphs.get? copy.workflowId).isSome := by
  have htmem := mem_of_getElem? ht
  constructor
  · refine ⟨h.ids, h.fresh, h.keys, h.known, h.occurs, ?_, h.alone, h.saving, h.follows⟩
    intro t' ht' r hr
    rcases mem_or_eq_of_mem_set ht' with ht' | rfl
    · exact h.copies t' ht' r hr
    · exact h.copies t htmem r (by rw [hdue]; exact mem_cons_of_mem _ hr)
  · exact h.copies t htmem copy (by rw [hdue]; exact mem_cons_self)

/-! ### Runs -/

theorem inv_step {s' : Schedules} {e : ScheduleEvent} (h : Inv cal s) (hcond : undisturbed cal s e = true)
    (hstep : scheduleStep cal s e = some s') : Inv cal s' := by
  cases e with
  | save workflowId blocks =>
    cases hstep
    apply inv_save h workflowId blocks
    intro v hv hopen
    have hfree := List.all_eq_true.mp hcond v hv
    rw [hopen, Bool.false_or] at hfree
    exact of_decide_eq_true hfree
  | look k =>
    rw [scheduleStep] at hstep
    cases hv : s.saves[k]? with
    | none =>
      simp [hv] at hstep
    | some v =>
      simp only [hv] at hstep
      split at hstep
      · cases hstep
      · rename_i hbusy
        obtain ⟨hopen, hidle⟩ : v.done = false ∧ v.upsert = none := by
          simpa using hbusy
        obtain ⟨v', hlook, rfl⟩ := Option.map_eq_some_iff.mp hstep
        apply inv_look h hv hopen hidle hlook
        intro b hb cron hcron
        simp only [undisturbed, hv] at hcond
        cases htodo : v.todo with
        | nil =>
          simp [htodo] at hb
        | cons c rest =>
          rw [htodo] at hb
          obtain rfl : c = b := Option.some.inj hb
          simpa only [htodo, hcron] using hcond
  | write k =>
    rw [scheduleStep] at hstep
    cases hv : s.saves[k]? with
    | none =>
      simp [hv] at hstep
    | some v =>
      simp only [hv] at hstep
      split at hstep
      · cases hstep
      · rename_i hopen
        obtain ⟨u, hu, rfl⟩ := Option.map_eq_some_iff.mp hstep
        exact inv_write h hv (Bool.eq_false_iff.mpr hopen) hu
  | prune k =>
    rw [scheduleStep] at hstep
    cases hv : s.saves[k]? with
    | none =>
      simp [hv] at hstep
    | some v =>
      simp only [hv] at hstep
      split at hstep
      · cases hstep
      · rename_i hbusy
        obtain ⟨⟨hopen, hidle⟩, htodo⟩ : (v.done = false ∧ v.upsert = none) ∧ v.todo = [] := by
          simpa using hbusy
        cases hstep
        exact inv_prune h hv hopen hidle htodo
  | tick workflowEnabled =>
    cases hstep
    exact inv_tick h workflowEnabled
  | fire k authorized =>
    rw [scheduleStep] at hstep
    cases ht : s.ticks[k]? with
    | none =>
      simp [ht] at hstep
    | some t =>
      simp only [ht] at hstep
      cases hdue : t.due with
      | nil =>
        simp [hdue] at hstep
      | cons copy rest =>
        obtain ⟨hrest, hknown⟩ := inv_fire h ht hdue
        rw [← Option.isNone_eq_false_iff, Bool.eq_false_iff] at hknown
        simp only [hdue, if_neg hknown] at hstep
        split at hstep
        · rename_i hauthorized
          cases hstep
          apply inv_fireRow hrest t.now copy
          simp only [undisturbed, ht, hdue, hauthorized, Bool.not_true, Bool.false_or,
            Bool.or_eq_true] at hcond
          apply hcond.imp_right
          intro hall r hr hid
          have hsame := List.all_eq_true.mp hall r hr
          rw [decide_eq_false (not_not_intro hid), Bool.false_or, Bool.and_eq_true] at hsame
          exact ⟨of_decide_eq_true hsame.1, of_decide_eq_true hsame.2⟩
        · cases hstep
          exact hrest
  | wait time =>
    cases hstep
    exact ⟨h.ids, h.fresh, h.keys, h.known, h.occurs, h.copies, h.alone, h.saving, h.follows⟩

theorem inv_initial (cal : Croniter Zone) (clock : Int) : Inv cal { clock } := by
  refine ⟨nodup_nil, ?_, nodup_nil, ?_, ?_, ?_, ?_, ?_, ?_⟩
  · exact fun r hr => absurd hr not_mem_nil
  · exact fun r hr => absurd hr not_mem_nil
  · exact fun r hr => absurd hr not_mem_nil
  · exact fun t ht => absurd ht not_mem_nil
  · intro j k v w hv
    cases hv
  · intro k v hv
    cases hv
  · intro workflowId blocks hgraph
    cases hgraph

/-- In a run that nothing disturbs, the table follows the graphs whenever nothing is going on. -/
theorem rows_follow_graphs {clock : Int} {events : List ScheduleEvent} {t : Schedules}
    (hcond : Along (scheduleStep cal) (fun s e => undisturbed cal s e = true) { clock } events)
    (hrun : run (scheduleStep cal) { clock } events = some t) (hquiet : t.quiet = true) :
    FollowsGraphs cal t :=
  followsGraphs_of_inv (run_invariant_along (fun _ _ _ => inv_step) (inv_initial cal clock) hcond hrun) hquiet

def halfHours : Croniter Unit where
  zoneInfo _ := none
  strip name := name
  readFloat _ := none
  expanded _ := none
  repeated _ _ := false
  next expr _ base :=
    if expr = "0 * * * *" then some ((base / 3600 + 1) * 3600)
    else if expr = "30 * * * *" then some (((base + 1800) / 3600 + 1) * 3600 - 1800)
    else none
  next_later := by
    intro expr zone base t h
    split at h
    · cases h
      omega
    · split at h
      · cases h
        omega
      · cases h
  readsCron expr := decide (expr = "0 * * * *" ∨ expr = "30 * * * *")

def triggers (cron : String) : Blocks where
  list := [{ nodeId := "trigger", cronExpression := some cron }]
  nodup := List.nodup_singleton _

def saveOf (k : Nat) (cron : String) : List ScheduleEvent :=
  [.save "daily" (triggers cron), .look k, .write k, .prune k]

/-- A tick fires between two saves. -/
theorem tick_between_saves :
    ∃ t, run (scheduleStep halfHours) { clock := 60 }
      (saveOf 0 "0 * * * *" ++ [.wait 4000, .tick fun _ => true, .fire 0 true] ++ saveOf 1 "30 * * * *") = some t ∧
        FollowsGraphs halfHours t ∧ t.rows.map (fun r => (r.cronExpression, r.nextRunAt)) = [("30 * * * *", 5400)] := by
  have htrace : (run (scheduleStep halfHours) { clock := 60 }
      (saveOf 0 "0 * * * *" ++ [.wait 4000, .tick fun _ => true, .fire 0 true] ++ saveOf 1 "30 * * * *")).map
        (fun t => (t.quiet, t.rows.map fun r => (r.cronExpression, r.nextRunAt))) =
          some (true, [("30 * * * *", 5400)]) := by
    decide +kernel
  obtain ⟨t, ht, hseen⟩ := Option.map_eq_some_iff.mp htrace
  rw [Prod.mk.injEq] at hseen
  exact ⟨t, ht, rows_follow_graphs (by decide +kernel) ht hseen.1, hseen.2⟩

/-- A tick reads the row, the graph is saved with another expression, and the tick then writes the next run
of the expression that it read. -/
theorem older_cron_written_back :
    ∃ t, run (scheduleStep halfHours) { clock := 60 }
      (saveOf 0 "0 * * * *" ++ [.wait 4000, .tick fun _ => true] ++ saveOf 1 "30 * * * *" ++ [.fire 0 true]) =
        some t ∧ t.quiet = true ∧ ¬ FollowsGraphs halfHours t := by
  have htrace : (run (scheduleStep halfHours) { clock := 60 }
      (saveOf 0 "0 * * * *" ++ [.wait 4000, .tick fun _ => true] ++ saveOf 1 "30 * * * *" ++ [.fire 0 true])).map
        (fun t => (t.quiet, t.rows.map fun r => (r.cronExpression, r.timezone, r.nextRunAt))) =
          some (true, [("30 * * * *", none, 7200)]) := by
    decide +kernel
  obtain ⟨t, ht, hseen⟩ := Option.map_eq_some_iff.mp htrace
  rw [Prod.mk.injEq] at hseen
  refine ⟨t, ht, hseen.1, ?_⟩
  intro hfollows
  have hmem : ("30 * * * *", none, 7200) ∈ t.rows.map fun r => (r.cronExpression, r.timezone, r.nextRunAt) := by
    rw [hseen.2]
    exact List.mem_singleton.mpr rfl
  obtain ⟨r, hr, hfields⟩ := List.mem_map.mp hmem
  rw [Prod.mk.injEq, Prod.mk.injEq] at hfields
  obtain ⟨base, hbase⟩ := hfollows.occurs r hr
  rw [hfields.1, hfields.2.1, hfields.2.2] at hbase
  have hhalf : ((base + 1800) / 3600 + 1) * 3600 - 1800 = 7200 := Option.some.inj hbase
  omega

end OpenAgent.Scheduler
