import Mathlib.Data.Prod.Lex
import Mathlib.Data.String.Basic
import OpenAgent.Contracts
import OpenAgent.Lib.Paging

/-!
# Session pages

A client lists the sessions page by page, with a limit of its own for each, while sessions come and go and their
activity moves them.
-/

namespace OpenAgent.Pages

open Lib

/-- A row of `sessions_v2`. The other columns of `_session_wire` are only `shown`. -/
structure SessionRow (ω : Type) where
  id : String
  tenantId : String
  agentId : Option String
  visibility : String
  lastActivityAtMs : Int
  deletedAtMs : Option Int := none
  shown : ω

variable {ω : Type}

/-- `ORDER BY last_activity_at_ms DESC, id DESC` -/
def SessionRow.key (row : SessionRow ω) : (Int ×ₗ String)ᵒᵈ := .toDual (toLex (row.lastActivityAtMs, row.id))

def SessionRow.listed (context : ExecutionContext) (includeArchived : Bool) (row : SessionRow ω) : Bool :=
  row.tenantId = context.tenantId && row.agentId = some context.agentId && row.visibility ≠ "quarantined" &&
    (includeArchived || row.deletedAtMs.isNone)

def boundedSessionLimit (limit : Int) : Except StoreError Nat :=
  if 1 ≤ limit ∧ limit ≤ 100 then .ok limit.toNat
  else .error (.value "Session page limit must be between 1 and 100")

/-- `_list_sessions`; a cursor is the key that it encodes. -/
def listSessions (context : ExecutionContext) (includeArchived : Bool) (agentId : Option String)
    (rows : List (SessionRow ω)) (limit : Int) (cursor : Option (Int ×ₗ String)ᵒᵈ) :
    Except StoreError (List (SessionRow ω) × Option (Int ×ₗ String)ᵒᵈ) :=
  if agentId.any (· ≠ context.agentId) then .error (.permission "This session store is local to one agent")
  else (boundedSessionLimit limit).map fun limit =>
    let rows := rows.filter (·.listed context includeArchived)
    pageOf SessionRow.key limit ((following SessionRow.key rows cursor).take (limit + 1))

variable {context : ExecutionContext} {includeArchived : Bool} {agentId : Option String}

theorem between_listSessions {rows got : List (SessionRow ω)} {limit : Int} {cursor next : Option (Int ×ₗ String)ᵒᵈ}
    (hids : (rows.map SessionRow.id).Nodup)
    (hok : listSessions context includeArchived agentId rows limit cursor = .ok (got, next)) :
    Between SessionRow.key (· ∈ rows.filter (·.listed context includeArchived))
      (· ∈ rows.filter (·.listed context includeArchived)) (beginsAt cursor) (endsAt next) got := by
  rw [listSessions, boundedSessionLimit] at hok
  split at hok
  · cases hok
  · split at hok
    · rename_i hlimit
      refine between_pageOf (Int.lt_toNat.mpr hlimit.1) ?_ (Except.ok.inj hok)
      have hkeys : (rows.map SessionRow.key).Nodup :=
        .of_map (fun k => (ofLex (OrderDual.ofDual k)).2) (by rwa [List.map_map])
      exact hkeys.sublist (List.filter_sublist.map _)
    · cases hok

/-- A client that follows the cursors sees the sessions in their order and none twice in one place; and when it comes to
the end, it has seen each that was there at all its requests. -/
theorem sessions_are_listed_once {requests : List (Int × List (SessionRow ω))} (hids : ∀ q ∈ requests, (q.2.map SessionRow.id).Nodup) :
    let list := readOn (fun q => listSessions context includeArchived agentId q.2 q.1) none requests
    list.1.Pairwise (SessionRow.key · < SessionRow.key ·) ∧
      (∀ row ∈ list.1, row.listed context includeArchived ∧ ∃ q ∈ requests, row ∈ q.2) ∧
      (list.2 = ⊤ → ∀ row : SessionRow ω, row.listed context includeArchived → (∀ q ∈ requests, row ∈ q.2) →
        row ∈ list.1) := by
  intro list
  have hlist : Between SessionRow.key _ _ (beginsAt none) list.2 list.1 :=
    between_readOn fun q hq _ _ _ hok => between_listSessions (hids q hq) hok
  refine ⟨hlist.sorted, fun row hrow => ?_, fun hend row hlisted hrow => ?_⟩
  · obtain ⟨q, hq, hmem⟩ := (hlist.mem row hrow).1
    obtain ⟨hmem, hlisted⟩ := List.mem_filter.mp hmem
    exact ⟨hlisted, q, hq, hmem⟩
  · refine hlist.rest row (fun q hq => List.mem_filter.mpr ⟨hrow q hq, hlisted⟩) ?_ ?_
    · exact WithTop.coe_lt_coe.mpr (WithBot.bot_lt_coe _)
    · exact hend ▸ le_top

def session (id : String) (at' : Int) : SessionRow Unit := {
  id := id
  tenantId := "tenant"
  agentId := some "agent"
  visibility := "private"
  lastActivityAtMs := at'
  shown := () }

/-- The second session moves up between the two requests, and the third is there at both. -/
theorem sessions_are_listed_once_moving :
    session "c" 1 ∈ (readOn (fun q => listSessions Sample.context false none q.2 q.1) none
      [((2 : Int), [session "a" 3, session "b" 2, session "c" 1]),
        (2, [session "b" 4, session "a" 3, session "c" 1])]).1 :=
  (sessions_are_listed_once (by decide)).2.2 rfl _ rfl (by simp)

end OpenAgent.Pages
