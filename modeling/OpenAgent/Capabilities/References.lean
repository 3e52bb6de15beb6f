import OpenAgent.Capabilities.Isolation

/-!
# Tool references

A reference is drawn once and bound once. The invariant ties the two tables that know it together:
every bound reference was drawn, and whatever a registration remembers as its reference for a tool
is bound to that registration and that definition or to nothing. With what the catalog never takes
back, a reference that a discovery handed out leads to its own registration and definition, or
nowhere.
-/

namespace OpenAgent

open Lib Option

namespace Catalog

variable {token : Nat → String}

/-- In this catalog and for good, the reference leads to this registration and definition or
nowhere. -/
structure Bound (token : Nat → String) (c : Catalog) (reference : String) (id : Nat)
    (d : ToolDefinition) : Prop where
  drawn : Drawn token c reference
  only : ∀ bound, c.refs.get? reference = some bound → bound = (id, d)

variable {c c' : Catalog}

theorem Bound.later (htoken : Function.Injective token) (h : Later token c c') {reference : String}
    {id : Nat} {d : ToolDefinition} (hbound : Bound token c reference id d) :
    Bound token c' reference id d where
  drawn := by
    obtain ⟨n, hn, hreference⟩ := hbound.drawn
    exact ⟨n, Nat.lt_of_lt_of_le hn h.drawn, hreference⟩
  only bound hb := hbound.only bound (h.refs htoken reference bound hbound.drawn hb)

structure Sound (token : Nat → String) (c : Catalog) : Prop where
  drawn : ∀ reference bound, c.refs.get? reference = some bound → Drawn token c reference
  issued : ∀ (id : Nat) (r : Registration) (key reference : String) (d : ToolDefinition),
    c.objects[id]? = some r → r.references.get? key = some (reference, d) →
    Bound token c reference id d

theorem sound_empty (allowDynamic : Bool) : Sound token (empty allowDynamic) where
  drawn _ _ h := by cases h
  issued _ _ _ _ _ h := by simp [empty] at h

end Catalog

namespace Sample

def read : ToolDefinition := { name := "read", description := "", inputSchema := .null }

end Sample

end OpenAgent
