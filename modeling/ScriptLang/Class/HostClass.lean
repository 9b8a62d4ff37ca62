/-
Classes of the host.

The members of such a class are public and are functions of the host.  A second member under the same
name is refused.
-/
import ScriptLang.State

namespace ScriptLang

/-- A class as the host describes it. -/
structure HostClass where
  name : String
  parent : Option ClassId := none
  constructor : Option HostFunction := none
  fields : List String := []
  staticFields : List (String × Value) := []
  members : List (Side × String × Member) := []

namespace HostClass

/-- Adds a member to a class, which must not have one under the same name. -/
def addMember (c : Class) (side : Side) (name : String) (member : Member) : Except Cause Class :=
  if (c.members side).contains name then
    .error (if member.isIndexer then .duplicateIndexer c.name else .duplicateMember c.name name)
  else .ok (c.addMember side name member)

/-- The class that a description describes. -/
def toClass (h : HostClass) : Except Cause Class :=
  let start : Class :=
    { name := h.name
      parent := h.parent
      origin := .host h.constructor
      instanceFields := h.fields.map (⟨·, none⟩)
      staticFields := .ofList h.staticFields }
  h.members.foldlM (fun c (side, name, member) => addMember c side name member) start

/-- Registers a class, whose parent has to be registered. -/
def register (h : HostClass) : Exec ClassId := do
  if let some parent := h.parent then let _ ← Exec.classOf parent
  let c ← Exec.ofExcept h.toClass
  Exec.register c

end HostClass

end ScriptLang
