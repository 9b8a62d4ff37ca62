/-
The classes of an interpreter.

Classes are numbered in the order in which they are registered and are never removed.  A class may
extend another one, and the chain of its ancestors is followed upward from parent to parent.  A chain
that visits more classes than there are goes round in circles, and what follows it to its end does not
come to an end.
-/
import ScriptLang.Class

namespace ScriptLang

/-- The registered classes. -/
structure Registry where
  classes : Array Class := #[]

namespace Registry

/-- How many classes there are. -/
def size (r : Registry) : Nat := r.classes.size

/-- The class with a number. -/
def get? (r : Registry) (id : ClassId) : Option Class := r.classes[id.index]?

/-- Registers a class. -/
def insert (r : Registry) (c : Class) : ClassId × Registry :=
  (⟨r.size⟩, ⟨r.classes.push c⟩)

/-- Changes a class. -/
def modify (r : Registry) (id : ClassId) (f : Class → Class) : Registry :=
  ⟨r.classes.modify id.index f⟩

/-- The class that a class extends. -/
def parent? (r : Registry) (id : ClassId) : Option ClassId := (r.get? id).bind (·.parent)

/-- At most `bound` ancestors of a class, the nearest first. -/
def ancestorsWithin (r : Registry) : (bound : Nat) → ClassId → List ClassId
  | 0, _ => []
  | bound + 1, id =>
    match r.parent? id with
    | none => []
    | some p => p :: r.ancestorsWithin bound p

/-- The ancestors of a class, the nearest first. -/
def ancestors (r : Registry) (id : ClassId) : List ClassId := r.ancestorsWithin (r.size + 1) id

/-- Whether the chain above a class comes to an end. -/
def ends (r : Registry) (id : ClassId) : Bool := (r.ancestors id).length ≤ r.size

/-- Whether `a` is derived from `b`, directly or not.  There is no answer if the chain above `a` goes
round in circles and does not come to `b`. -/
def isExtendedFrom (r : Registry) (a b : ClassId) : Option Bool :=
  if (r.ancestors a).contains b then some true
  else if r.ends a then some false
  else none

/-- Whether two classes are the same or one is derived from the other. -/
def isRelated (r : Registry) (a b : ClassId) : Option Bool :=
  if a = b then some true
  else
    match r.isExtendedFrom a b with
    | some false => r.isExtendedFrom b a
    | answer => answer

/-! ## Finding members -/

/-- A member or field that was found, with the class that declares it. -/
inductive Found where
  | field (owner : ClassId) (key : String)
  | member (owner : ClassId) (member : Member)

/-- What looking for a member gives. -/
inductive Search where
  | found (result : Found)
  | absent
  /-- A class of the chain is not registered. -/
  | unregistered (id : ClassId)
  /-- A chain goes round in circles. -/
  | endless

/-- What a class holds under the first of some keys that it has. -/
def Found.inClass? (id : ClassId) (c : Class) (side : Side) (keys : List String) : Option Found :=
  keys.findSome? fun key =>
    match (c.members side).get? key with
    | some m => some (.member id m)
    | none => if c.hasField side key then some (.field id key) else none

/-- The keys under which code of the class `caller` sees a name in the class `id`: as its own private
member, as a public one, and as a protected one if the two classes are related. -/
def visibleKeys (r : Registry) (caller : Option (ClassId × String)) (name : String) (id : ClassId) :
    List String :=
  match caller with
  | none => [name]
  | some (callerId, callerName) =>
    [Class.key .isPrivate callerName name, name] ++
      (if r.isRelated callerId id = some true then [Class.key .isProtected "" name] else [])

/-- Whether it can be told if the class `id` is related to that of the running code. -/
def settles (r : Registry) (caller : Option (ClassId × String)) (id : ClassId) : Bool :=
  match caller with
  | none => true
  | some (callerId, _) => (r.isRelated callerId id).isSome

/-- Looks for a member from a class upward. -/
def searchWithin (r : Registry) (caller : Option (ClassId × String)) (side : Side)
    (name : String) : (bound : Nat) → ClassId → Search
  | 0, _ => .endless
  | bound + 1, id =>
    match r.get? id with
    | none => .unregistered id
    | some c =>
      if r.settles caller id then
        match Found.inClass? id c side (r.visibleKeys caller name id) with
        | some result => .found result
        | none =>
          match c.parent with
          | none => .absent
          | some p => r.searchWithin caller side name bound p
      else .endless

/-- Looks for a member from a class upward. -/
def search (r : Registry) (caller : Option (ClassId × String)) (side : Side) (name : String)
    (id : ClassId) : Search :=
  r.searchWithin caller side name (r.size + 1) id

end Registry

end ScriptLang
