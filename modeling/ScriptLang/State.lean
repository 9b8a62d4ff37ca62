/-
The state of an interpreter, and computations on it.

A computation works on the state and ends with a result or with a fault; either way the state stays
as it was left.  Computations that might not end at all are given a bound on their steps, and one that
reaches its bound is exhausted, which is neither a result nor a fault of the script.
-/
import ScriptLang.Config
import ScriptLang.State.Services

namespace ScriptLang

/-- The state of an interpreter. -/
structure State where
  config : Config := {}
  services : Services := {}
  /-- The scopes in the order in which they were made. -/
  scopes : Array Scope := #[]
  heap : Heap := {}
  registry : Registry := {}
  /-- The lines printed so far. -/
  output : Array String := #[]
  /-- How many calls are active. -/
  depth : Nat := 0
  /-- Whether the script was cancelled. -/
  cancelled : Bool := false
  /-- How many turns functions of the host had. -/
  turns : Nat := 0

/-- Why a computation ends without a result. -/
inductive Halt where
  | fault (fault : Fault)
  /-- The bound on its steps is reached. -/
  | exhausted

/-- A computation on the state. -/
abbrev Exec := EStateM Halt State

namespace Exec

/-- Ends with a fault. -/
def fail {α : Type} (cause : Cause) : Exec α := throw (.fault { cause })

/-- Ends with a fault if there is a cause. -/
def ofExcept {α : Type} : Except Cause α → Exec α
  | .ok a => pure a
  | .error cause => fail cause

/-- Locates the fault of a computation that has none. -/
def located {α : Type} (p : Position) (m : Exec α) : Exec α := fun s =>
  match m s with
  | .ok a s => .ok a s
  | .error (.fault f) s => .error (.fault (f.locate p)) s
  | .error .exhausted s => .error .exhausted s

/-- Carries a computation out.  Its fault is a result like others. -/
def attempt {α : Type} (m : Exec α) : Exec (Except Fault α) := fun s =>
  match m s with
  | .ok a s => .ok (.ok a) s
  | .error (.fault f) s => .ok (.error f) s
  | .error .exhausted s => .error .exhausted s

/-- Ends with cancellation if the script was cancelled and the options want this to matter. -/
def checkCancelled : Exec Unit := do
  let s ← get
  if s.config.checkCancellation && s.cancelled then fail .cancelled

/-- Counts a call as active while it runs, and refuses it if too many are. -/
def asCall {α : Type} (m : Exec α) : Exec α := fun s =>
  if s.config.maxCallDepth ≤ s.depth then
    .error (.fault { cause := .stackOverflow s.config.maxCallDepth }) s
  else
    match m { s with depth := s.depth + 1 } with
    | .ok a s => .ok a { s with depth := s.depth - 1 }
    | .error e s => .error e { s with depth := s.depth - 1 }

/-- Prints a line. -/
def printLine (line : String) : Exec Unit :=
  modify fun s => { s with output := s.output.push line }

/-- Cancels the script. -/
def cancel : Exec Unit := modify fun s => { s with cancelled := true }

/-- The turn of a function of the host. -/
def takeTurn : Exec Nat := modifyGet fun s => (s.turns, { s with turns := s.turns + 1 })

/-! ## Contexts and names -/

/-- Makes a scope. -/
def newScope : Exec ScopeId :=
  modifyGet fun s => (⟨s.scopes.size⟩, { s with scopes := s.scopes.push {} })

/-- Makes a block. -/
def newBlock (parent : Context) (flow : BlockFlow) : Exec Context := do
  return .block (← newScope) flow parent

/-- Makes the context of a call of a function. -/
def newFunctionContext (closure : Context) : Exec Context := do
  return .function (← newScope) closure

/-- Makes the context of a call of a method. -/
def newMethodContext (closure : Context) (owner : ClassId) (receiver : Option Value) :
    Exec Context := do
  return .method (← newScope) closure owner receiver

/-- What a scope holds. -/
def scopeOf (id : ScopeId) : Exec Scope := do
  return (← get).scopes[id.index]?.getD {}

/-- Replaces what a scope holds. -/
def setScope (id : ScopeId) (scope : Scope) : Exec Unit :=
  modify fun s => { s with scopes := s.scopes.setIfInBounds id.index scope }

/-- The name under which a name is kept. -/
def keptName (name : String) : Exec String := do
  return (← get).services.naming.keep name

/-- Reserves a name in the scope of a context. -/
def hoist (c : Context) (name : String) (kind : BindingKind) : Exec Unit := do
  let scope ← scopeOf c.scope
  let scope ← ofExcept (scope.hoist (← keptName name) kind)
  setScope c.scope scope

/-- Gives a name in the scope of a context its value. -/
def declare (c : Context) (name : String) (kind : BindingKind) (value : Value) : Exec Unit := do
  if let some message := (← get).services.naming.refusal? name then fail (.native message)
  let scope ← scopeOf c.scope
  setScope c.scope (scope.declare (← keptName name) kind value)

/-- Declares a label in the scope of a context. -/
def declareLabel (c : Context) (label : String) : Exec Unit := do
  let scope ← scopeOf c.scope
  let scope ← ofExcept (scope.declareLabel label)
  setScope c.scope scope

/-- Looks for a name in scopes, the first of which that has it decides. -/
def lookupIn (name kept : String) : List ScopeId → Exec Value
  | [] => fail (.undefined name)
  | id :: ids => do
    match (← scopeOf id).lookup kept with
    | .found value => return value
    | .unassigned => fail (.unassigned name)
    | .missing => lookupIn name kept ids

/-- The value of a name in a context. -/
def lookup (c : Context) (name : String) : Exec Value := do
  lookupIn name (← keptName name) c.scopes

/-- Replaces the value of a name in the first of some scopes that has it. -/
def assignIn (name kept : String) (value : Value) : List ScopeId → Exec Unit
  | [] => fail (.undefined name)
  | id :: ids => do
    match ← ofExcept ((← scopeOf id).assign kept value) with
    | some scope => setScope id scope
    | none => assignIn name kept value ids

/-- Replaces the value of a name in a context. -/
def assignVariable (c : Context) (name : String) (value : Value) : Exec Unit := do
  assignIn name (← keptName name) value c.scopes

/-- Whether a label can be jumped to from a context. -/
def canGoto (c : Context) (label : String) : Exec Bool := do
  let s ← get
  return c.jumpScopes.any fun id => ((s.scopes[id.index]?.getD {}).labels).contains label

/-! ## Values and classes -/

/-- The value for a missing value. -/
def nullValue : Exec Value := do
  return (← get).services.creator.null

/-- Makes an array. -/
def newArray (items : List Value) : Exec Value :=
  modifyGet fun s =>
    let (id, heap) := s.heap.addArray items.toArray
    (.array id, { s with heap })

/-- Makes an object, in which later properties win. -/
def newObject (properties : List (String × Value)) : Exec Value :=
  modifyGet fun s =>
    let (id, heap) := s.heap.addObject (.ofList properties)
    (.object id, { s with heap })

/-- Makes a function. -/
def newFunction (f : Function) : Exec Value :=
  modifyGet fun s =>
    let (id, heap) := s.heap.addFunction f
    (.function id, { s with heap })

/-- Makes an instance without fields. -/
def newInstance (c : ClassId) : Exec InstanceId :=
  modifyGet fun s =>
    let (id, heap) := s.heap.addInstance c
    (id, { s with heap })

/-- Changes the heap. -/
def modifyHeap (f : Heap → Heap) : Exec Unit :=
  modify fun s => { s with heap := f s.heap }

/-- The text of a value. -/
def display (v : Value) : Exec String := do
  return (← get).heap.display v

/-- The class with a number. -/
def classOf (id : ClassId) : Exec Class := do
  match (← get).registry.get? id with
  | some c => return c
  | none => fail (.notAClass ("class #" ++ toString id.index))

/-- Registers a class. -/
def register (c : Class) : Exec ClassId :=
  modifyGet fun s =>
    let (id, registry) := s.registry.insert c
    (id, { s with registry })

/-- Sets a field of a class itself. -/
def setStaticField (id : ClassId) (key : String) (value : Value) : Exec Unit :=
  modify fun s => { s with registry := s.registry.modify id (·.setField key value) }

end Exec

end ScriptLang
