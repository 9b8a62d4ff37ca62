/-
The heap: what stands behind references.

Arrays, objects, functions and instances are kept in the order in which they were made and are never
removed.  The text of a value shows what is in an array or an object, except for one that is being
written further up.
-/
import ScriptLang.Class.Registry

namespace ScriptLang

/-- A function that a script can call. -/
inductive Function where
  /-- A function of a script, which runs in the context of its declaration. -/
  | script (decl : FunctionDecl) (closure : Context)
  | host (function : HostFunction)
  /-- A method that was taken from a receiver.  A static method has none. -/
  | bound (owner : ClassId) (method : Method) (receiver : Option Value)

/-- The name of a function. -/
def Function.name : Function → String
  | .script decl _ => decl.displayName
  | .host function => function.name
  | .bound _ method _ => method.name

/-- An instance of a class. -/
structure Instance where
  ofClass : ClassId
  fields : Table Value := {}

/-- An instance as a text for inspection. -/
def Instance.inspect (i : Instance) : String :=
  "InstanceObject \x7b class: ClassId(" ++ toString i.ofClass.index ++ "), fields: [" ++
    ", ".intercalate (i.fields.names.map Text.quoted) ++ "] \x7d"

/-- What stands behind references. -/
structure Heap where
  arrays : Array (Array Value) := #[]
  objects : Array (Table Value) := #[]
  functions : Array Function := #[]
  instances : Array Instance := #[]

namespace Heap

/-- The elements of an array. -/
def array (h : Heap) (id : ArrayId) : Array Value := h.arrays[id.index]?.getD #[]

/-- The properties of an object. -/
def object (h : Heap) (id : ObjectId) : Table Value := h.objects[id.index]?.getD {}

/-- A function. -/
def function? (h : Heap) (id : FunctionId) : Option Function := h.functions[id.index]?

/-- The function that a value refers to. -/
def callee? (h : Heap) : Value → Option Function
  | .function id => h.function? id
  | _ => none

/-- An instance. -/
def instance? (h : Heap) (id : InstanceId) : Option Instance := h.instances[id.index]?

/-- The class of an instance. -/
def classOf? (h : Heap) (id : InstanceId) : Option ClassId := (h.instance? id).map (·.ofClass)

/-- The value of a field of an instance. -/
def field? (h : Heap) (id : InstanceId) (key : String) : Option Value :=
  (h.instance? id).bind (·.fields.get? key)

/-- Makes an array. -/
def addArray (h : Heap) (items : Array Value) : ArrayId × Heap :=
  (⟨h.arrays.size⟩, { h with arrays := h.arrays.push items })

/-- Makes an object. -/
def addObject (h : Heap) (properties : Table Value) : ObjectId × Heap :=
  (⟨h.objects.size⟩, { h with objects := h.objects.push properties })

/-- Makes a function. -/
def addFunction (h : Heap) (f : Function) : FunctionId × Heap :=
  (⟨h.functions.size⟩, { h with functions := h.functions.push f })

/-- Makes an instance. -/
def addInstance (h : Heap) (c : ClassId) : InstanceId × Heap :=
  (⟨h.instances.size⟩, { h with instances := h.instances.push { ofClass := c } })

/-- Changes the elements of an array. -/
def modifyArray (h : Heap) (id : ArrayId) (f : Array Value → Array Value) : Heap :=
  { h with arrays := h.arrays.modify id.index f }

/-- Sets a property of an object. -/
def setProperty (h : Heap) (id : ObjectId) (key : String) (value : Value) : Heap :=
  { h with objects := h.objects.modify id.index (·.insert key value) }

/-- Sets a field of an instance. -/
def setField (h : Heap) (id : InstanceId) (key : String) (value : Value) : Heap :=
  { h with
    instances := h.instances.modify id.index fun i =>
      { i with fields := i.fields.insert key value } }

/-- The elements of an array, or the characters of a text. -/
def elements? (h : Heap) : Value → Option (List Value)
  | .array id => some (h.array id).toList
  | .text s => some (s.toList.map Value.ofChar)
  | _ => none

/-! ## The text of a value -/

/-- An array or an object that is being written. -/
inductive Container where
  | array (id : ArrayId)
  | object (id : ObjectId)
  deriving DecidableEq

/-- The text of a value inside the containers `path`.  A path never holds a container twice, so it is
never longer than there are containers. -/
def displayWithin (h : Heap) (path : List Container) : (bound : Nat) → Value → String
  | _, .null => "null"
  | _, .boolean b => toString b
  | _, .number n => Number.display n
  | _, .text s => s
  | 0, .array _ => "[...]"
  | 0, .object _ => "\x7b...\x7d"
  | bound + 1, .array id =>
    if path.contains (.array id) then "[...]"
    else
      let items := (h.array id).toList.map (h.displayWithin (.array id :: path) bound)
      "[" ++ ", ".intercalate items ++ "]"
  | bound + 1, .object id =>
    if path.contains (.object id) then "\x7b...\x7d"
    else
      let items := (h.object id).entries.map fun e =>
        e.1 ++ ": " ++ h.displayWithin (.object id :: path) bound e.2
      "\x7b" ++ ", ".intercalate items ++ "\x7d"
  | _, .function id => "[function " ++ ((h.function? id).map (·.name)).getD "" ++ "]"
  | _, .classRef id => "[class #" ++ toString id.index ++ "]"
  | _, .instanceRef id =>
    "[instance of #" ++ ((h.classOf? id).map fun c => toString c.index).getD "" ++ "]"

/-- The text of a value. -/
def display (h : Heap) (v : Value) : String :=
  h.displayWithin [] (h.arrays.size + h.objects.size + 1) v

/-- A value as a text for inspection: a text stands between quotes. -/
def inspect (h : Heap) : Value → String
  | .text s => Text.quoted s
  | v => h.display v

end Heap

end ScriptLang
