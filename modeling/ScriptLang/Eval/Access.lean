/-
Reading and writing members and elements.

The members of instances and classes are looked for from the most derived class upward, as far as the
running code can see them.  Objects have properties, arrays and texts have a length and are indexed by
a number, and nothing can be read from null.
-/
import ScriptLang.Eval.Call

namespace ScriptLang

/-- From where a member is looked for. -/
structure Target where
  /-- The most derived class. -/
  start : ClassId
  side : Side
  receiver : Option Value

/-- From where the members of a value are looked for, if it is an instance or a class. -/
def Target.ofValue? (h : Heap) : Value → Option Target
  | .instanceRef id => (h.classOf? id).map fun c => ⟨c, .ofInstance, some (.instanceRef id)⟩
  | .classRef id => some ⟨id, .ofClass, none⟩
  | _ => none

/-- From where the members of `super` are looked for. -/
def Target.ofSuper (c : Context) : Exec Target := do
  match c.owner with
  | none => Exec.fail (.invalidSuper "used outside of a class")
  | some owner =>
    let cls ← Exec.classOf owner
    match cls.parent with
    | none => Exec.fail (.invalidSuper ("class '" ++ cls.name ++ "' has no superclass"))
    | some parent =>
      match c.this with
      | some (.instanceRef id) => return ⟨parent, .ofInstance, some (.instanceRef id)⟩
      | _ => return ⟨parent, .ofClass, none⟩

/-- Looks for a member that code of the class `caller` can see, or code outside of classes. -/
def resolveFor (caller : Option (ClassId × String)) (target : Target) (name : String) :
    Exec (Option Registry.Found) := do
  match (← get).registry.search caller target.side name target.start with
  | .found result => return some result
  | .absent => return none
  | .unregistered id => Exec.fail (.notAClass ("class #" ++ toString id.index))
  | .endless => throw .exhausted

/-- Looks for a member that code running in a context can see. -/
def resolve (c : Context) (target : Target) (name : String) : Exec (Option Registry.Found) := do
  let caller ←
    match c.owner with
    | none => pure none
    | some id => do
      let cls ← Exec.classOf id
      pure (some (id, cls.name))
  resolveFor caller target name

/-! ## Fields -/

/-- The value of a field that was found. -/
def readField (target : Target) (owner : ClassId) (key : String) : Exec Value := do
  let s ← get
  match target.receiver, target.side with
  | some (.instanceRef id), .ofInstance => return (s.heap.field? id key).getD .null
  | _, _ => return ((s.registry.get? owner).bind (·.staticFields.get? key)).getD .null

/-- Sets a field that was found. -/
def writeField (target : Target) (owner : ClassId) (key : String) (value : Value) : Exec Unit :=
  match target.receiver, target.side with
  | some (.instanceRef id), .ofInstance => Exec.modifyHeap (·.setField id key value)
  | _, _ => Exec.setStaticField owner key value

/-! ## Indices -/

/-- The cause of a fault for an index that does not fit. -/
def outOfRange (args : List Value) (length : Nat) : Cause :=
  .indexOutOfRange ((args.head?.bind (·.number?)).getD (0.0 / 0.0)) length

/-- The index that the arguments give: one whole number that is not negative. -/
def arrayIndex (args : List Value) (length : Nat) : Except Cause Nat :=
  match args with
  | [.number n] =>
    if 0 ≤ n && Number.isIntegral n then .ok n.toUInt64.toNat else .error (outOfRange args length)
  | _ => .error (.typeMismatch "arrays and strings are indexed by one number")

/-- The key that the arguments give: the text of one text or number. -/
def objectKey (args : List Value) : Except Cause String :=
  match args with
  | [.text s] => .ok s
  | [.number n] => .ok (Number.display n)
  | _ => .error (.typeMismatch "objects are indexed by one string or number")

namespace Evaluator

/-! ## Members and indexers of classes -/

/-- The value of a member of a class. -/
def getClassMember (self : Evaluator) (c : Context) (target : Target) (name : String) :
    Exec Value := do
  match ← resolve c target name with
  | none => Exec.fail (.memberNotFound name)
  | some (.field owner key) => readField target owner key
  | some (.member owner m) =>
    match m with
    | .method m => Exec.newFunction (.bound owner m target.receiver)
    | .property (some getter) _ => self.callMethod c owner getter target.receiver []
    | .property none _ => Exec.fail (.writeOnly name)
    | .indexer _ _ => Exec.fail (.memberNotFound name)

/-- Sets a member of a class. -/
def setClassMember (self : Evaluator) (c : Context) (target : Target) (name : String)
    (value : Value) : Exec Unit := do
  match ← resolve c target name with
  | none => Exec.fail (.memberNotFound name)
  | some (.field owner key) => writeField target owner key value
  | some (.member owner m) =>
    match m with
    | .property _ (some setter) =>
      let _ ← self.callMethod c owner setter target.receiver [value]
    | .property _ none => Exec.fail (.readOnly name)
    | .method _ => Exec.fail (.readOnly name)
    | .indexer _ _ => Exec.fail (.memberNotFound name)

/-- The accessors of the indexer of a class, with the class that declares it. -/
def findIndexer (c : Context) (target : Target) :
    Exec (ClassId × Option Method × Option Method) := do
  match ← resolve c target MemberDecl.indexerName with
  | some (.member owner (.indexer getter setter)) => return (owner, getter, setter)
  | _ =>
    let name := (((← get).registry.get? target.start).map (·.name)).getD ""
    Exec.fail (.indexerNotFound ("class '" ++ name ++ "'"))

/-- The value that the indexer of a class gives. -/
def getClassItem (self : Evaluator) (c : Context) (target : Target) (args : List Value) :
    Exec Value := do
  match ← findIndexer c target with
  | (owner, some getter, _) => self.callMethod c owner getter target.receiver args
  | (_, none, _) => Exec.fail (.writeOnly MemberDecl.indexerName)

/-- Hands a value to the indexer of a class. -/
def setClassItem (self : Evaluator) (c : Context) (target : Target) (args : List Value)
    (value : Value) : Exec Unit := do
  match ← findIndexer c target with
  | (owner, _, some setter) =>
    let _ ← self.callMethod c owner setter target.receiver (args ++ [value])
  | (_, _, none) => Exec.fail (.readOnly MemberDecl.indexerName)

/-! ## Members and elements of values -/

/-- The value of a member of a value. -/
def memberOf (self : Evaluator) (c : Context) (v : Value) (name : String) : Exec Value := do
  let h := (← get).heap
  match Target.ofValue? h v with
  | some target => self.getClassMember c target name
  | none =>
    match v with
    | .object id => return ((h.object id).get? name).getD .null
    | .array id =>
      if name = "length" then return .ofNat (h.array id).size
      else Exec.fail (.memberNotFound name)
    | .text s =>
      if name = "length" then return .ofNat s.length else Exec.fail (.memberNotFound name)
    | .null => Exec.fail (.nullReference name)
    | _ => Exec.fail (.memberNotFound name)

/-- Sets a member of a value. -/
def setMember (self : Evaluator) (c : Context) (v : Value) (name : String) (value : Value) :
    Exec Unit := do
  let h := (← get).heap
  match Target.ofValue? h v with
  | some target => self.setClassMember c target name value
  | none =>
    match v with
    | .object id => Exec.modifyHeap (·.setProperty id name value)
    | .null => Exec.fail (.nullReference name)
    | _ => Exec.fail (.typeMismatch ("cannot set '" ++ name ++ "' on a " ++ v.typeName))

/-- The value of an element of a value. -/
def getItem (self : Evaluator) (c : Context) (v : Value) (args : List Value) : Exec Value := do
  let h := (← get).heap
  match Target.ofValue? h v with
  | some target => self.getClassItem c target args
  | none =>
    match v with
    | .array id =>
      let items := h.array id
      let index ← Exec.ofExcept (arrayIndex args items.size)
      match items[index]? with
      | some item => return item
      | none => Exec.fail (outOfRange args items.size)
    | .text s =>
      let index ← Exec.ofExcept (arrayIndex args s.length)
      match s.toList[index]? with
      | some ch => return .ofChar ch
      | none => Exec.fail (outOfRange args s.length)
    | .object id =>
      let key ← Exec.ofExcept (objectKey args)
      return ((h.object id).get? key).getD .null
    | .null => Exec.fail (.nullReference MemberDecl.indexerName)
    | _ => Exec.fail (.indexerNotFound v.typeName)

/-- Sets an element of a value.  An array grows by one if the index is its length. -/
def setItem (self : Evaluator) (c : Context) (v : Value) (args : List Value) (value : Value) :
    Exec Unit := do
  let h := (← get).heap
  match Target.ofValue? h v with
  | some target => self.setClassItem c target args value
  | none =>
    match v with
    | .array id =>
      let size := (h.array id).size
      let index ← Exec.ofExcept (arrayIndex args size)
      if index < size then Exec.modifyHeap (·.modifyArray id (·.setIfInBounds index value))
      else if index = size then Exec.modifyHeap (·.modifyArray id (·.push value))
      else Exec.fail (outOfRange args size)
    | .object id =>
      let key ← Exec.ofExcept (objectKey args)
      Exec.modifyHeap (·.setProperty id key value)
    | .null => Exec.fail (.nullReference MemberDecl.indexerName)
    | _ => Exec.fail (.indexerNotFound v.typeName)

/-! ## Members and elements of `super` -/

/-- The value of a member of `super`. -/
def getSuperMember (self : Evaluator) (c : Context) (name : String) : Exec Value := do
  let target ← Target.ofSuper c
  self.getClassMember c target name

/-- Sets a member of `super`. -/
def setSuperMember (self : Evaluator) (c : Context) (name : String) (value : Value) :
    Exec Unit := do
  let target ← Target.ofSuper c
  self.setClassMember c target name value

/-- The value that the indexer of `super` gives. -/
def getSuperItem (self : Evaluator) (c : Context) (args : List Value) : Exec Value := do
  let target ← Target.ofSuper c
  self.getClassItem c target args

/-- Hands a value to the indexer of `super`. -/
def setSuperItem (self : Evaluator) (c : Context) (args : List Value) (value : Value) :
    Exec Unit := do
  let target ← Target.ofSuper c
  self.setClassItem c target args value

end Evaluator

end ScriptLang
