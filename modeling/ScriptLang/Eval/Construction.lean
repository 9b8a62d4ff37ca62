/-
Making classes and instances.

A class declaration is turned into a class, which is registered before the initial values of its own
fields are computed.  An instance is set up from the most derived class: the constructor gets its
arguments and hands some of them to the class above, which is set up completely before the fields of
the class get their initial values and the rest of the constructor runs.
-/
import ScriptLang.Class.Draft
import ScriptLang.Eval.Call

namespace ScriptLang

namespace Evaluator

/-- The class that a declaration extends. -/
def parentOf (self : Evaluator) (c : Context) : Option Expr → Exec (Option ClassId)
  | none => return none
  | some e => do
    match ← self.evaluate c e with
    | .classRef id => return some id
    | v => Exec.located e.place (Exec.fail (.notAClass v.typeName))

/-- Adds the members of a declaration. -/
def addMembers (d : Draft) : List MemberDecl → Exec Draft
  | [] => return d
  | m :: ms => do
    let d ← Exec.located m.place (Exec.ofExcept (d.add m))
    addMembers d ms

/-- Makes a class from its declaration. -/
def createClass (self : Evaluator) (c : Context) (decl : ClassDecl) : Exec ClassId := do
  let parent ← self.parentOf c decl.parent
  let draft ← addMembers { partialClass := ⟨decl.name, parent, .script c none, {}, {}, [], {}⟩ }
    decl.members
  let id ← Exec.register (draft.finish c)
  let context ← Exec.newMethodContext c id none
  draft.staticInitializers.forM fun (key, e) => do
    let value ← self.evaluate context e
    Exec.setStaticField id key value
  return id

/-- The fault for arguments where a class without constructor takes none. -/
def refuseArguments (cls : Class) (args : List Value) : Exec Unit :=
  if args.isEmpty then return ()
  else Exec.fail (.arityMismatch cls.name "0" args.length)

/-- Gives an instance of a class of the host its fields and runs the constructor. -/
def constructHost (self : Evaluator) (c : Context) (cls : Class) (constructor : Option HostFunction)
    (i : InstanceId) (args : List Value) : Exec Unit := do
  cls.instanceFields.forM fun f => Exec.modifyHeap (·.setField i f.key .null)
  match constructor with
  | some f => let _ ← self.host f ⟨c, some (.instanceRef i), args⟩
  | none => refuseArguments cls args

/-- Sets up an instance as one of a class of the host. -/
def setUpHost (self : Evaluator) (c : Context) (cls : Class) (constructor : Option HostFunction)
    (i : InstanceId) (args : List Value) : Exec Unit := do
  if let some parent := cls.parent then self.setUp c parent i []
  self.constructHost c cls constructor i args

/-- Splits a call of `super` off the start of a body. -/
def splitSuperCall : List Stmt → Option (List Expr × Position) × List Stmt
  | [] => (none, [])
  | s :: rest =>
    match s.superCall? with
    | some arguments => (some (arguments, s.place), rest)
    | none => (none, s :: rest)

/-- Binds the arguments of a constructor and gives its body. -/
def bindConstructor (self : Evaluator) (context : Context) (cls : Class)
    (constructor : Option FunctionDecl) (args : List Value) : Exec (List Stmt) := do
  match constructor with
  | some decl =>
    self.bindParameters context decl args
    return decl.body
  | none =>
    refuseArguments cls args
    return []

/-- Sets up the instance as one of the class above. -/
def setUpParent (self : Evaluator) (c context : Context) (cls : Class) (i : InstanceId) :
    Option (List Expr × Position) → Exec Unit
  | some (arguments, place) =>
    match cls.parent with
    | some parent => do
      let values ← Exec.located place (self.evaluateAll context arguments)
      Exec.located place (self.setUp c parent i values)
    | none =>
      Exec.located place
        (Exec.fail (.invalidSuper ("class '" ++ cls.name ++ "' has no superclass")))
  | none =>
    match cls.parent with
    | some parent => self.setUp c parent i []
    | none => return ()

/-- Gives the fields of an instance their initial values. -/
def setUpFields (self : Evaluator) (context : Context) (i : InstanceId) (fields : List Field) :
    Exec Unit :=
  fields.forM fun f => do
    let value ←
      match f.initializer with
      | some e => self.evaluate context e
      | none => pure .null
    Exec.modifyHeap (·.setField i f.key value)

/-- Runs the constructor of a class of the script in its context. -/
def constructIn (self : Evaluator) (c context : Context) (cls : Class)
    (constructor : Option FunctionDecl) (i : InstanceId) (args : List Value) : Exec Unit := do
  let body ← self.bindConstructor context cls constructor args
  let (superCall, rest) := splitSuperCall body
  self.setUpParent c context cls i superCall
  self.setUpFields context i cls.instanceFields
  match ← self.runBody context rest with
  | .jumps label => Exec.fail (.labelNotFound label)
  | _ => return ()

/-- Sets up an instance as one of a class of the script. -/
def setUpScript (self : Evaluator) (c : Context) (id : ClassId) (cls : Class) (closure : Context)
    (constructor : Option FunctionDecl) (i : InstanceId) (args : List Value) : Exec Unit := do
  let context ← Exec.newMethodContext closure id (some (.instanceRef i))
  self.constructIn c context cls constructor i args

/-- Sets up an instance as one of a given class. -/
def setUpAs (self : Evaluator) (c : Context) (id : ClassId) (cls : Class) (i : InstanceId)
    (args : List Value) : Exec Unit :=
  match cls.origin with
  | .host constructor => self.setUpHost c cls constructor i args
  | .script closure constructor => self.setUpScript c id cls closure constructor i args

/-- Sets up an instance as one of a class. -/
def setUpClass (self : Evaluator) (c : Context) (id : ClassId) (i : InstanceId)
    (args : List Value) : Exec Unit := do
  let cls ← Exec.classOf id
  Exec.asCall (self.setUpAs c id cls i args)

end Evaluator

end ScriptLang
