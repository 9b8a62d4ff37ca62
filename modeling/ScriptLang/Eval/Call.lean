/-
Calling functions.

A call of a script function gets a context of its own below the context of the declaration.  The
arguments are bound there, and the body runs in a block below it.  Functions of the host run in the
context of their caller.
-/
import ScriptLang.Eval.Sequence

namespace ScriptLang

/-- The cause of a fault for a wrong number of arguments. -/
def FunctionDecl.wrongArity (f : FunctionDecl) (got : Nat) : Cause :=
  .arityMismatch f.displayName f.arityText got

namespace Evaluator

/-- Binds parameters to arguments.  For a missing argument the default is evaluated where the
parameters before it can be seen. -/
def bindEach (self : Evaluator) (c : Context) (decl : FunctionDecl) (got : Nat) :
    List Parameter → List Value → Exec Unit
  | [], _ => return ()
  | p :: ps, arg :: args => do
    Exec.declare c p.name .parameter arg
    self.bindEach c decl got ps args
  | p :: ps, [] => do
    let value ←
      match p.default with
      | some e => self.evaluate c e
      | none => if p.optional then Exec.nullValue else Exec.fail (decl.wrongArity got)
    Exec.declare c p.name .parameter value
    self.bindEach c decl got ps []

/-- Binds the parameters of a function, of which there must not be fewer than arguments. -/
def bindParameters (self : Evaluator) (c : Context) (decl : FunctionDecl) (args : List Value) :
    Exec Unit := do
  if decl.parameters.length < args.length then Exec.fail (decl.wrongArity args.length)
  self.bindEach c decl args.length decl.parameters args

/-- Runs a function of the script in its context. -/
def runIn (self : Evaluator) (c : Context) (decl : FunctionDecl) (args : List Value) :
    Exec Value := do
  self.bindParameters c decl args
  match ← self.runBody c decl.body with
  | .returns value => return value
  | .jumps label => Exec.fail (.labelNotFound label)
  | _ => Exec.nullValue

/-- Runs a function of the script in a context of its own. -/
def runFunction (self : Evaluator) (frame : Frame) (decl : FunctionDecl) (args : List Value) :
    Exec Value := do
  let c ← Exec.newContext frame
  Exec.asCall (self.runIn c decl args)

end Evaluator

/-! ## Functions of the host -/

namespace Evaluator

/-- What comes of a request of the host, which stands in the call of a function. -/
def answer (self : Evaluator) (call : HostCall) : (request : HostRequest) → Exec request.Answer
  | .call callee args => self.call call.context callee args
  | .construct id args => self.construct call.context id args
  | .getMember target name => self.getMember call.context target name
  | .lookup name => Exec.lookup call.context name
  | .newArray items => Exec.newArray items
  | .newObject properties => Exec.newObject properties
  | .getItems id => do
    return ((← get).heap.array id).toList
  | .setItems id items => Exec.modifyHeap (·.modifyArray id fun _ => items.toArray)
  | .getNames id => do
    return ((← get).heap.object id).names
  | .getProperty id key => do
    return ((← get).heap.object id).get? key
  | .setProperty id key value => Exec.modifyHeap (·.setProperty id key value)
  | .getField id key => do
    return (← get).heap.field? id key
  | .setField id key value => Exec.modifyHeap (·.setField id key value)
  | .className id => do
    return ((← get).registry.get? id).map (·.name)
  | .config => do
    return (← get).config
  | .display value => Exec.display value
  | .print line => Exec.printLine line
  | .cancel => Exec.cancel

/-- Does what code of the host says. -/
def follow (self : Evaluator) (call : HostCall) : HostCode → Exec Value
  | .give value => return value
  | .fail fault => throw (.fault fault)
  | .ask request next => do
    let outcome ← Exec.attempt (self.answer call request)
    self.follow call (next outcome)

/-- Runs what a function of the host does. -/
def runHost (self : Evaluator) (f : HostFunction) (call : HostCall) : Exec Value := do
  let turn ← Exec.takeTurn
  self.follow call (f.body turn call)

/-- Runs a function of the host, with a check of the number of arguments. -/
def callHost (self : Evaluator) (f : HostFunction) (call : HostCall) : Exec Value :=
  match f.arity with
  | some n =>
    if call.args.length = n then self.runHost f call
    else Exec.fail (.arityMismatch f.name (toString n) call.args.length)
  | none => self.runHost f call

/-! ## Methods and functions -/

/-- Calls a method of a class. -/
def callMethod (self : Evaluator) (c : Context) (owner : ClassId) (m : Method)
    (receiver : Option Value) (args : List Value) : Exec Value :=
  match m with
  | .host f => self.host f ⟨c, receiver, args⟩
  | .script decl => do
    let cls ← Exec.classOf owner
    match cls.origin with
    | .script closure _ => self.invoke (.method closure owner receiver) decl args
    | .host _ => Exec.fail (.typeMismatch ("class '" ++ cls.name ++ "' has no script scope"))

/-- Calls a value, which has to be a function. -/
def callValue (self : Evaluator) (c : Context) (callee : Value) (args : List Value) :
    Exec Value := do
  match (← get).heap.callee? callee with
  | some (.script decl closure) => self.invoke (.function closure) decl args
  | some (.host f) => self.host f ⟨c, none, args⟩
  | some (.bound owner m receiver) => self.callMethod c owner m receiver args
  | none => Exec.fail (.notCallable callee.typeName)

end Evaluator

end ScriptLang
