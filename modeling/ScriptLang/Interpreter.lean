/-
The interpreter.

An interpreter starts with the root context and the functions that every script has.  A host can run
scripts in it, call into it, and give it functions and classes of its own.  What scripts declare at
their top level stays there for the next one.
-/
import ScriptLang.Class.HostClass
import ScriptLang.Eval

namespace ScriptLang.Interpreter

/-- The root context. -/
def root : Context := .root ⟨0⟩

/-- The functions that every script has. -/
def builtins : List HostFunction :=
  [ ⟨"print", none, .print⟩, ⟨"typeof", some 1, .typeName⟩, ⟨"len", some 1, .length⟩,
    ⟨"str", some 1, .display⟩ ]

/-- Gives scripts a function of the host. -/
def defineFunction (f : HostFunction) : Exec Unit := do
  let v ← Exec.newFunction (.host f)
  Exec.declare root f.name .function v

/-- Gives scripts a class of the host. -/
def defineClass (h : HostClass) : Exec ClassId := do
  let id ← h.register
  Exec.declare root h.name .classDecl (← Evaluator.classValue id)
  return id

/-- Makes the root context and declares the functions that every script has. -/
def prepare : Exec Unit := do
  let _ ← Exec.newScope
  builtins.forM defineFunction

/-- A new interpreter. -/
def start (config : Config) (services : Services) : Except Halt State :=
  match prepare { config, services } with
  | .ok _ s => .ok s
  | .error e _ => .error e

/-- Runs a script and gives the value that it returns. -/
def run (self : Evaluator) (body : List Stmt) : Exec Value := do
  match ← self.sequence root body with
  | .returns v => return v
  | .jumps label => Exec.fail (.labelNotFound label)
  | _ => return .null

/-- Calls a function by its name. -/
def callGlobal (self : Evaluator) (name : String) (args : List Value) : Exec Value := do
  let f ← Exec.lookup root name
  self.callValue root f args

/-- Sets a variable of the root context, and declares it if there is none. -/
def setGlobal (name : String) (value : Value) : Exec Unit := fun s =>
  match Exec.assignVariable root name value s with
  | .error (.fault ⟨.undefined _, none⟩) s => Exec.declare root name .variable value s
  | result => result

end ScriptLang.Interpreter
