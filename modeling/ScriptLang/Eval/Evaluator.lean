/-
The evaluator.

Evaluating, assigning, executing, calling and constructing all lead to one another.  Each of them is
defined on its own, with an evaluator at hand that performs the tasks to which it leads.  An evaluator
also has a bound on how many turns a loop may take.
-/
import ScriptLang.State

namespace ScriptLang

/-- What is called, apart from the code: a function by its closure, a method also by its class and its
receiver. -/
inductive Frame where
  | function (closure : Context)
  | method (closure : Context) (owner : ClassId) (receiver : Option Value)

/-- Makes the context of a call. -/
def Exec.newContext : Frame → Exec Context
  | .function closure => newFunctionContext closure
  | .method closure owner receiver => newMethodContext closure owner receiver

/-- What running code can lead to. -/
inductive Task where
  /-- Evaluate an expression. -/
  | evaluate (c : Context) (e : Expr)
  /-- Assign a value to a target. -/
  | assign (c : Context) (target : Expr) (value : Value)
  /-- Execute a statement. -/
  | execute (c : Context) (s : Stmt)
  /-- Run a list of statements. -/
  | sequence (c : Context) (body : List Stmt)
  /-- Call a value. -/
  | call (c : Context) (callee : Value) (args : List Value)
  /-- Run a function of the script. -/
  | invoke (frame : Frame) (decl : FunctionDecl) (args : List Value)
  /-- Run a function of the host. -/
  | host (f : HostFunction) (call : HostCall)
  /-- Set up an instance as one of the given class, with arguments for the constructor. -/
  | setUp (c : Context) (id : ClassId) (i : InstanceId) (args : List Value)
  /-- Get the value of a member. -/
  | getMember (c : Context) (v : Value) (name : String)

/-- What comes out of a task. -/
abbrev Task.Answer : Task → Type
  | .evaluate _ _ => Value
  | .assign _ _ _ => Unit
  | .execute _ _ => Flow
  | .sequence _ _ => Flow
  | .call _ _ _ => Value
  | .invoke _ _ _ => Value
  | .host _ _ => Value
  | .setUp _ _ _ _ => Unit
  | .getMember _ _ _ => Value

/-- Whatever performs tasks. -/
structure Evaluator where
  /-- How many turns a loop may take. -/
  bound : Nat
  /-- Performs a task. -/
  perform : (t : Task) → Exec t.Answer

namespace Evaluator

/-- The value of an expression. -/
def evaluate (self : Evaluator) (c : Context) (e : Expr) : Exec Value :=
  self.perform (.evaluate c e)

/-- Assigns a value to a target. -/
def assign (self : Evaluator) (c : Context) (target : Expr) (value : Value) : Exec Unit :=
  self.perform (.assign c target value)

/-- Executes a statement. -/
def execute (self : Evaluator) (c : Context) (s : Stmt) : Exec Flow :=
  self.perform (.execute c s)

/-- Runs a list of statements. -/
def sequence (self : Evaluator) (c : Context) (body : List Stmt) : Exec Flow :=
  self.perform (.sequence c body)

/-- Calls a value. -/
def call (self : Evaluator) (c : Context) (callee : Value) (args : List Value) : Exec Value :=
  self.perform (.call c callee args)

/-- Runs a function of the script. -/
def invoke (self : Evaluator) (frame : Frame) (decl : FunctionDecl) (args : List Value) :
    Exec Value :=
  self.perform (.invoke frame decl args)

/-- Runs a function of the host. -/
def host (self : Evaluator) (f : HostFunction) (call : HostCall) : Exec Value :=
  self.perform (.host f call)

/-- Sets up an instance as one of the given class, with arguments for the constructor. -/
def setUp (self : Evaluator) (c : Context) (id : ClassId) (i : InstanceId) (args : List Value) :
    Exec Unit :=
  self.perform (.setUp c id i args)

/-- The value of a member. -/
def getMember (self : Evaluator) (c : Context) (v : Value) (name : String) : Exec Value :=
  self.perform (.getMember c v name)

/-- The values of expressions, evaluated from left to right. -/
def evaluateAll (self : Evaluator) (c : Context) : List Expr → Exec (List Value)
  | [] => return []
  | e :: es => do
    let v ← self.evaluate c e
    let vs ← self.evaluateAll c es
    return v :: vs

/-- Makes an instance of a class. -/
def construct (self : Evaluator) (c : Context) (id : ClassId) (args : List Value) :
    Exec Value := do
  let i ← Exec.newInstance id
  self.setUp c id i args
  return .instanceRef i

end Evaluator

end ScriptLang
