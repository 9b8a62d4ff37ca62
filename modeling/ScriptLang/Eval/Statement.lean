/-
Executing statements.

Every turn of a loop and every clause of a switch runs in a block of its own.  The variables of a
for-loop live in a block around its turns.  The fault of a statement is located there, unless it comes
from a part of it.
-/
import ScriptLang.Eval.Expression

namespace ScriptLang

namespace Evaluator

/-- Declares variables with their initial values. -/
def declareVariables (self : Evaluator) (c : Context) : List (String × Option Expr) → Exec Unit
  | [] => return ()
  | (name, initializer) :: rest => do
    let v ←
      match initializer with
      | some e => self.evaluate c e
      | none => Exec.nullValue
    Exec.declare c name .variable v
    self.declareVariables c rest

/-! ## Loops -/

/-- Runs one turn of a loop. -/
def turn (self : Evaluator) (c : Context) (body : Stmt) : Exec Absorbed := do
  Exec.checkCancelled
  let block ← Exec.newBlock c .loop
  let flow ←
    match body.form with
    | .block statements => self.sequence block statements
    | _ => self.execute block body
  return BlockFlow.loop.absorb flow

/-- Runs a loop that looks at its condition before each turn. -/
def runWhile (self : Evaluator) (c : Context) (condition : Expr) (body : Stmt) :
    (bound : Nat) → Exec Flow
  | 0 => throw .exhausted
  | bound + 1 => do
    let v ← self.evaluate c condition
    if v.isTruthy then
      match ← self.turn c body with
      | .exit flow => return flow
      | .proceed => self.runWhile c condition body bound
    else return .next

/-- Runs a loop that looks at its condition after each turn. -/
def runDoWhile (self : Evaluator) (c : Context) (body : Stmt) (condition : Expr) :
    (bound : Nat) → Exec Flow
  | 0 => throw .exhausted
  | bound + 1 => do
    match ← self.turn c body with
    | .exit flow => return flow
    | .proceed =>
      let v ← self.evaluate c condition
      if v.isTruthy then self.runDoWhile c body condition bound else return .next

/-- Whether a for-loop goes on.  Without a condition it does. -/
def holds (self : Evaluator) (c : Context) : Option Expr → Exec Bool
  | none => return true
  | some e => do
    let v ← self.evaluate c e
    return v.isTruthy

/-- Runs the turns of a for-loop. -/
def runFor (self : Evaluator) (c : Context) (condition : Option Expr) (increment : List Expr)
    (body : Stmt) : (bound : Nat) → Exec Flow
  | 0 => throw .exhausted
  | bound + 1 => do
    if ← self.holds c condition then
      match ← self.turn c body with
      | .exit flow => return flow
      | .proceed =>
        let _ ← self.evaluateAll c increment
        self.runFor c condition increment body bound
    else return .next

/-! ## Switches -/

/-- Runs a clause of a switch. -/
def runClause (self : Evaluator) (c : Context) (body : List Stmt) : Exec Absorbed := do
  let block ← Exec.newBlock c .switch
  let flow ← self.sequence block body
  return BlockFlow.switch.absorb flow

/-- Goes through the cases of a switch.  As soon as the test of one equals the value, the clauses run
until one of them ends the switch, and no further test is evaluated.  The default clause stands after
all the cases. -/
def runCases (self : Evaluator) (c : Context) (value : Value) (default : Option (List Stmt)) :
    (matched : Bool) → List (Expr × List Stmt) → Exec Flow
  | _, [] =>
    match default with
    | none => return .next
    | some body => do
      match ← self.runClause c body with
      | .exit flow => return flow
      | .proceed => return .next
  | matched, (test, body) :: rest => do
    let mut matched := matched
    if !matched then
      let v ← self.evaluate c test
      matched := v.equals value
    if matched then
      match ← self.runClause c body with
      | .exit flow => return flow
      | .proceed => self.runCases c value default matched rest
    else self.runCases c value default matched rest

/-- Runs a switch. -/
def runSwitch (self : Evaluator) (c : Context) (discriminant : Expr)
    (cases : List (Expr × List Stmt)) (default : Option (List Stmt)) : Exec Flow := do
  let value ← self.evaluate c discriminant
  self.runCases c value default false cases

/-! ## Statements -/

/-- Executes a statement, with its fault not located yet. -/
def executeForm (self : Evaluator) (c : Context) : StmtForm → Exec Flow
  | .expr e => do
    let _ ← self.evaluate c e
    return .next
  | .variables declarators => do
    self.declareVariables c declarators
    return .next
  | .function decl =>
    match decl.name with
    | some name => do
      let f ← Exec.newFunction (.script decl c)
      Exec.declare c name .function f
      return .next
    | none => return .next
  | .classDecl decl => do
    let id ← self.createClass c decl
    Exec.declare c decl.name .classDecl (← classValue id)
    return .next
  | .block body => do
    let block ← Exec.newBlock c .plain
    self.sequence block body
  | .ifElse condition onTrue onFalse => do
    let v ← self.evaluate c condition
    if v.isTruthy then self.execute c onTrue
    else
      match onFalse with
      | some s => self.execute c s
      | none => return .next
  | .whileLoop condition body => self.runWhile c condition body self.bound
  | .doWhile body condition => self.runDoWhile c body condition self.bound
  | .forLoop init condition increment body => do
    let block ← Exec.newBlock c .plain
    match ← self.sequence block init with
    | .next => self.runFor block condition increment body self.bound
    | flow => return flow
  | .switch discriminant cases default => self.runSwitch c discriminant cases default
  | .label _ => return .next
  | .empty => return .next
  | .goto label => do
    if ← Exec.canGoto c label then return .jumps label else Exec.fail (.labelNotFound label)
  | .breakLoop => if c.canBreak then return .breaks else Exec.fail .misplacedBreak
  | .continueLoop => if c.canContinue then return .continues else Exec.fail .misplacedContinue
  | .returnValue value => do
    if c.canReturn (← get).config.topLevelReturn then
      match value with
      | some e => do
        let v ← self.evaluate c e
        return .returns v
      | none => do
        let v ← Exec.nullValue
        return .returns v
    else Exec.fail .misplacedReturn

/-- Executes a statement. -/
def executeStmt (self : Evaluator) (c : Context) (s : Stmt) : Exec Flow :=
  Exec.located s.place (self.executeForm c s.form)

end Evaluator

end ScriptLang
