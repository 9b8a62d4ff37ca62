/-
Applying operators.

An operator gets its operands as expressions.  It evaluates the ones it needs, in its own order.  An
operator that assigns to an operand evaluates it first for its value and then again as a target.
-/
import ScriptLang.Eval.Evaluator

namespace ScriptLang

namespace Evaluator

/-- Does with operands what an operator of the host says. -/
def applyCode (self : Evaluator) (c : Context) (operands : List Expr) :
    OperatorCode operands.length → Exec Value
  | .give value => return value
  | .fail cause _ => Exec.fail cause
  | .evaluate operand next => do
    let v ← self.evaluate c (operands.get operand)
    self.applyCode c operands (next v)
  | .assign operand value next => do
    self.assign c (operands.get operand) value
    self.applyCode c operands next
  | .newArray items next => do
    let v ← Exec.newArray items
    self.applyCode c operands (next v)
  | .newObject properties next => do
    let v ← Exec.newObject properties
    self.applyCode c operands (next v)
  | .display value next => do
    let text ← Exec.display value
    self.applyCode c operands (next text)

/-- Changes an operand by a number and gives its value before and after. -/
def update (self : Evaluator) (c : Context) (op : String) (operand : Expr) (delta : Float) :
    Exec (Value × Value) := do
  match ← self.evaluate c operand with
  | .number n =>
    self.assign c operand (.number (n + delta))
    return (.number n, .number (n + delta))
  | v => Exec.fail (unaryNotSupported op v)

/-- Applies an operator that stands before its operand. -/
def applyPre (self : Evaluator) (c : Context) (operand : Expr) : PreOperator → Exec Value
  | .negate => do
    match ← self.evaluate c operand with
    | .number n => return .number (-n)
    | v => Exec.fail (unaryNotSupported "-" v)
  | .plus => do
    match ← self.evaluate c operand with
    | .number n => return .number n
    | v => Exec.fail (unaryNotSupported "+" v)
  | .not => do
    let v ← self.evaluate c operand
    return .boolean !v.isTruthy
  | .complement => do
    match ← self.evaluate c operand with
    | .number n => return .number (Number.ofWord (~~~(Number.toWord n)))
    | v => Exec.fail (unaryNotSupported "~" v)
  | .increment => do
    let (_, new) ← self.update c "++" operand 1
    return new
  | .decrement => do
    let (_, new) ← self.update c "--" operand (-1)
    return new
  | .ofHost code => self.applyCode c [operand] code

/-- Applies an operator that stands after its operand. -/
def applyPost (self : Evaluator) (c : Context) (operand : Expr) : PostOperator → Exec Value
  | .increment => do
    let (old, _) ← self.update c "++" operand 1
    return old
  | .decrement => do
    let (old, _) ← self.update c "--" operand (-1)
    return old
  | .ofHost code => self.applyCode c [operand] code

/-- Computes with the heap at hand, which the text of a value needs. -/
def compute (op : Arithmetic) (left right : Value) : Exec Value := do
  Exec.ofExcept (op.apply (← get).heap left right)

/-- Applies an operator that stands between its operands. -/
def applyBinary (self : Evaluator) (c : Context) (left right : Expr) :
    BinaryOperator → Exec Value
  | .arithmetic op => do
    let a ← self.evaluate c left
    let b ← self.evaluate c right
    compute op a b
  | .arithmeticAssign op => do
    let a ← self.evaluate c left
    let b ← self.evaluate c right
    let v ← compute op a b
    self.assign c left v
    return v
  | .comparison op => do
    let a ← self.evaluate c left
    let b ← self.evaluate c right
    Exec.ofExcept (op.apply a b)
  | .equal => do
    let a ← self.evaluate c left
    let b ← self.evaluate c right
    return .boolean (a.equals b)
  | .notEqual => do
    let a ← self.evaluate c left
    let b ← self.evaluate c right
    return .boolean !(a.equals b)
  | .assign => do
    let v ← self.evaluate c right
    self.assign c left v
    return v
  | .shortCircuit op => do
    let a ← self.evaluate c left
    if op.needsRight a then self.evaluate c right else return a
  | .shortCircuitAssign op => do
    let a ← self.evaluate c left
    if op.needsRight a then
      let v ← self.evaluate c right
      self.assign c left v
      return v
    else return a
  | .ofHost code => self.applyCode c [left, right] code

/-- Applies an operator with three operands. -/
def applyTernary (self : Evaluator) (c : Context) (first second third : Expr) :
    TernaryOperator → Exec Value
  | .conditional => do
    let v ← self.evaluate c first
    if v.isTruthy then self.evaluate c second else self.evaluate c third
  | .ofHost code => self.applyCode c [first, second, third] code

/-- The meaning of a symbol. -/
def meaning {α : Type} (table : OperatorTable → Table α) (op : String) : Exec α := do
  match (table (← get).services.operators).get? op with
  | some m => return m
  | none => Exec.fail (.unknownOperator op)

/-- Applies the operator that the table has for a symbol with one operand. -/
def unary (self : Evaluator) (c : Context) (op : String) (fixity : Fixity) (operand : Expr) :
    Exec Value := do
  match fixity with
  | .before => self.applyPre c operand (← meaning (·.pre) op)
  | .after => self.applyPost c operand (← meaning (·.post) op)

/-- Applies the operator that the table has for a symbol with two operands. -/
def binary (self : Evaluator) (c : Context) (op : String) (left right : Expr) : Exec Value := do
  self.applyBinary c left right (← meaning (·.binary) op)

/-- Applies the operator that the table has for symbols with three operands. -/
def ternary (self : Evaluator) (c : Context) (op : String) (first second third : Expr) :
    Exec Value := do
  self.applyTernary c first second third (← meaning (·.ternary) op)

end Evaluator

end ScriptLang
