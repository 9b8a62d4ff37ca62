/-
Evaluating expressions and assigning to them.

The fault of an expression or of a target is located there, unless it comes from a part of it.
-/
import ScriptLang.Eval.Access
import ScriptLang.Eval.Construction
import ScriptLang.Eval.Operation

namespace ScriptLang

namespace Evaluator

/-- The values of the properties of an object, evaluated in order. -/
def evaluateProperties (self : Evaluator) (c : Context) :
    List (String × Expr) → Exec (List (String × Value))
  | [] => return []
  | (key, e) :: rest => do
    let v ← self.evaluate c e
    let vs ← self.evaluateProperties c rest
    return (key, v) :: vs

/-- The value for a class that was made. -/
def classValue (id : ClassId) : Exec Value := do
  return (← get).services.creator.classValue id

/-- The value of an expression, with its fault not located yet. -/
def evaluateForm (self : Evaluator) (c : Context) : ExprForm → Exec Value
  | .literal l => do
    return (← get).services.creator.literal l
  | .variable name => Exec.lookup c name
  | .this =>
    match c.this with
    | some v => return v
    | none => Exec.fail .invalidThis
  | .super =>
    Exec.fail (.invalidSuper
      "must be followed by a member access, an index or a constructor call")
  | .member target name =>
    if target.isSuper then self.getSuperMember c name
    else do
      let v ← self.evaluate c target
      self.memberOf c v name
  | .index target arguments =>
    if target.isSuper then do
      let args ← self.evaluateAll c arguments
      self.getSuperItem c args
    else do
      let v ← self.evaluate c target
      let args ← self.evaluateAll c arguments
      self.getItem c v args
  | .call callee arguments =>
    if callee.isSuper then
      Exec.fail (.invalidSuper
        "'super(...)' is only allowed as the first statement of a constructor")
    else do
      let f ← self.evaluate c callee
      let args ← self.evaluateAll c arguments
      self.callValue c f args
  | .new target arguments => do
    let v ← self.evaluate c target
    let args ← self.evaluateAll c arguments
    match v with
    | .classRef id => self.construct c id args
    | _ => Exec.fail (.notAClass v.typeName)
  | .unary op fixity operand => self.unary c op fixity operand
  | .binary op left right => self.binary c op left right
  | .ternary op first second third => self.ternary c op first second third
  | .array items => do
    let values ← self.evaluateAll c items
    Exec.newArray ((← get).services.creator.items values)
  | .object properties => do
    let values ← self.evaluateProperties c properties
    Exec.newObject ((← get).services.creator.properties values)
  | .function decl => Exec.newFunction (.script decl c)
  | .classDecl decl => do
    let id ← self.createClass c decl
    classValue id

/-- The value of an expression. -/
def evaluateExpr (self : Evaluator) (c : Context) (e : Expr) : Exec Value :=
  Exec.located e.place (self.evaluateForm c e.form)

/-- Assigns values to targets, one to one. -/
def assignEach (self : Evaluator) (c : Context) : List (Expr × Value) → Exec Unit
  | [] => return ()
  | (target, v) :: rest => do
    self.assign c target v
    self.assignEach c rest

/-- Assigns the first elements of a value to targets, of which there must be at least one and not
more than elements. -/
def destructure (self : Evaluator) (c : Context) (targets : List Expr) (value : Value) :
    Exec Unit := do
  match (← get).heap.elements? value with
  | none => Exec.fail (.typeMismatch ("cannot destructure a " ++ value.typeName))
  | some elements =>
    if targets.isEmpty || elements.length < targets.length then
      Exec.fail (.destructuringMismatch targets.length elements.length)
    else self.assignEach c (targets.zip elements)

/-- Assigns to a target, with its fault not located yet. -/
def assignForm (self : Evaluator) (c : Context) (value : Value) : ExprForm → Exec Unit
  | .variable name => Exec.assignVariable c name value
  | .member target name =>
    if target.isSuper then self.setSuperMember c name value
    else do
      let v ← self.evaluate c target
      self.setMember c v name value
  | .index target arguments =>
    if target.isSuper then do
      let args ← self.evaluateAll c arguments
      self.setSuperItem c args value
    else do
      let v ← self.evaluate c target
      let args ← self.evaluateAll c arguments
      self.setItem c v args value
  | .array targets => self.destructure c targets value
  | _ => Exec.fail .invalidAssignmentTarget

/-- Assigns to a target. -/
def assignExpr (self : Evaluator) (c : Context) (target : Expr) (value : Value) : Exec Unit :=
  Exec.located target.place (self.assignForm c value target.form)

end Evaluator

end ScriptLang
