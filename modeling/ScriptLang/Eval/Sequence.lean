/-
Running a list of statements.

Before the first statement runs, the names and labels that the list declares are entered into the
scope.  The statements then run in order, until one of them ends in a way that concerns the code
around the list.  A jump to a label of the list goes on there.
-/
import ScriptLang.Eval.Evaluator

namespace ScriptLang

/-- Enters what a statement declares. -/
def Stmt.hoist (s : Stmt) (c : Context) : Exec Unit :=
  match s.form with
  | .variables declarators => declarators.forM fun d => Exec.hoist c d.1 .variable
  | .function decl =>
    match decl.name with
    | some name => Exec.hoist c name .function
    | none => return ()
  | .classDecl decl => Exec.hoist c decl.name .classDecl
  | .label name => Exec.declareLabel c name
  | _ => return ()

/-- Enters what the statements of a list declare. -/
def hoistAll (c : Context) (body : List Stmt) : Exec Unit :=
  body.forM fun s => Exec.located s.place (s.hoist c)

/-- The statements of a list from a label on. -/
def fromLabel? (label : String) : List Stmt → Option (List Stmt)
  | [] => none
  | s :: rest =>
    match s.form with
    | .label name => if name = label then some (s :: rest) else fromLabel? label rest
    | _ => fromLabel? label rest

namespace Evaluator

/-- Runs the statements `rest` of the list `body`. -/
def runFrom (self : Evaluator) (c : Context) (body : List Stmt) :
    (bound : Nat) → (rest : List Stmt) → Exec Flow
  | _, [] => return .next
  | 0, _ :: _ => throw .exhausted
  | bound + 1, s :: rest => do
    Exec.checkCancelled
    match ← self.execute c s with
    | .next => self.runFrom c body bound rest
    | .jumps label =>
      match fromLabel? label body with
      | some target => self.runFrom c body bound target
      | none => return .jumps label
    | flow => return flow

/-- Runs a list of statements. -/
def runSequence (self : Evaluator) (c : Context) (body : List Stmt) : Exec Flow := do
  hoistAll c body
  self.runFrom c body self.bound body

/-- Runs the body of a function in a block of its own. -/
def runBody (self : Evaluator) (c : Context) (body : List Stmt) : Exec Flow := do
  let block ← Exec.newBlock c .plain
  self.sequence block body

end Evaluator

end ScriptLang
