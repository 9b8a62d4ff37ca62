/-
The evaluator of the language.

The evaluator that may nest `n + 1` steps does one step of a task on its own and leaves the tasks to
which it leads to the evaluator that may nest `n` steps.  With no steps left nothing can be done.
-/
import ScriptLang.Eval.Statement

namespace ScriptLang

namespace Evaluator

/-- Performs a task, with the tasks to which it leads left to `self`. -/
def step (self : Evaluator) : (t : Task) → Exec t.Answer
  | .evaluate c e => self.evaluateExpr c e
  | .assign c target value => self.assignExpr c target value
  | .execute c s => self.executeStmt c s
  | .sequence c body => self.runSequence c body
  | .call c callee args => self.callValue c callee args
  | .invoke frame decl args => self.runFunction frame decl args
  | .host f call => self.callHost f call
  | .setUp c id i args => self.setUpClass c id i args
  | .getMember c v name => self.memberOf c v name

/-- The evaluator that nests at most `n` steps. -/
def within : (n : Nat) → Evaluator
  | 0 => { bound := 0, perform := fun _ => throw .exhausted }
  | n + 1 => { bound := n + 1, perform := fun t => (within n).step t }

end Evaluator

end ScriptLang
