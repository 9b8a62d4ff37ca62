/-
Operators that assign to their operand.

`a += b` computes with the value of `a` and assigns the result to it, `a ??= b` assigns to `a` if its value
asks for it, and `a++` counts.  They all get the operand as an expression: it is evaluated for its value and
later evaluated again as a target.  This has two consequences.

* The operators between two operands do what their long forms `a = a + b` and `a ?? (a = b)` do
  (`compound_agrees_with_long_form`).
* For an operand `t.x` or `t[i, ...]` the parts `t` and `i, ...` are evaluated once to read and once more to
  write (`targets_are_located_twice`).  The location that is written is the one that the second evaluation
  gives, and it need not be the one that was read (`fresh_target_is_made_twice`).
-/
import ScriptLang.Proofs.Eval.Ending
import ScriptLang.Proofs.Scope.Constants

namespace ScriptLang

variable {α : Type}

/-! ## The operators of the language -/

/-- The symbol of an operator that may do without its right operand. -/
def ShortCircuit.symbol : ShortCircuit → String
  | .and => "&&"
  | .or => "||"
  | .orElse => "??"

/-- The operators between two operands that also exist as an assignment. -/
inductive Compound where
  | arithmetic (op : Arithmetic)
  | shortCircuit (op : ShortCircuit)

namespace Compound

/-- The symbol of the operator that does not assign. -/
def symbol : Compound → String
  | .arithmetic op => op.symbol
  | .shortCircuit op => op.symbol

/-- What the operator means if it assigns. -/
def assigning : Compound → BinaryOperator
  | .arithmetic op => .arithmeticAssign op
  | .shortCircuit op => .shortCircuitAssign op

/-- What the operator means if it does not assign. -/
def plain : Compound → BinaryOperator
  | .arithmetic op => .arithmetic op
  | .shortCircuit op => .shortCircuit op

/-- The expression `a op= b`. -/
def short (op : Compound) (p : Position) (a b : Expr) : Expr := ⟨p, .binary (op.symbol ++ "=") a b⟩

/-- The part that the long form of `a op= b` has besides `a` and `b`: `a op b`, or `a = b`. -/
def inner (op : Compound) (p : Position) (a b : Expr) : Expr :=
  match op with
  | .arithmetic op => ⟨p, .binary op.symbol a b⟩
  | .shortCircuit _ => ⟨p, .binary "=" a b⟩

/-- The long form of `a op= b`: `a = (a op b)`, or `a op (a = b)`.  It stands at `q`, and the part that it has
besides `a` and `b` stands at `p`. -/
def long (op : Compound) (q p : Position) (a b : Expr) : Expr :=
  match op with
  | .arithmetic _ => ⟨q, .binary "=" a (op.inner p a b)⟩
  | .shortCircuit _ => ⟨q, .binary op.symbol a (op.inner p a b)⟩

end Compound

/-- The two ways to count. -/
inductive Direction where
  | up
  | down

namespace Direction

def symbol : Direction → String
  | .up => "++"
  | .down => "--"

/-- What is added to the operand. -/
def delta : Direction → Float
  | .up => 1
  | .down => -1

/-- What the symbol means before its operand. -/
def before : Direction → PreOperator
  | .up => .increment
  | .down => .decrement

/-- What the symbol means after its operand. -/
def after : Direction → PostOperator
  | .up => .increment
  | .down => .decrement

end Direction

namespace OperatorTable

lemma get?_standard_assign : standard.binary.get? "=" = some .assign := rfl

lemma get?_standard_compound (op : Compound) :
    standard.binary.get? op.symbol = some op.plain ∧
      standard.binary.get? (op.symbol ++ "=") = some op.assigning := by
  -- No symbol is listed twice; to look up one operator after the other takes longer.
  obtain ⟨entries, htable, hnodup, hplain, hassigning⟩ : ∃ entries, standard.binary = .ofList entries ∧
      (entries.map (·.1)).Nodup ∧ (op.symbol, op.plain) ∈ entries ∧
        (op.symbol ++ "=", op.assigning) ∈ entries := by
    refine ⟨_, rfl, by decide +kernel, ?_, ?_⟩
    · rcases op with op | op <;> cases op <;>
        simp [Compound.symbol, Compound.plain, ShortCircuit.symbol, Arithmetic.all]
    · rcases op with op | op <;> cases op <;>
        simp [Compound.symbol, Compound.assigning, ShortCircuit.symbol, Arithmetic.all]
  rw [htable]
  exact ⟨Table.get?_ofList_of_mem hplain hnodup, Table.get?_ofList_of_mem hassigning hnodup⟩

lemma get?_standard_pre (d : Direction) : standard.pre.get? d.symbol = some d.before := by
  cases d <;> rfl

lemma get?_standard_post (d : Direction) : standard.post.get? d.symbol = some d.after := by
  cases d <;> rfl

end OperatorTable

/-! ## Long forms -/

namespace Evaluator

variable {s : State} {c : Context} {p q : Position} {a b : Expr} (n : Nat)

lemma run_meaning {table : OperatorTable → Table α} {op : String} {m : α}
    (hm : (table s.services.operators).get? op = some m) : (meaning table op).run s = .ok m s := by
  have hget : (get : Exec State).run s = .ok s s := rfl
  rw [meaning, run_bind_ok hget, hm]
  rfl

/-- An operator does what the table says. -/
lemma run_evaluate_binary {op : String} {m : BinaryOperator}
    (hm : s.services.operators.binary.get? op = some m) :
    ((within (n + 1)).evaluate c ⟨p, .binary op a b⟩).run s =
      (Exec.located p ((within n).applyBinary c a b m)).run s :=
  Exec.run_located_congr (run_bind_ok (run_meaning hm))

lemma run_evaluate_before {op : String} {m : PreOperator}
    (hm : s.services.operators.pre.get? op = some m) :
    ((within (n + 1)).evaluate c ⟨p, .unary op .before a⟩).run s =
      (Exec.located p ((within n).applyPre c a m)).run s :=
  Exec.run_located_congr (run_bind_ok (run_meaning hm))

lemma run_evaluate_after {op : String} {m : PostOperator}
    (hm : s.services.operators.post.get? op = some m) :
    ((within (n + 1)).evaluate c ⟨p, .unary op .after a⟩).run s =
      (Exec.located p ((within n).applyPost c a m)).run s :=
  Exec.run_located_congr (run_bind_ok (run_meaning hm))

/-- Assigns a value and gives it. -/
def assignAndGive (self : Evaluator) (c : Context) (target : Expr) (v : Value) : Exec Value := do
  self.assign c target v
  return v

lemma settles_assignAndGive (target : Expr) (v : Value) :
    ((within n).assignAndGive c target v).Settles :=
  .bind (settles_assign n c target v) fun _ => .pure v

lemma assignAndGive_extended (target : Expr) (v : Value) (s : State) :
    ScriptLang.Extended (((within n).assignAndGive c target v).run s)
      (((within (n + 1)).assignAndGive c target v).run s) :=
  (assign_extended n target v s).bind fun _ _ _ => .refl _

section Standard

variable (hs : s.services.operators = .standard)

include hs

lemma run_evaluate_short (op : Compound) :
    ((within (n + 1)).evaluate c (op.short p a b)).run s =
      (Exec.located p ((within n).applyBinary c a b op.assigning)).run s :=
  run_evaluate_binary n (by rw [hs]; exact (OperatorTable.get?_standard_compound op).2)

lemma run_evaluate_plain (op : Compound) (e : Expr) :
    ((within (n + 1)).evaluate c ⟨p, .binary op.symbol a e⟩).run s =
      (Exec.located p ((within n).applyBinary c a e op.plain)).run s :=
  run_evaluate_binary n (by rw [hs]; exact (OperatorTable.get?_standard_compound op).1)

/-- An assignment evaluates its right operand and hands the value on.  Its own place does not matter, since
both parts of it locate their faults. -/
lemma run_evaluate_assign (e : Expr) :
    ((within (n + 1)).evaluate c ⟨p, .binary "=" a e⟩).run s =
      ((within n).evaluate c e >>= (within n).assignAndGive c a).run s := by
  have hm : s.services.operators.binary.get? "=" = some .assign := by
    rw [hs]
    exact OperatorTable.get?_standard_assign
  have hsettles : ((within n).evaluate c e >>= (within n).assignAndGive c a).Settles :=
    .bind (settles_evaluate n c e) fun v => settles_assignAndGive n a v
  rw [run_evaluate_binary n hm]
  exact congrFun hsettles.located_eq s

/-- `a op= b` computes `a op b`, at its own place, and hands the value on. -/
lemma run_evaluate_arithmeticAssign (op : Arithmetic) :
    ((within (n + 1)).evaluate c (Compound.short (.arithmetic op) p a b)).run s =
      ((within (n + 1)).evaluate c (Compound.inner (.arithmetic op) p a b) >>=
        (within n).assignAndGive c a).run s := by
  have hsplit : (within n).applyBinary c a b (Compound.assigning (.arithmetic op)) =
      (within n).applyBinary c a b (Compound.plain (.arithmetic op)) >>=
        (within n).assignAndGive c a := by
    simp only [Compound.assigning, Compound.plain, applyBinary, bind_assoc]
    rfl
  rw [run_evaluate_short n hs, hsplit, Exec.Settles.located_bind fun v => settles_assignAndGive n a v]
  exact run_bind_congr (run_evaluate_plain n hs (.arithmetic op) b).symm fun _ _ _ => rfl

/-- The operators that may do without their right operand look at the left one first. -/
lemma run_evaluate_shortCircuit (op : ShortCircuit) (e : Expr) :
    ((within (n + 1)).evaluate c ⟨p, .binary op.symbol a e⟩).run s =
      ((within n).evaluate c a >>= fun v =>
        if op.needsRight v then (within n).evaluate c e else return v).run s := by
  refine (run_evaluate_plain n hs (.shortCircuit op) e).trans ?_
  refine congrFun (Exec.Settles.located_eq (.bind (settles_evaluate n c a) fun v => ?_)) s
  split
  · exact settles_evaluate n c e
  · exact .pure v

/-- `a op= b` looks at `a` and then does what `a = b` does, if this is asked for.  The table is the same in
between, since no code changes it. -/
lemma run_evaluate_shortCircuitAssign (op : ShortCircuit) :
    ((within (n + 1)).evaluate c (Compound.short (.shortCircuit op) p a b)).run s =
      ((within n).evaluate c a >>= fun v =>
        if op.needsRight v then (within (n + 1)).evaluate c (Compound.inner (.shortCircuit op) p a b)
        else return v).run s := by
  have hsettles : ((within n).applyBinary c a b (Compound.assigning (.shortCircuit op))).Settles := by
    refine .bind (settles_evaluate n c a) fun v => ?_
    split
    · exact .bind (settles_evaluate n c b) fun w => settles_assignAndGive n a w
    · exact .pure v
  rw [run_evaluate_short n hs, hsettles.located_eq]
  refine run_bind_congr rfl fun v s' hv => ?_
  by_cases hneeds : op.needsRight v = true
  · have hs' : s'.services.operators = .standard := by
      rw [(grows_of_ok (t := .evaluate c a) hv).services]
      exact hs
    simp only [hneeds, if_true]
    exact (run_evaluate_assign n hs' b).symm
  · simp only [hneeds, Bool.false_eq_true, if_false]

variable (op : Compound)

/-- The long form needs one more step for its inner part. -/
lemma short_extended :
    ScriptLang.Extended (((within n).evaluate c (op.short p a b)).run s)
      (((within (n + 1)).evaluate c (op.long q p a b)).run s) := by
  cases n with
  | zero => exact evaluate_zero_extended _ s _
  | succ n =>
    cases op with
    | arithmetic op =>
      rw [run_evaluate_arithmeticAssign n hs, Compound.long, run_evaluate_assign (n + 1) hs]
      exact .bind (.refl _) fun v s' _ => assignAndGive_extended n a v s'
    | shortCircuit op =>
      rw [run_evaluate_shortCircuitAssign n hs]
      show ScriptLang.Extended _
        (((within (n + 2)).evaluate c ⟨q, .binary op.symbol a (Compound.inner _ p a b)⟩).run s)
      rw [run_evaluate_shortCircuit (n + 1) hs]
      exact .bind (evaluate_extended n a s) fun v s' _ => .refl _

/-- The short form gets along with the steps of the long form. -/
lemma long_extended :
    ScriptLang.Extended (((within n).evaluate c (op.long q p a b)).run s)
      (((within n).evaluate c (op.short p a b)).run s) := by
  cases n with
  | zero => exact evaluate_zero_extended _ s _
  | succ n =>
    cases op with
    | arithmetic op =>
      rw [run_evaluate_arithmeticAssign n hs, Compound.long, run_evaluate_assign n hs]
      exact .bind (evaluate_extended n _ s) fun _ _ _ => .refl _
    | shortCircuit op =>
      rw [run_evaluate_shortCircuitAssign n hs]
      show ScriptLang.Extended
        (((within (n + 1)).evaluate c ⟨q, .binary op.symbol a (Compound.inner _ p a b)⟩).run s) _
      rw [run_evaluate_shortCircuit n hs]
      refine .bind (.refl _) fun v s' _ => ?_
      split
      · exact evaluate_extended n _ s'
      · exact .refl _

end Standard

end Evaluator

/-- **Compound operators agree with their long forms.**  With the operators of the language, `a op= b` has
the outcomes of `a = (a op b)`, and for `&&`, `||` and `??` those of `a op (a = b)`: the same value or the
same fault, and the same state.  If one of them does not end, then the other one does not end either.  The
inner part of the long form stands at the place of the short one; where the long form stands does not
matter. -/
theorem compound_agrees_with_long_form {s : State} (hs : s.services.operators = .standard)
    (op : Compound) (c : Context) (p q : Position) (a b : Expr) (r : EStateM.Result Halt State Value) :
    Outcome (fun ev => ev.evaluate c (op.short p a b)) s r ↔
      Outcome (fun ev => ev.evaluate c (op.long q p a b)) s r := by
  constructor
  · intro h
    exact h.of_extended fun n => ⟨n + 1, Evaluator.short_extended n hs op⟩
  · intro h
    exact h.of_extended fun n => ⟨n, Evaluator.long_extended n hs op⟩

lemma Value.eq_of_text? {v : Value} {t : String} (h : v.text? = some t) : v = .text t := by
  cases v with
  | text t' => exact congrArg Value.text (Option.some.inj h)
  | _ => cases h

lemma Outcome.of_gives {m : Evaluator → Exec Value} {s : State} {t : String} {P : State → Prop}
    [DecidablePred P] (n : Nat)
    (h : (m (Evaluator.within n)).gives s (fun v s' => v.text? = some t ∧ P s') = true) :
    ∃ s', Outcome m s (.ok (.text t) s') ∧ P s' := by
  obtain ⟨v, s', hrun, ht, hP⟩ := Exec.exists_run_of_gives h
  rw [Value.eq_of_text? ht] at hrun
  exact ⟨s', ⟨nofun, n, hrun⟩, hP⟩

/-- `{p: print("f")}`, an object that is made whenever the expression is evaluated. -/
def freshObject : Expr :=
  let call : Expr := ⟨⟨1, 10⟩, .call ⟨⟨1, 5⟩, .variable "print"⟩ [⟨⟨1, 11⟩, .literal (.text "f")⟩]⟩
  ⟨⟨1, 1⟩, .object [("p", call)]⟩

def freshMember : Expr := ⟨⟨1, 16⟩, .member freshObject "x"⟩

def newText : Expr := ⟨⟨1, 23⟩, .literal (.text "b")⟩

/-- Both `{p: print("f")}.x += "b"` and its long form print twice. -/
theorem compound_agrees_with_long_form_fresh :
    printState.services.operators = .standard ∧ ∃ s',
      Outcome (fun ev => ev.evaluate Interpreter.root
        ((Compound.arithmetic .add).long ⟨2, 1⟩ ⟨1, 20⟩ freshMember newText)) printState
          (.ok (.text "nullb") s') ∧
      s'.output = #["f", "f"] := by
  have hshort : ∃ s', Outcome (fun ev => ev.evaluate Interpreter.root
      ((Compound.arithmetic .add).short ⟨1, 20⟩ freshMember newText)) printState
        (.ok (.text "nullb") s') ∧ s'.output = #["f", "f"] := Outcome.of_gives 9 (by decide +kernel)
  obtain ⟨s', houtcome, hlines⟩ := hshort
  exact ⟨rfl, s', (compound_agrees_with_long_form rfl _ _ _ _ _ _ _).mp houtcome, hlines⟩

/-! ## Locations -/

/-- The expressions that stand for a part of a value. -/
inductive Designator where
  | member (target : Expr) (name : String)
  | index (target : Expr) (arguments : List Expr)

/-- Where a designator leads to: a member or an element of a value, or of `super`. -/
inductive Location where
  | member (owner : Option Value) (name : String)
  | item (owner : Option Value) (args : List Value)

namespace Location

variable (self : Evaluator) (c : Context)

/-- The value at a location. -/
def read : Location → Exec Value
  | .member none name => self.getSuperMember c name
  | .member (some v) name => self.memberOf c v name
  | .item none args => self.getSuperItem c args
  | .item (some v) args => self.getItem c v args

/-- Sets the value at a location. -/
def write (value : Value) : Location → Exec Unit
  | .member none name => self.setSuperMember c name value
  | .member (some v) name => self.setMember c v name value
  | .item none args => self.setSuperItem c args value
  | .item (some v) args => self.setItem c v args value

end Location

namespace Designator

variable (self : Evaluator) (c : Context) (a : Designator)

def form : Designator → ExprForm
  | .member target name => .member target name
  | .index target arguments => .index target arguments

/-- The value that has the part.  There is nothing to evaluate for `super`. -/
def owner (target : Expr) : Exec (Option Value) :=
  if target.isSuper then return none
  else do
    let v ← self.evaluate c target
    return some v

/-- Evaluates the parts of a designator, each of them once and in their order. -/
def locate : Designator → Exec Location
  | .member target name => do
    let owner ← owner self c target
    return .member owner name
  | .index target arguments => do
    let owner ← owner self c target
    let args ← self.evaluateAll c arguments
    return .item owner args

/-- The value of a designator is the value at its location. -/
lemma evaluateForm_eq : self.evaluateForm c a.form = a.locate self c >>= Location.read self c := by
  cases a with
  | member target name =>
    simp only [form, Evaluator.evaluateForm, locate, owner]
    split <;> simp [Location.read]
  | index target arguments =>
    simp only [form, Evaluator.evaluateForm, locate, owner]
    split <;> simp [Location.read]

/-- An assignment to a designator sets the value at its location. -/
lemma assignForm_eq (v : Value) :
    self.assignForm c v a.form = a.locate self c >>= Location.write self c v := by
  cases a with
  | member target name =>
    simp only [form, Evaluator.assignForm, locate, owner]
    split <;> simp [Location.write]
  | index target arguments =>
    simp only [form, Evaluator.assignForm, locate, owner]
    split <;> simp [Location.write]

end Designator

/-! ## Modifiers -/

/-- The operations that assign to their operand. -/
inductive Modifier where
  | compound (op : Compound) (right : Expr)
  | count (d : Direction) (fixity : Fixity)

/-- The value of counting: the new value if the symbol stands before the operand, and the old one after it. -/
def Fixity.chosen (old new : Value) : Fixity → Value
  | .before => new
  | .after => old

/-- What an operation makes of the old value of its operand. -/
structure Revision where
  /-- The value to write, if any. -/
  written : Option Value
  /-- The value of the operation. -/
  result : Value

/-- Reads, makes something of what was read, and writes if there is something to write. -/
def Exec.revising (read : Exec Value) (revise : Value → Exec Revision) (write : Value → Exec Unit) :
    Exec Value := do
  let old ← read
  let r ← revise old
  match r.written with
  | some v => do
    write v
    return r.result
  | none => return r.result

namespace Modifier

variable (m : Modifier) (self : Evaluator) (c : Context) (q : Position) (a : Designator)

/-- The operation on an operand. -/
def applied (p : Position) (target : Expr) : Modifier → Expr
  | .compound op right => op.short p target right
  | .count d fixity => ⟨p, .unary d.symbol fixity target⟩

/-- What the operation makes of the old value of its operand.  A right operand is evaluated here. -/
def revise (old : Value) : Modifier → Exec Revision
  | .compound (.arithmetic op) right => do
    let b ← self.evaluate c right
    let v ← Evaluator.compute op old b
    return ⟨some v, v⟩
  | .compound (.shortCircuit op) right =>
    if op.needsRight old then do
      let v ← self.evaluate c right
      return ⟨some v, v⟩
    else return ⟨none, old⟩
  | .count d fixity =>
    match old with
    | .number x =>
      let new := Value.number (x + d.delta)
      return ⟨some new, fixity.chosen old new⟩
    | v => Exec.fail (unaryNotSupported d.symbol v)

/-- The operation on a designator at `q`, with its parts evaluated once: what is written goes to the location
that was read. -/
def locatingOnce : Exec Value := do
  let l ← Exec.located q (a.locate self c)
  Exec.revising (Exec.located q (l.read self c)) (m.revise self c ·) fun v =>
    Exec.located q (l.write self c v)

/-- The operation on a designator at `q`, with its parts evaluated to read, and evaluated again if the
operation comes to write. -/
def locatingTwice : Exec Value :=
  Exec.revising
    (do
      let l ← Exec.located q (a.locate self c)
      Exec.located q (l.read self c))
    (m.revise self c ·)
    fun v => do
      let l ← Exec.located q (a.locate self c)
      Exec.located q (l.write self c v)

/-- The parts of a designator keep their meaning: if the operation, begun in a state, comes to write, then to
evaluate them again leads to the location that was read and changes nothing. -/
def Steady (s : State) : Prop :=
  ∀ l s₁ old s₂ r s₃, (a.locate self c).run s = .ok l s₁ → (l.read self c).run s₁ = .ok old s₂ →
    (m.revise self c old).run s₂ = .ok r s₃ → r.written.isSome → (a.locate self c).run s₃ = .ok l s₃

variable {m self c q a}

/-- If the parts of a designator keep their meaning, then it does not matter that they are evaluated
twice. -/
lemma locatingTwice_eq_locatingOnce {s : State} (h : m.Steady self c a s) :
    (m.locatingTwice self c q a).run s = (m.locatingOnce self c q a).run s := by
  rw [locatingTwice, locatingOnce, Exec.revising, bind_assoc]
  -- The two do the same until there is something to write.
  refine run_bind_congr rfl fun l s₁ hl => run_bind_congr rfl fun old s₂ hold =>
    run_bind_congr rfl fun r s₃ hr => ?_
  cases hw : r.written with
  | none => rfl
  | some v =>
    have hagain : (Exec.located q (a.locate self c)).run s₃ = .ok l s₃ :=
      Exec.run_located_of_ok (h l s₁ old s₂ r s₃ (Exec.run_located_eq_ok.mp hl)
        (Exec.run_located_eq_ok.mp hold) hr (by rw [hw]; rfl))
    exact run_bind_congr (run_bind_ok hagain) fun _ _ _ => rfl

/-- What `this` stands for is fixed by the context. -/
lemma steady_member_this {p : Position} {v : Value} {name : String} (hthis : c.this = some v) (n : Nat)
    (s : State) : m.Steady (Evaluator.within n) c (.member ⟨p, .this⟩ name) s := by
  cases n with
  | zero =>
    intro l s₁ old s₂ r s₃ hl _ _ _
    have hnone : ((Evaluator.within 0).evaluate c ⟨p, .this⟩).run s = .error .exhausted s := rfl
    cases (run_bind_error (run_bind_error hnone)).symm.trans hl
  | succ n =>
    have hlocate : ∀ s, ((Designator.member ⟨p, .this⟩ name).locate (.within (n + 1)) c).run s =
        .ok (.member (some v) name) s := by
      intro s
      have hv : ((Evaluator.within (n + 1)).evaluate c ⟨p, .this⟩).run s = .ok v s := by
        refine Exec.run_located_of_ok ?_
        simp only [Evaluator.evaluateForm, hthis]
        rfl
      exact run_bind_ok (run_bind_ok hv)
    intro l s₁ old s₂ r s₃ hl _ _ _
    rw [hlocate s] at hl
    cases hl
    exact hlocate s₃

end Modifier

namespace Exec

/-- Operations that do at least as much in each of their parts do at least as much. -/
lemma revising_extended {read read' : Exec Value} {revise revise' : Value → Exec Revision}
    {write write' : Value → Exec Unit} (s : State) (hread : Extended (read.run s) (read'.run s))
    (hrevise : ∀ v s, Extended ((revise v).run s) ((revise' v).run s))
    (hwrite : ∀ v s, Extended ((write v).run s) ((write' v).run s)) :
    Extended ((revising read revise write).run s) ((revising read' revise' write').run s) := by
  refine hread.bind fun old s₁ _ => (hrevise old s₁).bind fun r s₂ _ => ?_
  cases r.written with
  | none => exact .refl _
  | some v => exact (hwrite v s₂).bind fun _ _ _ => .refl _

end Exec

namespace Evaluator

variable (n : Nat) {s : State} {c : Context} {p q : Position} (m : Modifier) (a : Designator)

lemma revise_extended (old : Value) (s : State) :
    ScriptLang.Extended ((m.revise (within n) c old).run s)
      ((m.revise (within (n + 1)) c old).run s) := by
  rcases m with ⟨op | op, right⟩ | ⟨d, fixity⟩
  · exact (evaluate_extended n right s).bind fun _ _ _ => .refl _
  · dsimp only [Modifier.revise]
    split
    · exact (evaluate_extended n right s).bind fun _ _ _ => .refl _
    · exact .refl _
  · exact .refl _

/-- To count is to update the operand. -/
lemma revising_count (self : Evaluator) (c : Context) (target : Expr) (d : Direction) (fixity : Fixity) :
    Exec.revising (self.evaluate c target) (Modifier.revise self c · (.count d fixity))
        (self.assign c target) =
      self.update c d.symbol target d.delta >>= fun r => return fixity.chosen r.1 r.2 := by
  rw [update, bind_assoc]
  refine bind_congr fun old => ?_
  cases old with
  | number x => simp [Modifier.revise]
  | _ => rfl

/-- An operation evaluates its operand, makes something of the value, and assigns to the operand. -/
lemma run_evaluate_applied (hs : s.services.operators = .standard) (target : Expr) :
    ((within (n + 1)).evaluate c (m.applied p target)).run s =
      (Exec.located p (Exec.revising ((within n).evaluate c target) (m.revise (within n) c ·)
        ((within n).assign c target))).run s := by
  rcases m with ⟨op, right⟩ | ⟨d, fixity⟩
  · refine (run_evaluate_short n hs op).trans (congrArg (fun m => (Exec.located p m).run s) ?_)
    cases op with
    | arithmetic op => simp [Compound.assigning, applyBinary, Exec.revising, Modifier.revise]
    | shortCircuit op =>
      refine bind_congr fun old => ?_
      dsimp only [Modifier.revise]
      split <;> simp
  · rw [revising_count]
    cases fixity with
    | before =>
      have hm : s.services.operators.pre.get? d.symbol = some d.before := by
        rw [hs]
        exact OperatorTable.get?_standard_pre d
      refine (run_evaluate_before n hm).trans (congrArg (fun m => (Exec.located p m).run s) ?_)
      cases d <;> rfl
    | after =>
      have hm : s.services.operators.post.get? d.symbol = some d.after := by
        rw [hs]
        exact OperatorTable.get?_standard_post d
      refine (run_evaluate_after n hm).trans (congrArg (fun m => (Exec.located p m).run s) ?_)
      cases d <;> rfl

/-- With one more step, an expression and a target are located by themselves. -/
lemma evaluate_designator :
    (within (n + 1)).evaluate c ⟨q, a.form⟩ =
      Exec.located q (a.locate (within n) c) >>= fun l => Exec.located q (l.read (within n) c) := by
  show Exec.located q ((within n).evaluateForm c a.form) = _
  rw [Designator.evaluateForm_eq, Exec.located_bind]

lemma assign_designator (v : Value) :
    (within (n + 1)).assign c ⟨q, a.form⟩ v =
      Exec.located q (a.locate (within n) c) >>= fun l => Exec.located q (l.write (within n) c v) := by
  show Exec.located q ((within n).assignForm c v a.form) = _
  rw [Designator.assignForm_eq, Exec.located_bind]

/-- The operation, one step after its beginning, with its operand one step further. -/
lemma locatingTwice_eq :
    m.locatingTwice (within n) c q a =
      Exec.revising ((within (n + 1)).evaluate c ⟨q, a.form⟩) (m.revise (within n) c ·)
        ((within (n + 1)).assign c ⟨q, a.form⟩) := by
  simp only [funext (assign_designator n a), evaluate_designator]
  rfl

lemma applied_extended (hs : s.services.operators = .standard) :
    ScriptLang.Extended (((within (n + 1)).evaluate c (m.applied p ⟨q, a.form⟩)).run s)
      ((Exec.located p (m.locatingTwice (within n) c q a)).run s) := by
  rw [run_evaluate_applied n m hs, locatingTwice_eq]
  exact (Exec.revising_extended s (evaluate_extended n _ s) (fun _ _ => .refl _)
    fun v s => assign_extended n _ v s).located

lemma locatingTwice_extended (hs : s.services.operators = .standard) :
    ScriptLang.Extended ((Exec.located p (m.locatingTwice (within n) c q a)).run s)
      (((within (n + 2)).evaluate c (m.applied p ⟨q, a.form⟩)).run s) := by
  rw [run_evaluate_applied (n + 1) m hs, locatingTwice_eq]
  exact (Exec.revising_extended s (.refl _) (fun v s => revise_extended n m v s)
    fun _ _ => .refl _).located

end Evaluator

/-- **Targets are located to read and again to write.**  With the operators of the language, `a op= b` and
counting up or down, on an operand `t.x` or `t[i, ...]`, have the outcomes of the operation that evaluates
the parts of its operand once to read, and once more if it comes to write; the location that the second
evaluation gives is written.  If there the parts still lead to the location that was read, and to evaluate
them changes nothing, then these are the outcomes with one evaluation only. -/
theorem targets_are_located_twice {s : State} (hs : s.services.operators = .standard) (m : Modifier)
    (c : Context) (p q : Position) (a : Designator) :
    (∀ r, Outcome (fun ev => ev.evaluate c (m.applied p ⟨q, a.form⟩)) s r ↔
      Outcome (fun ev => Exec.located p (m.locatingTwice ev c q a)) s r) ∧
    ((∀ n, m.Steady (Evaluator.within n) c a s) → ∀ r,
      Outcome (fun ev => ev.evaluate c (m.applied p ⟨q, a.form⟩)) s r ↔
        Outcome (fun ev => Exec.located p (m.locatingOnce ev c q a)) s r) := by
  have htwice : ∀ r, Outcome (fun ev => ev.evaluate c (m.applied p ⟨q, a.form⟩)) s r ↔
      Outcome (fun ev => Exec.located p (m.locatingTwice ev c q a)) s r := by
    intro r
    constructor
    · intro h
      -- The first step looks the operator up, and the second one opens the operand.
      refine h.of_extended fun n => ?_
      cases n with
      | zero => exact ⟨0, Evaluator.evaluate_zero_extended _ s _⟩
      | succ n => exact ⟨n, Evaluator.applied_extended n m a hs⟩
    · intro h
      exact h.of_extended fun n => ⟨n + 2, Evaluator.locatingTwice_extended n m a hs⟩
  refine ⟨htwice, fun hsteady r => (htwice r).trans (Outcome.congr fun n => ?_)⟩
  exact Exec.run_located_congr (Modifier.locatingTwice_eq_locatingOnce (hsteady n))

/-- The operation `??= "b"`. -/
def setIfNull : Modifier := .compound (.shortCircuit .orElse) newText

/-- A context in which `this` is an object, and a state with the object. -/
def objectContext : Context := .method ⟨0⟩ Interpreter.root ⟨0⟩ (some (.object ⟨0⟩))

def objectState : State := (Exec.newObject []).after printState

/-- `{p: print("f")}.x ??= "b"` prints twice, and `this.x ??= "b"` is done with one evaluation of `this`. -/
theorem targets_are_located_twice_fresh :
    printState.services.operators = .standard ∧ objectState.services.operators = .standard ∧
    (∃ s', Outcome (fun ev => Exec.located ⟨1, 20⟩
        (setIfNull.locatingTwice ev Interpreter.root ⟨1, 16⟩ (.member freshObject "x"))) printState
          (.ok (.text "b") s') ∧ s'.output = #["f", "f"]) ∧
    ∃ s', Outcome (fun ev => Exec.located ⟨1, 20⟩
        (setIfNull.locatingOnce ev objectContext ⟨1, 16⟩ (.member ⟨⟨1, 11⟩, .this⟩ "x"))) objectState
          (.ok (.text "b") s') ∧ (s'.heap.object ⟨0⟩).contains "x" = true := by
  have hfresh : ∃ s', Outcome (fun ev => ev.evaluate Interpreter.root
      (setIfNull.applied ⟨1, 20⟩ ⟨⟨1, 16⟩, (Designator.member freshObject "x").form⟩)) printState
        (.ok (.text "b") s') ∧ s'.output = #["f", "f"] := Outcome.of_gives 9 (by decide +kernel)
  have hthis : ∃ s', Outcome (fun ev => ev.evaluate objectContext
      (setIfNull.applied ⟨1, 20⟩ ⟨⟨1, 16⟩, (Designator.member ⟨⟨1, 11⟩, .this⟩ "x").form⟩)) objectState
        (.ok (.text "b") s') ∧ (s'.heap.object ⟨0⟩).contains "x" = true :=
    Outcome.of_gives 9 (by decide +kernel)
  obtain ⟨s₁, houtcome₁, hlines⟩ := hfresh
  obtain ⟨s₂, houtcome₂, hset⟩ := hthis
  refine ⟨rfl, rfl, ⟨s₁, ((targets_are_located_twice rfl _ _ _ _ _).1 _).mp houtcome₁, hlines⟩, s₂, ?_, hset⟩
  exact ((targets_are_located_twice rfl _ _ _ _ _).2 (Modifier.steady_member_this rfl · _) _).mp houtcome₂

/-- `{p: print("f")}.x ??= "b"` prints twice, where the operation with one evaluation of the object prints
once.  It reads a member of one object and writes that of another one. -/
theorem fresh_target_is_made_twice :
    (∃ s', Outcome (fun ev => ev.evaluate Interpreter.root
        (setIfNull.applied ⟨1, 20⟩ ⟨⟨1, 16⟩, (Designator.member freshObject "x").form⟩)) printState
          (.ok (.text "b") s') ∧
      s'.output = #["f", "f"] ∧ (s'.heap.object ⟨0⟩).contains "x" = false ∧
        (s'.heap.object ⟨1⟩).contains "x" = true) ∧
    ∃ s', Outcome (fun ev => Exec.located ⟨1, 20⟩
        (setIfNull.locatingOnce ev Interpreter.root ⟨1, 16⟩ (.member freshObject "x"))) printState
          (.ok (.text "b") s') ∧
      s'.output = #["f"] ∧ (s'.heap.object ⟨0⟩).contains "x" = true :=
  ⟨Outcome.of_gives 9 (by decide +kernel), Outcome.of_gives 9 (by decide +kernel)⟩

end ScriptLang
