/-
Running statements is a composed computation.

A list of statements enters its names and labels first.  Blocks, turns of loops and clauses of switches
run in scopes that are new, so their labels stand above the floor of every realm.  Calls and
constructors run statements too; what they do one level deeper is a composed computation.

The loop of a switch over its cases has two phases, which no case takes part in both of: tests are
evaluated until one matches, then bodies run until one ends the switch (`Evaluator.runSwitch_eq`).
-/
import ScriptLang.Proofs.Eval.ValueSteps

namespace ScriptLang

variable {α : Type} {W : Realm} {L : Licence}

/-! ## Places -/

/-- The places at which a form of statements may locate a fault on its own: those of a class. -/
def StmtForm.places : StmtForm → List Position
  | .classDecl decl => decl.places
  | _ => []

/-- Whether a form of statements has no other statements in it. -/
def StmtForm.isSimple : StmtForm → Bool
  | .block _ => false
  | .ifElse _ _ _ => false
  | .whileLoop _ _ => false
  | .doWhile _ _ => false
  | .forLoop _ _ _ _ => false
  | .switch _ _ _ => false
  | _ => true

/-! ## The phases of a switch -/

namespace Evaluator

variable (self : Evaluator) (c : Context)

/-- The first phase: the bodies from the first case on whose test equals a value. -/
def matchingBodies (value : Value) : List (Expr × List Stmt) → Exec (List (List Stmt))
  | [] => return []
  | (test, body) :: rest => do
    let v ← self.evaluate c test
    if v.equals value then return body :: rest.map (·.2)
    else matchingBodies value rest

/-- The second phase: bodies run one after the other until one does not end normally. -/
def runClauses : List (List Stmt) → Exec Flow
  | [] => return .next
  | body :: rest => do
    let block ← Exec.newBlock c .switch
    match BlockFlow.switch.absorb (← self.sequence block body) with
    | .exit flow => return flow
    | .proceed => runClauses rest

variable (value : Value) (default : Option (List Stmt))

lemma runClauses_cons (body : List Stmt) (rest : List (List Stmt)) :
    self.runClauses c (body :: rest) = self.runClause c body >>= fun
      | .exit flow => return flow
      | .proceed => self.runClauses c rest := by
  simp only [runClauses, runClause, bind_assoc, pure_bind]

lemma runCases_nil (matched : Bool) :
    self.runCases c value default matched [] = self.runClauses c default.toList := by
  cases default with
  | none => rfl
  | some body =>
    rw [Option.toList_some, runClauses_cons]
    rfl

/-- Once a case has matched, no further test is evaluated. -/
lemma runCases_true (cases : List (Expr × List Stmt)) :
    self.runCases c value default true cases =
      self.runClauses c (cases.map (·.2) ++ default.toList) := by
  induction cases with
  | nil => exact self.runCases_nil c value default true
  | cons clause rest ih =>
    rw [List.map_cons, List.cons_append, runClauses_cons, ← ih]
    rfl

/-- Until a case matches, no body runs. -/
lemma runCases_false (cases : List (Expr × List Stmt)) :
    self.runCases c value default false cases =
      self.matchingBodies c value cases >>= fun bodies => self.runClauses c (bodies ++ default.toList) := by
  induction cases with
  | nil => exact self.runCases_nil c value default false
  | cons clause rest ih =>
    simp only [matchingBodies, bind_assoc]
    refine bind_congr fun v => ?_
    cases hv : v.equals value with
    | true =>
      rw [if_pos rfl, pure_bind]
      exact self.runCases_true c value default (clause :: rest)
    | false => exact ih

/-- The loop with its flag runs one phase after the other. -/
theorem runSwitch_eq (discriminant : Expr) (cases : List (Expr × List Stmt)) :
    self.runSwitch c discriminant cases default = (do
      let value ← self.evaluate c discriminant
      let bodies ← self.matchingBodies c value cases
      self.runClauses c (bodies ++ default.toList)) :=
  bind_congr fun value => self.runCases_false c value default cases

end Evaluator

namespace Composed

/-! ## What runs no statements -/

section Simple

variable (hL : L.Evaluates)

include hL

lemma declareVariables (c : Context) (declarators : List (String × Option Expr)) :
    Composed W L (fun ev => ev.declareVariables c declarators) fun _ => True := by
  induction declarators with
  | nil => exact .pure trivial
  | cons d rest ih =>
    obtain ⟨name, initializer⟩ := d
    have hrest : ∀ v, Composed W L (fun ev => do
        Exec.declare c name .variable v
        ev.declareVariables c rest) fun _ => True :=
      fun v => .bind (.run (.declare c name .variable v)) fun _ _ => ih
    cases initializer with
    | some e => exact .bind (evaluate hL c e) fun v _ => hrest v
    | none => exact .bind nullValue fun v _ => hrest v

lemma holds (c : Context) (condition : Option Expr) :
    Composed W L (fun ev => ev.holds c condition) fun _ => True := by
  cases condition with
  | none => exact .pure trivial
  | some e => exact .bind (evaluate hL c e) fun _ _ => .pure trivial

lemma matchingBodies (c : Context) (value : Value) (cases : List (Expr × List Stmt)) :
    Composed W L (fun ev => ev.matchingBodies c value cases) fun bodies =>
      ∀ body ∈ bodies, body ∈ cases.map (·.2) := by
  induction cases with
  | nil => exact .pure fun _ h => h
  | cons clause rest ih =>
    refine .bind (evaluate hL c clause.1) fun _ _ => .ite (.pure fun _ h => h) ?_
    exact ih.weaken fun bodies h body hbody => List.mem_cons_of_mem _ (h body hbody)

/-- A form of statements without other statements in it. -/
lemma executeSimple (c : Context) {form : StmtForm} (hform : form.isSimple)
    (hplaces : ∀ p ∈ form.places, L.places p) :
    Composed W L (fun ev => ev.executeForm c form) fun _ => True := by
  cases form with
  | expr e => exact .bind (evaluate hL c e) fun _ _ => .pure trivial
  | «variables» declarators =>
    exact .bind (declareVariables hL c declarators) fun _ _ => .pure trivial
  | function decl =>
    dsimp only [Evaluator.executeForm]
    cases decl.name with
    | none => exact .pure trivial
    | some name =>
      exact .bind (.run (.newFunction _ trivial)) fun f _ =>
        .bind (.run (.declare c name .function f)) fun _ _ => .pure trivial
  | classDecl decl =>
    exact .bind (createClass hL c hplaces) fun id _ =>
      .bind (R := fun _ : Value => True) .read fun v _ =>
        .bind (.run (.declare c decl.name .classDecl v)) fun _ _ => .pure trivial
  | label | empty => exact .pure trivial
  | goto label =>
    exact .bind (R := fun _ : Bool => True) .read fun _ _ => .ite (.pure trivial) (.fail trivial)
  | breakLoop | continueLoop => exact .ite (.pure trivial) (.fail trivial)
  | returnValue value =>
    refine .bind (.get fun _ hs => hs) fun s _ => .ite ?_ (.fail trivial)
    cases value with
    | some e => exact .bind (evaluate hL c e) fun _ _ => .pure trivial
    | none => exact .bind nullValue fun _ _ => .pure trivial
  | block | ifElse | whileLoop | doWhile | forLoop | switch => cases hform

end Simple

/-! ## Lists of statements -/

lemma hoist (s : Stmt) {c : Context} (hc : ∀ name, s.form = .label name → W.floor ≤ c.scope.index) :
    Composed W L (fun _ => s.hoist c) fun _ => True := by
  unfold Stmt.hoist
  cases hform : s.form with
  | «variables» declarators => exact .forM _ fun d _ => .run (.hoist c d.1 .variable)
  | function decl =>
    dsimp only
    cases decl.name with
    | some name => exact .run (.hoist c name .function)
    | none => exact .pure trivial
  | classDecl decl => exact .run (.hoist c decl.name .classDecl)
  | label name => exact .run (.declareLabel c name (hc name hform))
  | _ => exact .pure trivial

lemma hoistAll {c : Context} (hc : W.floor ≤ c.scope.index) {body : List Stmt}
    (hplaces : ∀ s ∈ body, L.places s.place) :
    Composed W L (fun _ => hoistAll c body) fun _ => True :=
  .forM _ fun s hs => .located (hplaces s hs) (hoist s fun _ _ => hc)

variable (hL : ∀ t, L.tasks t)

include hL

lemma execute (c : Context) (s : Stmt) : Composed W L (fun ev => ev.execute c s) fun _ => True :=
  .ask (t := .execute c s) (hL _) trivial fun _ => trivial

lemma sequence {c : Context} (hc : W.floor ≤ c.scope.index) (body : List Stmt) :
    Composed W L (fun ev => ev.sequence c body) fun _ => True :=
  .ask (t := .sequence c body) (hL _) hc fun _ => trivial

/-- A list of statements that is run in a new block. -/
lemma inBlock (c : Context) (flow : BlockFlow) (body : List Stmt) :
    Composed W L (fun ev => do
      let block ← Exec.newBlock c flow
      ev.sequence block body) fun _ => True := by
  refine .bind (newBlock c flow) fun block hblock => ?_
  obtain ⟨scope, rfl, hscope⟩ := hblock
  exact sequence hL hscope body

lemma runFrom (c : Context) (body : List Stmt) (bound : Nat) (rest : List Stmt) :
    Composed W L (fun ev => ev.runFrom c body bound rest) fun _ => True := by
  induction bound generalizing rest with
  | zero =>
    cases rest with
    | nil => exact .pure trivial
    | cons => exact .exhausted
  | succ bound ih =>
    cases rest with
    | nil => exact .pure trivial
    | cons s rest =>
      refine .bind (.run .checkCancelled) fun _ _ => .bind (execute hL c s) fun flow _ => ?_
      cases flow with
      | next => exact ih rest
      | jumps label =>
        dsimp only
        cases fromLabel? label body with
        | some target => exact ih target
        | none => exact .pure trivial
      | breaks | continues | returns => exact .pure trivial

lemma runSequence {c : Context} (hc : W.floor ≤ c.scope.index) {body : List Stmt}
    (hplaces : ∀ s ∈ body, L.places s.place) :
    Composed W L (fun ev => ev.runSequence c body) fun _ => True :=
  .bind (hoistAll hc hplaces) fun _ _ => .bounded fun bound => runFrom hL c body bound body

lemma runBody (c : Context) (body : List Stmt) :
    Composed W L (fun ev => ev.runBody c body) fun _ => True :=
  inBlock hL c .plain body

/-! ## Loops and switches -/

lemma turn (c : Context) (body : Stmt) :
    Composed W L (fun ev => ev.turn c body) fun _ => True := by
  refine .bind (.run .checkCancelled) fun _ _ => .bind (newBlock c .loop) fun block hblock => ?_
  obtain ⟨scope, rfl, hscope⟩ := hblock
  dsimp only
  cases body.form with
  | block statements => exact .bind (sequence hL hscope statements) fun _ _ => .pure trivial
  | _ => exact .bind (execute hL _ body) fun _ _ => .pure trivial

lemma runWhile (c : Context) (condition : Expr) (body : Stmt) (bound : Nat) :
    Composed W L (fun ev => ev.runWhile c condition body bound) fun _ => True := by
  induction bound with
  | zero => exact .exhausted
  | succ bound ih =>
    refine .bind (evaluate (fun t _ => hL t) c condition) fun v _ => .ite ?_ (.pure trivial)
    refine .bind (turn hL c body) fun absorbed _ => ?_
    cases absorbed with
    | proceed => exact ih
    | exit flow => exact .pure trivial

lemma runDoWhile (c : Context) (body : Stmt) (condition : Expr) (bound : Nat) :
    Composed W L (fun ev => ev.runDoWhile c body condition bound) fun _ => True := by
  induction bound with
  | zero => exact .exhausted
  | succ bound ih =>
    refine .bind (turn hL c body) fun absorbed _ => ?_
    cases absorbed with
    | exit flow => exact .pure trivial
    | proceed =>
      exact .bind (evaluate (fun t _ => hL t) c condition) fun _ _ => .ite ih (.pure trivial)

lemma runFor (c : Context) (condition : Option Expr) (increment : List Expr) (body : Stmt)
    (bound : Nat) :
    Composed W L (fun ev => ev.runFor c condition increment body bound) fun _ => True := by
  induction bound with
  | zero => exact .exhausted
  | succ bound ih =>
    refine .bind (holds (fun t _ => hL t) c condition) fun v _ => .ite ?_ (.pure trivial)
    refine .bind (turn hL c body) fun absorbed _ => ?_
    cases absorbed with
    | exit flow => exact .pure trivial
    | proceed => exact .bind (evaluateAll (fun t _ => hL t) c increment) fun _ _ => ih

lemma runClauses (c : Context) (bodies : List (List Stmt)) :
    Composed W L (fun ev => ev.runClauses c bodies) fun _ => True := by
  induction bodies with
  | nil => exact .pure trivial
  | cons body rest ih =>
    refine .bind (newBlock c .switch) fun block hblock => ?_
    obtain ⟨scope, rfl, hscope⟩ := hblock
    refine .bind (sequence hL hscope body) fun flow _ => ?_
    cases BlockFlow.switch.absorb flow with
    | proceed => exact ih
    | exit flow => exact .pure trivial

lemma runSwitch (c : Context) (discriminant : Expr) (cases : List (Expr × List Stmt))
    (default : Option (List Stmt)) :
    Composed W L (fun ev => ev.runSwitch c discriminant cases default) fun _ => True := by
  simp only [Evaluator.runSwitch_eq]
  exact .bind (evaluate (fun t _ => hL t) c discriminant) fun value _ =>
    .bind (matchingBodies (fun t _ => hL t) c value cases) fun _ _ => runClauses hL c _

/-! ## Statements -/

lemma executeForm (c : Context) (form : StmtForm) (hplaces : ∀ p ∈ form.places, L.places p) :
    Composed W L (fun ev => ev.executeForm c form) fun _ => True := by
  have hvalues : L.Evaluates := fun t _ => hL t
  cases form with
  | block body => exact inBlock hL c .plain body
  | ifElse condition onTrue onFalse =>
    refine .bind (evaluate hvalues c condition) fun v _ => .ite (execute hL c onTrue) ?_
    cases onFalse with
    | some s => exact execute hL c s
    | none => exact .pure trivial
  | whileLoop condition body => exact .bounded fun bound => runWhile hL c condition body bound
  | doWhile body condition => exact .bounded fun bound => runDoWhile hL c body condition bound
  | forLoop init condition increment body =>
    refine .bind (newBlock c .plain) fun block hblock => ?_
    obtain ⟨scope, rfl, hscope⟩ := hblock
    refine .bind (sequence hL hscope init) fun flow _ => ?_
    cases flow with
    | next => exact .bounded fun bound => runFor hL _ condition increment body bound
    | breaks | continues | returns | jumps => exact .pure trivial
  | switch discriminant cases default => exact runSwitch hL c discriminant cases default
  | _ => exact executeSimple hvalues c rfl hplaces

/-! ## Calls and constructors -/

lemma runIn (c : Context) (decl : FunctionDecl) (args : List Value) :
    Composed W L (fun ev => ev.runIn c decl args) fun _ => True := by
  refine .bind (bindParameters (fun t _ => hL t) c decl args) fun _ _ => ?_
  refine .bind (runBody hL c decl.body) fun flow _ => ?_
  cases flow with
  | returns value => exact .pure trivial
  | jumps label => exact .fail trivial
  | next | breaks | continues => exact nullValue

omit hL in
lemma place_of_splitSuperCall {body : List Stmt} {call : List Expr × Position}
    (h : call ∈ (Evaluator.splitSuperCall body).1) :
    ∃ s, body.head? = some s ∧ s.superCall? = some call.1 ∧ s.place = call.2 := by
  cases body with
  | nil => cases h
  | cons s rest =>
    simp only [Evaluator.splitSuperCall] at h
    split at h
    · next arguments hs =>
      cases h
      exact ⟨s, rfl, hs, rfl⟩
    · cases h

lemma constructIn (c context : Context) (cls : Class) (constructor : Option FunctionDecl)
    (i : InstanceId) (args : List Value)
    (hplace : ∀ decl ∈ constructor, ∀ s ∈ decl.body.head?, s.superCall?.isSome → L.places s.place) :
    Composed W L (fun ev => ev.constructIn c context cls constructor i args) fun _ => True := by
  have hvalues : L.Evaluates := fun t _ => hL t
  refine .bind (bindConstructor hvalues context cls constructor args) fun body hbody => ?_
  have hcall : ∀ call ∈ (Evaluator.splitSuperCall body).1, L.places call.2 := by
    intro call hmem
    obtain ⟨s, hhead, hsuper, hp⟩ := place_of_splitSuperCall hmem
    rw [← hp]
    cases constructor with
    | none =>
      subst hbody
      cases hhead
    | some decl =>
      subst hbody
      exact hplace decl rfl s hhead (by simp [hsuper])
  refine .bind (setUpParent hvalues c context cls i hcall) fun _ _ => ?_
  refine .bind (setUpFields hvalues context i _) fun _ _ => ?_
  refine .bind (runBody hL context _) fun flow _ => ?_
  cases flow with
  | jumps label => exact .fail trivial
  | next | breaks | continues | returns => exact .pure trivial

lemma setUpScript (c : Context) (id : ClassId) (cls : Class) (closure : Context)
    (constructor : Option FunctionDecl) (i : InstanceId) (args : List Value)
    (hplace : ∀ decl ∈ constructor, ∀ s ∈ decl.body.head?, s.superCall?.isSome → L.places s.place) :
    Composed W L (fun ev => ev.setUpScript c id cls closure constructor i args) fun _ => True :=
  .bind (newMethodContext closure id _) fun context _ =>
    constructIn hL c context cls constructor i args hplace

end Composed

end ScriptLang
