/-
How statements stand inside of one another.

A statement or a list of statements (`Piece`) leads to others that stand inside of it: as members of a
list, in branches, in turns of a loop, in clauses of a switch (`Encloses`).  When the inner piece ends
in another way than with the next statement, the outer one takes this up or hands it on
(`Piece.answer`).  All the functions that run statements inside of a statement have one shape
(`Flowing`), from which follows

* what becomes of the way in which an inner piece ended (`Flowing.handles`);
* from where the way in which a piece ends comes (`Flowing.origin`).
-/
import ScriptLang.Proofs.Eval.Labels

namespace ScriptLang

/-- A piece of a script that runs statements: one statement, or a list of them. -/
inductive Piece where
  | statement (c : Context) (st : Stmt)
  | list (c : Context) (body : List Stmt)

namespace Piece

/-- The context of a piece. -/
def context : Piece → Context
  | .statement c _ => c
  | .list c _ => c

/-- The task of running a piece. -/
def task : Piece → Task
  | .statement c st => .execute c st
  | .list c body => .sequence c body

/-- The statements that a piece runs one after the other in its own context. -/
def body : Piece → List Stmt
  | .statement _ _ => []
  | .list _ body => body

/-- Whether a piece is a list with a label. -/
def hasLabel (label : String) (p : Piece) : Bool := (fromLabel? label p.body).isSome

/-- What one turn of a loop runs. -/
def ofTurn (block : Context) (body : Stmt) : Piece :=
  match body.form with
  | .block statements => .list block statements
  | _ => .statement block body

/-- Whether a piece takes up how a piece of the given kind inside of it ended: loops and switches take
up breaks, loops take up continues, and a list takes up the jumps to its labels. -/
def takes (outer : Piece) (kind : BlockFlow) : Flow → Bool
  | .breaks => kind.permitsBreak
  | .continues => kind.permitsContinue
  | .jumps label => outer.hasLabel label
  | _ => false

/-- What a piece makes of how a piece of the given kind inside of it ended. -/
def answer (outer : Piece) (kind : BlockFlow) : Flow → Absorbed
  | .jumps label => if outer.hasLabel label then .proceed else .exit (.jumps label)
  | f => kind.absorb f

/-- What is not taken up is handed on. -/
lemma answer_of_not_takes {outer : Piece} {kind : BlockFlow} {f : Flow} (hf : f ≠ .next)
    (h : outer.takes kind f = false) : outer.answer kind f = .exit f := by
  cases f with
  | next => exact absurd rfl hf
  | breaks | continues => cases kind <;> first | rfl | cases h
  | returns value => cases kind <;> rfl
  | jumps label => simpa [answer, takes] using h

/-- What a piece ends with, apart from the next statement, is how a piece inside of it ended. -/
lemma eq_of_answer_exit {outer : Piece} {kind : BlockFlow} {f g : Flow}
    (h : outer.answer kind f = .exit g) (hg : g ≠ .next) : g = f := by
  cases f with
  | jumps label =>
    simp only [answer] at h
    split at h
    · cases h
    · cases h
      rfl
  | next | breaks | continues | returns =>
    cases kind <;> cases h <;> first | rfl | exact absurd rfl hg

/-- A statement does what a construct of its kind does. -/
lemma answer_statement (c : Context) (st : Stmt) (kind : BlockFlow) (f : Flow) :
    (statement c st).answer kind f = kind.absorb f := by
  cases f with
  | jumps label => cases kind <;> rfl
  | next | breaks | continues | returns => rfl

lemma answer_list_of_some {c : Context} {body target : List Stmt} {label : String}
    (h : fromLabel? label body = some target) (kind : BlockFlow) :
    (list c body).answer kind (.jumps label) = .proceed := by
  have hlabel : (list c body).hasLabel label = true := congrArg Option.isSome h
  simp only [answer, hlabel, if_true]

lemma answer_list_of_none {c : Context} {body : List Stmt} {label : String}
    (h : fromLabel? label body = none) (kind : BlockFlow) :
    (list c body).answer kind (.jumps label) = .exit (.jumps label) := by
  have hlabel : (list c body).hasLabel label = false := congrArg Option.isSome h
  simp only [answer, hlabel, Bool.false_eq_true, if_false]

lemma task_injective {p q : Piece} (h : p.task = q.task) : p = q := by
  cases p <;> cases q <;> cases h <;> rfl

lemma isFlow_task (p : Piece) : p.task.isFlow = true := by
  cases p <;> rfl

lemma exists_of_isFlow {t : Task} (h : t.isFlow = true) : ∃ p : Piece, t = p.task := by
  cases t with
  | execute c st => exact ⟨.statement c st, rfl⟩
  | sequence c body => exact ⟨.list c body, rfl⟩
  | _ => cases h

end Piece

namespace Evaluator

/-- Runs a piece. -/
def flow (self : Evaluator) : Piece → Exec Flow
  | .statement c st => self.execute c st
  | .list c body => self.sequence c body

variable {self : Evaluator} {p : Piece} {t : Task} {s s' : State}

lemma asks_flow (h : self.Asks (fun ev => ev.flow p) s t s') : t = p.task ∧ s' = s := by
  cases p <;> exact asks_perform h

lemma asks_flow_self : self.Asks (fun ev => ev.flow p) s p.task s := by
  cases p <;> exact asks_perform_self

end Evaluator

/-! ## Inside of one another -/

/-- The piece `outer` leads to `inner`, which stands inside of it as part of a construct of the given
kind. -/
inductive Encloses : (kind : BlockFlow) → (outer inner : Piece) → Prop
  | member {c : Context} {body : List Stmt} {st : Stmt} (h : st ∈ body) :
      Encloses .plain (.list c body) (.statement c st)
  | block {c : Context} {p : Position} {body : List Stmt} (scope : ScopeId) :
      Encloses .plain (.statement c ⟨p, .block body⟩) (.list (.block scope .plain c) body)
  | onTrue {c : Context} {p : Position} {condition : Expr} {onTrue : Stmt} {onFalse : Option Stmt} :
      Encloses .plain (.statement c ⟨p, .ifElse condition onTrue onFalse⟩) (.statement c onTrue)
  | onFalse {c : Context} {p : Position} {condition : Expr} {onTrue st : Stmt} :
      Encloses .plain (.statement c ⟨p, .ifElse condition onTrue (some st)⟩) (.statement c st)
  | init {c : Context} {p : Position} {init : List Stmt} {condition : Option Expr}
      {increment : List Expr} {body : Stmt} (scope : ScopeId) :
      Encloses .plain (.statement c ⟨p, .forLoop init condition increment body⟩)
        (.list (.block scope .plain c) init)
  | whileTurn {c : Context} {p : Position} {condition : Expr} {body : Stmt} (scope : ScopeId) :
      Encloses .loop (.statement c ⟨p, .whileLoop condition body⟩)
        (.ofTurn (.block scope .loop c) body)
  | doTurn {c : Context} {p : Position} {body : Stmt} {condition : Expr} (scope : ScopeId) :
      Encloses .loop (.statement c ⟨p, .doWhile body condition⟩)
        (.ofTurn (.block scope .loop c) body)
  | forTurn {c : Context} {p : Position} {init : List Stmt} {condition : Option Expr}
      {increment : List Expr} {body : Stmt} (outer scope : ScopeId) :
      Encloses .loop (.statement c ⟨p, .forLoop init condition increment body⟩)
        (.ofTurn (.block scope .loop (.block outer .plain c)) body)
  | clause {c : Context} {p : Position} {discriminant : Expr} {cases : List (Expr × List Stmt)}
      {default : Option (List Stmt)} {body : List Stmt} (scope : ScopeId)
      (h : body ∈ cases.map (·.2) ++ default.toList) :
      Encloses .switch (.statement c ⟨p, .switch discriminant cases default⟩)
        (.list (.block scope .switch c) body)

/-- What is left to do of a piece that has taken up how a piece inside of it ended. -/
inductive Piece.Rest : Piece → Flow → (Evaluator → Exec Flow) → Prop
  /-- A list goes on at the label. -/
  | landing {c : Context} {body target : List Stmt} {label : String} (bound : Nat)
      (h : fromLabel? label body = some target) :
      Rest (.list c body) (.jumps label) fun ev => ev.runFrom c body bound target
  /-- A loop goes on after the turn. -/
  | whileLoop {c : Context} {p : Position} {condition : Expr} {body : Stmt} (bound : Nat) :
      Rest (.statement c ⟨p, .whileLoop condition body⟩) .continues fun ev =>
        ev.runWhile c condition body bound
  | doWhile {c : Context} {p : Position} {body : Stmt} {condition : Expr} (bound : Nat) :
      Rest (.statement c ⟨p, .doWhile body condition⟩) .continues fun ev => do
        let v ← ev.evaluate c condition
        if v.isTruthy then ev.runDoWhile c body condition bound else return .next
  | forLoop {c : Context} {p : Position} {init : List Stmt} {condition : Option Expr}
      {increment : List Expr} {body : Stmt} (scope : ScopeId) (bound : Nat) :
      Rest (.statement c ⟨p, .forLoop init condition increment body⟩) .continues fun ev => do
        let _ ← ev.evaluateAll (.block scope .plain c) increment
        ev.runFor (.block scope .plain c) condition increment body bound

/-- Whether a piece is a for-loop with a label in its first part. -/
def Piece.startsWithLabel (label : String) : Piece → Bool
  | .statement _ ⟨_, .forLoop init _ _ _⟩ => (fromLabel? label init).isSome
  | _ => false

/-- Whether a piece declares a label in a scope that the pieces inside of it see: a list declares its
own labels, and a for-loop those of its first part. -/
def Piece.declares (label : String) (p : Piece) : Bool := p.hasLabel label || p.startsWithLabel label

/-- How a list goes on after a statement. -/
def Evaluator.goOn (self : Evaluator) (c : Context) (body : List Stmt) (bound : Nat)
    (rest : List Stmt) : Flow → Exec Flow
  | .next => self.runFrom c body bound rest
  | .jumps label =>
    match fromLabel? label body with
    | some target => self.runFrom c body bound target
    | none => pure (.jumps label)
  | flow => pure flow

/-! ## The shape of what runs statements -/

/-- A licence to ask for every task that runs no statements, and for no other. -/
def Licence.values : Licence := { Licence.full with tasks := fun t => t.isFlow = false }

lemma Licence.values_evaluates : Licence.values.Evaluates := fun _ h => h

/-- In which context it goes on after a piece: in the same one, if its labels may be seen there, or in
the one around its block. -/
inductive Piece.Leaves (p outer : Piece) : Context → Prop
  | stay (h : ∀ label, p.hasLabel label → outer.declares label) : Leaves p outer p.context
  | close {scope : ScopeId} {flow : BlockFlow} {c : Context}
      (h : p.context = .block scope flow c) : Leaves p outer c

/-- Computations in a context that run pieces inside of `outer`, one after the other, and compute with
values in between. -/
inductive Flowing (outer : Piece) : Context → (Evaluator → Exec Flow) → Prop
  | done {c : Context} : Flowing outer c fun _ => pure .next
  | exhausted {c : Context} : Flowing outer c fun _ => throw .exhausted
  | value {c : Context} {α : Type} {R : α → Prop} {m : Evaluator → Exec α}
      {k : α → Evaluator → Exec Flow} (hm : ∀ floor, Composed (.above floor) .values m R)
      (hk : ∀ a, R a → Flowing outer c (k a)) : Flowing outer c fun ev => m ev >>= fun a => k a ev
  | opens {c : Context} (flow : BlockFlow) {k : Context → Evaluator → Exec Flow}
      (hk : ∀ scope, Flowing outer (.block scope flow c) (k (.block scope flow c))) :
      Flowing outer c fun ev => Exec.newBlock c flow >>= fun block => k block ev
  | piece {c c' : Context} {kind : BlockFlow} {p : Piece} {k : Flow → Evaluator → Exec Flow}
      (hc : p.context = c) (henc : Encloses kind outer p)
      (hexit : ∀ f g, outer.answer kind f = .exit g → k f = fun _ => pure g)
      (hrest : ∀ f, f ≠ .next → outer.answer kind f = .proceed → outer.Rest f (k f))
      (hleave : p.Leaves outer c')
      (hgo : ∀ f, outer.answer kind f = .proceed → Flowing outer c' (k f)) :
      Flowing outer c fun ev => ev.flow p >>= fun f => k f ev
  | bounded {c : Context} {m : Nat → Evaluator → Exec Flow} (hm : ∀ b, Flowing outer c (m b)) :
      Flowing outer c fun ev => m ev.bound ev

namespace Flowing

variable {outer : Piece} {c : Context}

lemma ite {p : Prop} [Decidable p] {m m' : Evaluator → Exec Flow} (h : Flowing outer c m)
    (h' : Flowing outer c m') : Flowing outer c fun ev => if p then m ev else m' ev := by
  by_cases hp : p
  · simpa only [if_pos hp] using h
  · simpa only [if_neg hp] using h'

/-- A piece of a statement, which ends there or goes on with `k`. -/
lemma absorbing {c₀ c' : Context} {st : Stmt} {kind : BlockFlow} {p : Piece}
    {k : Evaluator → Exec Flow} (hc : p.context = c) (henc : Encloses kind (.statement c₀ st) p)
    (hleave : p.Leaves (.statement c₀ st) c')
    (hrest : kind = .loop → (Piece.statement c₀ st).Rest .continues k)
    (hk : Flowing (.statement c₀ st) c' k) :
    Flowing (.statement c₀ st) c fun ev => ev.flow p >>= fun f =>
      match kind.absorb f with
      | .exit g => pure g
      | .proceed => k ev := by
  refine .piece hc henc (k := fun f ev =>
    match kind.absorb f with
    | .exit g => pure g
    | .proceed => k ev) ?_ ?_ hleave ?_
  · intro f g hf
    rw [Piece.answer_statement] at hf
    simp only [hf]
  · intro f hne hf
    rw [Piece.answer_statement] at hf
    simp only [hf]
    -- Apart from the next statement only a loop goes on, and only after a continue.
    cases f with
    | next => exact absurd rfl hne
    | continues =>
      cases kind with
      | loop => exact hrest rfl
      | plain | switch => cases hf
    | breaks | returns | jumps => cases kind <;> cases hf
  · intro f hf
    rw [Piece.answer_statement] at hf
    simpa only [hf] using hk

/-- A piece as the last thing that a statement does. -/
lemma last {c₀ c' : Context} {st : Stmt} {p : Piece} (hc : p.context = c)
    (henc : Encloses .plain (.statement c₀ st) p) (hleave : p.Leaves (.statement c₀ st) c') :
    Flowing (.statement c₀ st) c fun ev => ev.flow p := by
  have hflow := absorbing (k := fun _ => pure .next) hc henc hleave nofun .done
  have heq : ∀ f : Flow, (match BlockFlow.plain.absorb f with
      | .exit g => pure g
      | .proceed => pure .next : Exec Flow) = pure f := by
    intro f
    cases f <;> rfl
  simpa only [heq, bind_pure] using hflow

/-! ## Lists -/

lemma runFrom (c : Context) (body : List Stmt) (bound : Nat) {rest : List Stmt}
    (hrest : ∀ st ∈ rest, st ∈ body) :
    Flowing (.list c body) c fun ev => ev.runFrom c body bound rest := by
  induction bound generalizing rest with
  | zero =>
    cases rest with
    | nil => exact .done
    | cons => exact .exhausted
  | succ bound ih =>
    cases rest with
    | nil => exact .done
    | cons st rest =>
      have hmem : ∀ st ∈ rest, st ∈ body := fun st' hst' => hrest st' (List.mem_cons_of_mem st hst')
      refine .value (R := fun _ => True) (fun _ => .run .checkCancelled) fun _ _ => ?_
      refine .piece (p := .statement c st) rfl (.member (hrest st List.mem_cons_self))
        (k := fun f ev => ev.goOn c body bound rest f) ?_ ?_
        (.stay fun _ h => absurd h Bool.false_ne_true) ?_
      · intro f g hf
        cases f with
        | next => cases hf
        | jumps label =>
          cases hlabel : fromLabel? label body with
          | some target =>
            rw [Piece.answer_list_of_some hlabel] at hf
            cases hf
          | none =>
            rw [Piece.answer_list_of_none hlabel] at hf
            cases hf
            simp only [Evaluator.goOn, hlabel]
        | breaks | continues | returns =>
          cases hf
          rfl
      · intro f hne hf
        cases f with
        | next => exact absurd rfl hne
        | jumps label =>
          cases hlabel : fromLabel? label body with
          | some target =>
            simp only [Evaluator.goOn, hlabel]
            exact .landing bound hlabel
          | none =>
            rw [Piece.answer_list_of_none hlabel] at hf
            cases hf
        | breaks | continues | returns => cases hf
      · intro f hf
        cases f with
        | next => exact ih hmem
        | jumps label =>
          cases hlabel : fromLabel? label body with
          | some target =>
            simp only [Evaluator.goOn, hlabel]
            obtain ⟨_, _, before, -, -, hbody⟩ := form_of_fromLabel? hlabel
            refine ih fun st' hst' => ?_
            rw [hbody]
            exact List.mem_append_right before hst'
          | none =>
            rw [Piece.answer_list_of_none hlabel] at hf
            cases hf
        | breaks | continues | returns => cases hf

/-! ## Statements -/

lemma context_ofTurn (block : Context) (body : Stmt) : (Piece.ofTurn block body).context = block := by
  unfold Piece.ofTurn
  split <;> rfl

/-- A turn of a loop, with what the loop makes of it. -/
lemma turn_bind (ev : Evaluator) (c : Context) (body : Stmt) (k : Absorbed → Exec Flow) :
    (ev.turn c body >>= k) = (Exec.checkCancelled >>= fun _ => Exec.newBlock c .loop >>= fun block =>
      ev.flow (.ofTurn block body) >>= fun f => k (BlockFlow.loop.absorb f)) := by
  have hpiece : ∀ block, ev.flow (.ofTurn block body) = (match body.form with
      | .block statements => ev.sequence block statements
      | _ => ev.execute block body) := by
    intro block
    unfold Piece.ofTurn
    split <;> rfl
  simp only [hpiece, Evaluator.turn]
  cases body.form <;> simp only [bind_assoc, pure_bind]

/-- A turn of a loop, after which the loop ends or goes on with `k`. -/
lemma turn {c₀ : Context} {st body : Stmt} {k : Evaluator → Exec Flow}
    (henc : ∀ scope, Encloses .loop (.statement c₀ st) (.ofTurn (.block scope .loop c) body))
    (hrest : (Piece.statement c₀ st).Rest .continues k) (hk : Flowing (.statement c₀ st) c k) :
    Flowing (.statement c₀ st) c fun ev => ev.turn c body >>= fun absorbed =>
      match absorbed with
      | .exit g => pure g
      | .proceed => k ev := by
  simp only [turn_bind]
  refine .value (R := fun _ => True) (fun _ => .run .checkCancelled) fun _ _ => ?_
  refine .opens .loop fun scope => ?_
  have hcontext := context_ofTurn (.block scope .loop c) body
  exact absorbing hcontext (henc scope) (.close hcontext) (fun _ => hrest) hk

lemma evaluate (c : Context) (e : Expr) (floor : Nat) :
    Composed (.above floor) .values (fun ev => ev.evaluate c e) fun _ => True :=
  .evaluate Licence.values_evaluates c e

lemma runWhile {c : Context} {p : Position} (condition : Expr) (body : Stmt) (bound : Nat) :
    Flowing (.statement c ⟨p, .whileLoop condition body⟩) c fun ev =>
      ev.runWhile c condition body bound := by
  induction bound with
  | zero => exact .exhausted
  | succ bound ih =>
    refine .value (evaluate c condition) fun v _ => .ite ?_ .done
    exact turn (fun scope => .whileTurn scope) (.whileLoop bound) ih

lemma runDoWhile {c : Context} {p : Position} (body : Stmt) (condition : Expr) (bound : Nat) :
    Flowing (.statement c ⟨p, .doWhile body condition⟩) c fun ev =>
      ev.runDoWhile c body condition bound := by
  induction bound with
  | zero => exact .exhausted
  | succ bound ih =>
    refine turn (fun scope => .doTurn scope) (.doWhile bound) ?_
    exact .value (evaluate c condition) fun v _ => .ite ih .done

lemma runFor {c : Context} {p : Position} {init : List Stmt} (scope : ScopeId)
    (condition : Option Expr) (increment : List Expr) (body : Stmt) (bound : Nat) :
    Flowing (.statement c ⟨p, .forLoop init condition increment body⟩) (.block scope .plain c) fun ev =>
      ev.runFor (.block scope .plain c) condition increment body bound := by
  induction bound with
  | zero => exact .exhausted
  | succ bound ih =>
    refine .value (fun _ => .holds Licence.values_evaluates _ condition) fun v _ => .ite ?_ .done
    refine turn (fun inner => .forTurn scope inner) (.forLoop scope bound) ?_
    exact .value (fun _ => .evaluateAll Licence.values_evaluates _ increment) fun _ _ => ih

lemma runClauses {c : Context} {p : Position} {discriminant : Expr}
    {cases : List (Expr × List Stmt)} {default : Option (List Stmt)} {bodies : List (List Stmt)}
    (h : ∀ body ∈ bodies, body ∈ cases.map (·.2) ++ default.toList) :
    Flowing (.statement c ⟨p, .switch discriminant cases default⟩) c fun ev =>
      ev.runClauses c bodies := by
  induction bodies with
  | nil => exact .done
  | cons body rest ih =>
    refine .opens .switch fun scope => ?_
    refine absorbing (p := .list (.block scope .switch c) body) rfl
      (.clause scope (h body List.mem_cons_self)) (.close rfl) nofun ?_
    exact ih fun body' hbody' => h body' (List.mem_cons_of_mem body hbody')

lemma runSwitch {c : Context} {p : Position} (discriminant : Expr) (cases : List (Expr × List Stmt))
    (default : Option (List Stmt)) :
    Flowing (.statement c ⟨p, .switch discriminant cases default⟩) c fun ev =>
      ev.runSwitch c discriminant cases default := by
  simp only [Evaluator.runSwitch_eq]
  refine .value (evaluate c discriminant) fun value _ => ?_
  refine .value (fun _ => .matchingBodies Licence.values_evaluates c value cases) ?_
  intro bodies hbodies
  refine runClauses fun body hbody => ?_
  rcases List.mem_append.mp hbody with hbody | hbody
  · exact List.mem_append_left _ (hbodies body hbody)
  · exact List.mem_append_right _ hbody

/-- Every form of statements with other statements in it runs them one after the other. -/
theorem executeForm {c : Context} {st : Stmt} (h : st.form.isSimple = false) :
    Flowing (.statement c st) c fun ev => ev.executeForm c st.form := by
  obtain ⟨p, form⟩ := st
  cases form with
  | block body => exact .opens .plain fun scope => last rfl (.block scope) (.close rfl)
  | ifElse condition onTrue onFalse =>
    refine .value (evaluate c condition) fun v _ => .ite ?_ ?_
    · exact last (p := .statement c onTrue) rfl .onTrue (.stay fun _ h => absurd h Bool.false_ne_true)
    · cases onFalse with
      | none => exact .done
      | some st =>
        exact last (p := .statement c st) rfl .onFalse (.stay fun _ h => absurd h Bool.false_ne_true)
  | whileLoop condition body => exact .bounded fun bound => runWhile condition body bound
  | doWhile body condition => exact .bounded fun bound => runDoWhile body condition bound
  | forLoop init condition increment body =>
    refine .opens .plain fun scope => ?_
    have hloop : Flowing (.statement c ⟨p, .forLoop init condition increment body⟩)
        (.block scope .plain c) fun ev =>
          ev.runFor (.block scope .plain c) condition increment body ev.bound :=
      .bounded fun bound => runFor scope condition increment body bound
    have hrun := absorbing (p := .list (.block scope .plain c) init) rfl (.init scope)
      (.stay fun _ h => h) nofun hloop
    refine cast (congrArg (Flowing _ _) (funext fun ev => congrArg _ (funext fun f => ?_))) hrun
    cases f <;> rfl
  | switch discriminant cases default => exact runSwitch discriminant cases default
  | _ => cases h

end Flowing

/-! ## What becomes of an inner piece -/

/-- What a computation makes of a piece for which it asks: it ends with the answer, or it goes on with
what is left to do. -/
structure Handles (outer : Piece) (kind : BlockFlow) (ev : Evaluator) (m : Evaluator → Exec Flow)
    (s : State) (p : Piece) (s' : State) : Prop where
  encloses : Encloses kind outer p
  exits : ∀ f g s₁, (ev.flow p).run s' = .ok f s₁ → outer.answer kind f = .exit g →
    (m ev).run s = .ok g s₁
  proceeds : ∀ f s₁, (ev.flow p).run s' = .ok f s₁ → f ≠ .next → outer.answer kind f = .proceed →
    ∃ r, outer.Rest f r ∧ (m ev).run s = (r ev).run s₁

lemma Handles.of_run_eq {outer : Piece} {kind : BlockFlow} {ev : Evaluator}
    {m m' : Evaluator → Exec Flow} {s s₀ s' : State} {p : Piece}
    (h : Handles outer kind ev m s p s') (heq : (m' ev).run s₀ = (m ev).run s) :
    Handles outer kind ev m' s₀ p s' := by
  refine ⟨h.encloses, fun f g s₁ hr hexit => heq.trans (h.exits f g s₁ hr hexit), ?_⟩
  intro f s₁ hr hne hgo
  obtain ⟨r, hrest, hrun⟩ := h.proceeds f s₁ hr hne hgo
  exact ⟨r, hrest, heq.trans hrun⟩

namespace Flowing

variable {outer p : Piece} {c : Context} {m : Evaluator → Exec Flow} {self : Evaluator}
  {s s' s₁ : State} {f : Flow}

/-- A computation with values asks for no piece. -/
lemma not_asks_value {α : Type} {R : α → Prop} {x : Evaluator → Exec α} {floor : Nat}
    (hx : Composed (.above floor) .values x R) (hself : self.Keeps (.above floor))
    (hs : floor ≤ s.scopes.size) : ¬self.Asks x s p.task s' := by
  intro ha
  have hlicensed : p.task.isFlow = false := (hx.asked hself (Realm.admits_above hs) ha).licensed
  rw [p.isFlow_task] at hlicensed
  cases hlicensed

/-- What a computation that runs pieces makes of them. -/
theorem handles (h : Flowing outer c m) (hself : self.Keeps .whole) (ha : self.Asks m s p.task s') :
    ∃ kind, Handles outer kind self m s p s' := by
  -- The piece for which it asks is the next one, or one for which what comes after asks.
  induction h generalizing s with
  | done | exhausted => exact absurd ha (Evaluator.not_asks_const _)
  | value hm _ ih =>
    rcases Evaluator.asks_bind ha with ha | ⟨a, s₁, hr, ha⟩
    · exact absurd ha (not_asks_value (hm 0) hself (Nat.zero_le _))
    · have hleft := (hm 0).left hself (Realm.admits_whole s)
      rw [hr] at hleft
      obtain ⟨kind, hhandles⟩ := ih a hleft.2 ha
      exact ⟨kind, hhandles.of_run_eq (run_bind_ok hr)⟩
  | opens flow _ ih =>
    rcases Evaluator.asks_bind ha with ha | ⟨block, s₁, hr, ha⟩
    · exact absurd ha (Evaluator.not_asks_const _)
    · have hrun := hr
      cases hr
      obtain ⟨kind, hhandles⟩ := ih _ ha
      exact ⟨kind, hhandles.of_run_eq (run_bind_ok hrun)⟩
  | @piece _ _ kind q handle _ henc hexit hrest _ _ ih =>
    rcases Evaluator.asks_bind ha with ha | ⟨f, s₁, hr, ha⟩
    · obtain ⟨htask, rfl⟩ := Evaluator.asks_flow ha
      obtain rfl := Piece.task_injective htask
      refine ⟨kind, henc, ?_, ?_⟩
      · intro f g s₁ hr hf
        rw [run_bind_ok hr, hexit f g hf]
        rfl
      · intro f s₁ hr hne hf
        exact ⟨handle f, hrest f hne hf, run_bind_ok hr⟩
    · cases hf : outer.answer kind f with
      | exit g =>
        rw [hexit f g hf] at ha
        exact absurd ha (Evaluator.not_asks_const _)
      | proceed =>
        obtain ⟨kind', hhandles⟩ := ih f hf ha
        exact ⟨kind', hhandles.of_run_eq (run_bind_ok hr)⟩
  | bounded _ ih =>
    obtain ⟨kind, hhandles⟩ := ih self.bound (Evaluator.asks_bound_iff.mp ha)
    exact ⟨kind, hhandles.of_run_eq rfl⟩

lemma composed_flow (p : Piece) : Composed .whole .full (fun ev => ev.flow p) fun _ => True := by
  cases p with
  | statement c st => exact .execute (fun _ => trivial) c st
  | list c body => exact .sequence (fun _ => trivial) (Nat.zero_le _) body

/-- How a computation that runs pieces ends, apart from the next statement, comes from one of them. -/
theorem origin (h : Flowing outer c m) (hself : self.Keeps .whole)
    (hr : (m self).run s = .ok f s₁) (hne : f ≠ .next) :
    ∃ kind p s', Encloses kind outer p ∧ self.Asks m s p.task s' ∧
      (self.flow p).run s' = .ok f s₁ ∧ outer.answer kind f = .exit f := by
  -- The piece is the first one after which it did not go on.
  induction h generalizing s with
  | done =>
    cases hr
    exact absurd rfl hne
  | exhausted => cases hr
  | value hm _ ih =>
    obtain ⟨a, s₂, hfirst, hrest⟩ := run_bind_eq_ok.mp hr
    have hleft := (hm 0).left hself (Realm.admits_whole s)
    rw [hfirst] at hleft
    obtain ⟨kind, p, s', henc, ha, hflow, hexit⟩ := ih a hleft.2 hrest
    have hask := (hm 0).asks_bind_after hself (Realm.admits_whole s) hfirst ha
    exact ⟨kind, p, s', henc, hask, hflow, hexit⟩
  | @opens c flow _ _ ih =>
    obtain ⟨block, s₂, hfirst, hrest⟩ := run_bind_eq_ok.mp hr
    have hnew : Composed .whole .full (fun _ => Exec.newBlock c flow) _ := .newBlock c flow
    have hopened := hfirst
    cases hfirst
    obtain ⟨kind, p, s', henc, ha, hflow, hexit⟩ := ih _ hrest
    exact ⟨kind, p, s', henc, hnew.asks_bind_after hself (Realm.admits_whole s) hopened ha, hflow, hexit⟩
  | @piece _ _ kind q handle _ henc hexit _ _ _ ih =>
    obtain ⟨g, s₂, hfirst, hrest⟩ := run_bind_eq_ok.mp hr
    have hs := Realm.admits_whole s
    cases hg : outer.answer kind g with
    | exit g' =>
      rw [hexit g g' hg] at hrest
      cases hrest
      -- A loop ends with the next statement after a break, which is excluded here.
      obtain rfl := Piece.eq_of_answer_exit hg hne
      have hask := (composed_flow q).asks_bind_left (k := handle) hself hs Evaluator.asks_flow_self
      exact ⟨kind, q, s, henc, hask, hfirst, hg⟩
    | proceed =>
      obtain ⟨kind', p, s', henc', ha, hflow, hexit'⟩ := ih g hg hrest
      have hask := (composed_flow q).asks_bind_after hself hs hfirst ha
      exact ⟨kind', p, s', henc', hask, hflow, hexit'⟩
  | bounded _ ih =>
    obtain ⟨kind, p, s', henc, ha, hflow, hexit⟩ := ih self.bound hr
    exact ⟨kind, p, s', henc, Evaluator.asks_bound_iff.mpr ha, hflow, hexit⟩

/-! ## What an inner piece sees -/

/-- Running a piece adds only its own labels to the scopes that are there. -/
lemma labelled_flow (n : Nat) (p : Piece) (s : State) :
    Labelled p.context p.body s (((Evaluator.within n).flow p).after s) := by
  cases p with
  | list c body => exact .sequence n c body s
  | statement c st =>
    have hm : Composed (.above s.scopes.size) .full (fun ev => ev.execute c st) fun _ => True :=
      .execute (fun _ => trivial) c st
    exact .of_kept (hm.kept_after (Evaluator.within_keeps n _) (Realm.admits_above (Nat.le_refl _)))

/-- After a piece, code sees what it saw before, and labels of the piece only where that is allowed. -/
lemma sees_after {n : Nat} {c' : Context} (hleave : p.Leaves outer c')
    (hc : p.context.Below s.scopes.size) (hr : ((Evaluator.within n).flow p).run s = .ok f s₁) :
    c'.Below s₁.scopes.size ∧ ∀ label, s₁.sees c' label = true →
      s.sees p.context label = true ∨ outer.declares label = true := by
  have hlabelled := labelled_flow n p s
  rw [Exec.after_of_ok hr] at hlabelled
  cases hleave with
  | stay hdeclares =>
    refine ⟨hc.mono hlabelled.size_le, fun label hsees => ?_⟩
    rcases hlabelled.sees hc hsees with hsees | ⟨-, hlabel⟩
    · exact .inl hsees
    · exact .inr (hdeclares label hlabel)
  | @close scope flow c' hblock =>
    rw [hblock] at hc hlabelled ⊢
    have hc' : c'.Below s.scopes.size := hc.2.mono (Nat.le_of_lt hc.1)
    refine ⟨hc'.mono hlabelled.size_le, fun label hsees => ?_⟩
    rcases hlabelled.sees hc' hsees with hsees | ⟨hmem, -⟩
    · exact .inl (State.sees_block_iff.mpr (.inr hsees))
    · -- The scope of the block is newer than all the scopes around it.
      exact absurd (hc.2.lt_of_mem hmem) (Nat.lt_irrefl _)

/-- A piece inside of `outer` sees what was seen before, and the labels that `outer` declares. -/
theorem sees_inside {n : Nat} (h : Flowing outer c m) (hc : c.Below s.scopes.size)
    (ha : (Evaluator.within n).Asks m s p.task s') :
    p.context.Below s'.scopes.size ∧ ∀ label, s'.sees p.context label = true →
      s.sees c label = true ∨ outer.declares label = true := by
  have hkeeps := Evaluator.within_keeps n
  induction h generalizing s with
  | done | exhausted => exact absurd ha (Evaluator.not_asks_const _)
  | value hm _ ih =>
    rcases Evaluator.asks_bind ha with ha | ⟨a, s₁, hr, ha⟩
    · exact absurd ha (not_asks_value (hm 0) (hkeeps _) (Nat.zero_le _))
    · -- Computing with values adds no labels to the scopes that are there.
      have hleft := (hm s.scopes.size).left (hkeeps _) (Realm.admits_above (Nat.le_refl _))
      rw [hr] at hleft
      have hkept := hleft.1
      have hinside := ih a hleft.2 (hc.mono hkept.size_le) ha
      refine ⟨hinside.1, fun label hsees => ?_⟩
      rw [← hkept.sees hc]
      exact hinside.2 label hsees
  | opens flow _ ih =>
    rcases Evaluator.asks_bind ha with ha | ⟨block, s₁, hr, ha⟩
    · exact absurd ha (Evaluator.not_asks_const _)
    · cases hr
      have hinside := ih _ (State.below_opened hc flow) ha
      refine ⟨hinside.1, fun label hsees => ?_⟩
      rw [← State.sees_opened hc flow]
      exact hinside.2 label hsees
  | @piece _ _ kind q handle hq _ hexit _ hleave _ ih =>
    subst hq
    rcases Evaluator.asks_bind ha with ha | ⟨f, s₁, hr, ha⟩
    · obtain ⟨htask, rfl⟩ := Evaluator.asks_flow ha
      obtain rfl := Piece.task_injective htask
      exact ⟨hc, fun _ hsees => .inl hsees⟩
    · cases hf : outer.answer kind f with
      | exit g =>
        rw [hexit f g hf] at ha
        exact absurd ha (Evaluator.not_asks_const _)
      | proceed =>
        obtain ⟨hbelow, hafter⟩ := sees_after hleave hc hr
        have hinside := ih f hf hbelow ha
        refine ⟨hinside.1, fun label hsees => ?_⟩
        rcases hinside.2 label hsees with hsees | hdeclares
        · exact hafter label hsees
        · exact .inr hdeclares
  | bounded _ ih => exact ih _ hc (Evaluator.asks_bound_iff.mp ha)

end Flowing

end ScriptLang
