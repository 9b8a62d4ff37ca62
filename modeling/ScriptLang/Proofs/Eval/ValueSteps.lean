/-
Evaluating, assigning, calling and constructing are composed computations.

Each function of the evaluator that works on values is put together from effects and questions.  None
of them asks for statements to be run; only calls of functions and constructors do, and they do so
one level deeper.
-/
import ScriptLang.Proofs.Eval.Composed
import ScriptLang.Proofs.Eval.Yield

namespace ScriptLang

variable {α β : Type}

/-- Whether a task runs statements. -/
def Task.isFlow : Task → Bool
  | .execute _ _ => true
  | .sequence _ _ => true
  | _ => false

/-- A licence to ask for every task that runs no statements. -/
def Licence.Evaluates (L : Licence) : Prop := ∀ t, t.isFlow = false → L.tasks t

variable {W : Realm} {L : Licence} {Q : α → Prop}

/-! ## Putting computations together -/

namespace Composed

lemma run {R : α → Prop} {m : Exec α} (h : Effect W m R) : Composed W L (fun _ => m) fun _ => True :=
  .effect h fun _ _ => trivial

lemma ofExcept {x : Except Cause α} (h : Yields Q x) :
    Composed W L (fun _ => Exec.ofExcept x) Q := by
  cases x with
  | ok a => exact .pure h
  | error cause => exact .fail h

lemma weaken {R : α → Prop} {m : Evaluator → Exec α} (h : Composed W L m R) (hR : ∀ a, R a → Q a) :
    Composed W L m Q := by
  have hbind : Composed W L (fun ev => m ev >>= fun a => Pure.pure a) Q :=
    .bind h fun a ha => .pure (hR a ha)
  simpa only [bind_pure] using hbind

/-- A value that is read from the state. -/
lemma read {f : State → α} : Composed W L (fun _ => do return f (← MonadState.get)) fun _ => True :=
  .bind (.get fun _ hs => hs) fun _ _ => .pure trivial

lemma ite {p : Prop} [Decidable p] {m m' : Evaluator → Exec α} (h : Composed W L m Q)
    (h' : Composed W L m' Q) : Composed W L (fun ev => if p then m ev else m' ev) Q := by
  by_cases hp : p
  · simpa only [if_pos hp] using h
  · simpa only [if_neg hp] using h'

lemma forM {f : Evaluator → β → Exec Unit} (l : List β)
    (h : ∀ b ∈ l, Composed W L (fun ev => f ev b) fun _ => True) :
    Composed W L (fun ev => l.forM (f ev)) fun _ => True := by
  induction l with
  | nil => exact .pure trivial
  | cons b l ih =>
    exact .bind (h b List.mem_cons_self) fun _ _ =>
      ih fun b' hb' => h b' (List.mem_cons_of_mem b hb')

/-! ## Effects in more than one step -/

lemma newBlock (c : Context) (flow : BlockFlow) :
    Composed W L (fun _ => Exec.newBlock c flow) fun block =>
      ∃ scope, block = .block scope flow c ∧ W.floor ≤ scope.index :=
  .bind (.effect .newScope fun _ h => h) fun scope h => .pure ⟨scope, rfl, h⟩

lemma newMethodContext (closure : Context) (owner : ClassId) (receiver : Option Value) :
    Composed W L (fun _ => Exec.newMethodContext closure owner receiver) fun _ => True :=
  .bind (.run .newScope) fun _ _ => .pure trivial

lemma lookupIn (name kept : String) (ids : List ScopeId) :
    Composed W L (fun _ => Exec.lookupIn name kept ids) fun _ => True := by
  induction ids with
  | nil => exact .fail trivial
  | cons id ids ih =>
    refine .bind (R := fun _ : Scope => True) .read fun scope _ => ?_
    cases scope.lookup kept with
    | missing => exact ih
    | unassigned => exact .fail trivial
    | found value => exact .pure trivial

lemma lookup (c : Context) (name : String) :
    Composed W L (fun _ => Exec.lookup c name) fun _ => True :=
  .bind (R := fun _ : String => True) .read fun _ _ => lookupIn name _ _

lemma nullValue : Composed W L (fun _ => Exec.nullValue) fun _ => True := .read

/-- A class that is registered is one that the realm admits. -/
lemma classOf (id : ClassId) :
    Composed W L (fun _ => Exec.classOf id) fun cls => cls.Meets W.host := by
  refine .bind (.get fun _ hs => hs) fun s hs => ?_
  cases hc : s.registry.get? id with
  | some cls => exact .pure (hs.meets.cls id cls hc)
  | none => exact .fail trivial

lemma ofSuper (c : Context) : Composed W L (fun _ => Target.ofSuper c) fun _ => True := by
  unfold Target.ofSuper
  cases c.owner with
  | none => exact .fail trivial
  | some owner =>
    refine .bind (classOf owner) fun cls _ => ?_
    cases cls.parent with
    | none => exact .fail trivial
    | some parent =>
      dsimp only
      split <;> exact .pure trivial

/-- What is found is what the realm admits. -/
lemma resolveFor (caller : Option (ClassId × String)) (target : Target) (name : String) :
    Composed W L (fun _ => resolveFor caller target name) fun found =>
      ∀ result ∈ found, result.Meets W.host := by
  refine .bind (.get fun _ hs => hs) fun s hs => ?_
  cases hf : s.registry.search caller target.side name target.start with
  | found result =>
    refine .pure fun r hr => ?_
    rw [← Option.some.inj hr]
    exact Registry.meets_of_search hs.meets.cls hf
  | absent => exact .pure fun r hr => absurd hr (Option.not_mem_none r)
  | unregistered id => exact .fail trivial
  | endless => exact .exhausted

lemma resolve (c : Context) (target : Target) (name : String) :
    Composed W L (fun _ => resolve c target name) fun found =>
      ∀ result ∈ found, result.Meets W.host := by
  unfold ScriptLang.resolve
  cases c.owner with
  | none => exact resolveFor none target name
  | some id => exact .bind (classOf id) fun cls _ => resolveFor (some (id, cls.name)) target name

/-! ## Questions -/

variable (hL : L.Evaluates)

include hL

lemma evaluate (c : Context) (e : Expr) :
    Composed W L (fun ev => ev.evaluate c e) fun _ => True :=
  .ask (t := .evaluate c e) (hL _ rfl) trivial fun _ => trivial

lemma assign (c : Context) (target : Expr) (value : Value) :
    Composed W L (fun ev => ev.assign c target value) fun _ => True :=
  .ask (t := .assign c target value) (hL _ rfl) trivial fun _ => trivial

lemma call (c : Context) (callee : Value) (args : List Value) :
    Composed W L (fun ev => ev.call c callee args) fun _ => True :=
  .ask (t := .call c callee args) (hL _ rfl) trivial fun _ => trivial

lemma invoke (frame : Frame) (decl : FunctionDecl) (args : List Value) :
    Composed W L (fun ev => ev.invoke frame decl args) fun _ => True :=
  .ask (t := .invoke frame decl args) (hL _ rfl) trivial fun _ => trivial

lemma host {f : HostFunction} (hf : W.host f) (call : HostCall) :
    Composed W L (fun ev => ev.host f call) fun _ => True :=
  .ask (t := .host f call) (hL _ rfl) hf fun _ => trivial

lemma setUp (c : Context) (id : ClassId) (i : InstanceId) (args : List Value) :
    Composed W L (fun ev => ev.setUp c id i args) fun _ => True :=
  .ask (t := .setUp c id i args) (hL _ rfl) trivial fun _ => trivial

lemma getMember (c : Context) (v : Value) (name : String) :
    Composed W L (fun ev => ev.getMember c v name) fun _ => True :=
  .ask (t := .getMember c v name) (hL _ rfl) trivial fun _ => trivial

lemma evaluateAll (c : Context) (es : List Expr) :
    Composed W L (fun ev => ev.evaluateAll c es) fun _ => True := by
  induction es with
  | nil => exact .pure trivial
  | cons e es ih => exact .bind (evaluate hL c e) fun _ _ => .bind ih fun _ _ => .pure trivial

lemma construct (c : Context) (id : ClassId) (args : List Value) :
    Composed W L (fun ev => ev.construct c id args) fun _ => True :=
  .bind (.run (.newInstance id)) fun i _ => .bind (setUp hL c id i args) fun _ _ => .pure trivial

/-! ## Calls -/

lemma bindEach (c : Context) (decl : FunctionDecl) (got : Nat) (ps : List Parameter)
    (args : List Value) : Composed W L (fun ev => ev.bindEach c decl got ps args) fun _ => True := by
  induction ps generalizing args with
  | nil => exact .pure trivial
  | cons p ps ih =>
    have hrest : ∀ value rest, Composed W L
        (fun ev => do
          Exec.declare c p.name .parameter value
          ev.bindEach c decl got ps rest) fun _ => True :=
      fun value rest => .bind (.run (.declare c p.name .parameter value)) fun _ _ => ih rest
    cases args with
    | cons arg args => exact hrest arg args
    | nil =>
      simp only [Evaluator.bindEach]
      cases p.default with
      | some e => exact .bind (evaluate hL c e) fun value _ => hrest value []
      | none =>
        refine .ite ?_ ?_
        · exact .bind nullValue fun value _ => hrest value []
        · exact .bind (R := fun _ => True) (.fail trivial) fun value _ => hrest value []

lemma bindParameters (c : Context) (decl : FunctionDecl) (args : List Value) :
    Composed W L (fun ev => ev.bindParameters c decl args) fun _ => True := by
  simp only [Evaluator.bindParameters]
  refine .ite ?_ (bindEach hL c decl _ _ _)
  exact .bind (R := fun _ => True) (.fail trivial) fun _ _ => bindEach hL c decl _ _ _

lemma answer (call : HostCall) (request : HostRequest) :
    Composed W L (fun ev => ev.answer call request) fun _ => True := by
  cases request with
  | call callee args => exact .call hL _ callee args
  | construct id args => exact .construct hL _ id args
  | getMember target name => exact .getMember hL _ target name
  | lookup name => exact .lookup _ name
  | newArray items => exact .run (.newArray items)
  | newObject properties => exact .run (.newObject properties)
  | setItems id items => exact .run (.modifyArray id _)
  | setProperty id key value => exact .run (.setProperty id key value)
  | setField id key value => exact .run (.setField id key value)
  | print line => exact .run (.printLine line)
  | cancel => exact .run .cancel
  | getItems | getNames | getProperty | getField | className | config | display => exact .read

/-- Code of the host handles what its licence says, and it fails with what came up before or with what its
licence says. -/
lemma follow (call : HostCall) {code : HostCode} (hfault : ∀ f, code.Raises f → L.faults f)
    (hhandles : ∀ cause, code.Handles cause → L.handles cause) :
    Composed W L (fun ev => ev.follow call code) fun _ => True := by
  induction code generalizing L with
  | give value => exact .pure trivial
  | fail fault => exact .hostFault (hfault fault .here)
  | ask request next ih =>
    have hlater : ∀ {cause outcome}, (next outcome).Handles cause → L.handles cause := fun h =>
      hhandles _ (.later h)
    refine .attempt (answer hL call request) (fun a _ => ?_) (fun f => ?_) fun f => ?_
    · exact ih (.ok a) hL (fun f hf => hfault f (.later (nofun : Except.ok a ≠ .error f) hf)) fun _ => hlater
    · refine ih (.error f) hL (fun f' hf' => ?_) fun _ => hlater
      by_cases heq : f' = f
      · exact .inr heq
      · exact .inl (hfault f' (.later (fun h => heq (Except.error.inj h).symm) hf'))
    · by_cases hrelays : next (.error f) = .fail f
      · right
        simp only [hrelays]
        rfl
      · exact .inl (hhandles f.cause (.here hrelays))

lemma runHost (f : HostFunction) (call : HostCall) (hfault : ∀ fault, f.Raises fault → L.faults fault)
    (hhandles : ∀ cause, f.Handles cause → L.handles cause) :
    Composed W L (fun ev => ev.runHost f call) fun _ => True :=
  .bind (.run .takeTurn) fun turn _ =>
    follow hL call (fun fault h => hfault fault ⟨turn, call, h⟩) fun cause h =>
      hhandles cause ⟨turn, call, h⟩

lemma callHost (f : HostFunction) (call : HostCall) (hfault : ∀ fault, f.Raises fault → L.faults fault)
    (hhandles : ∀ cause, f.Handles cause → L.handles cause) :
    Composed W L (fun ev => ev.callHost f call) fun _ => True := by
  unfold Evaluator.callHost
  cases f.arity with
  | none => exact runHost hL f call hfault hhandles
  | some n => exact .ite (runHost hL f call hfault hhandles) (.fail trivial)

lemma callMethod (c : Context) (owner : ClassId) {m : Method} (hm : m.Meets W.host)
    (receiver : Option Value) (args : List Value) :
    Composed W L (fun ev => ev.callMethod c owner m receiver args) fun _ => True := by
  cases m with
  | host f => exact host hL hm _
  | script decl =>
    refine .bind (classOf owner) fun cls _ => ?_
    cases cls.origin with
    | host constructor => exact .fail trivial
    | script closure constructor => exact invoke hL _ decl args

lemma callValue (c : Context) (callee : Value) (args : List Value) :
    Composed W L (fun ev => ev.callValue c callee args) fun _ => True := by
  refine .bind (.get fun _ hs => hs) fun s hs => ?_
  have hmeets : ∀ f ∈ s.heap.callee? callee, f.Meets W.host := by
    intro f hf
    cases callee with
    | function id => exact hs.meets.function id f hf
    | _ => cases hf
  cases hf : s.heap.callee? callee with
  | none => exact .fail trivial
  | some f =>
    cases f with
    | script decl closure => exact invoke hL _ decl args
    | host f => exact host hL (hmeets _ hf) _
    | bound owner m receiver => exact callMethod hL c owner (hmeets _ hf) receiver args

/-! ## Members and elements -/

omit hL in
lemma readField (target : Target) (owner : ClassId) (key : String) :
    Composed W L (fun _ => readField target owner key) fun _ => True := by
  refine .bind (.get fun _ hs => hs) fun s _ => ?_
  split <;> exact .pure trivial

omit hL in
lemma writeField (target : Target) (owner : ClassId) (key : String) (value : Value) :
    Composed W L (fun _ => writeField target owner key value) fun _ => True := by
  unfold ScriptLang.writeField
  split
  · exact .run (.setField _ key value)
  · exact .run (.setStaticField owner key value)

lemma getClassMember (c : Context) (target : Target) (name : String) :
    Composed W L (fun ev => ev.getClassMember c target name) fun _ => True := by
  refine .bind (resolve c target name) fun found hfound => ?_
  cases found with
  | none => exact .fail trivial
  | some found =>
    have hmeets := hfound found rfl
    cases found with
    | field owner key => exact readField target owner key
    | member owner m =>
      cases m with
      | method m => exact .run (.newFunction _ hmeets)
      | property getter setter =>
        cases getter with
        | none => exact .fail trivial
        | some getter => exact callMethod hL c owner (hmeets.1 getter rfl) _ _
      | indexer getter setter => exact .fail trivial

lemma setClassMember (c : Context) (target : Target) (name : String) (value : Value) :
    Composed W L (fun ev => ev.setClassMember c target name value) fun _ => True := by
  refine .bind (resolve c target name) fun found hfound => ?_
  cases found with
  | none => exact .fail trivial
  | some found =>
    have hmeets := hfound found rfl
    cases found with
    | field owner key => exact writeField target owner key value
    | member owner m =>
      cases m with
      | method m => exact .fail trivial
      | property getter setter =>
        cases setter with
        | none => exact .fail trivial
        | some setter =>
          exact .bind (callMethod hL c owner (hmeets.2 setter rfl) _ _) fun _ _ => .pure trivial
      | indexer getter setter => exact .fail trivial

omit hL in
lemma findIndexer (c : Context) (target : Target) :
    Composed W L (fun _ => Evaluator.findIndexer c target) fun found =>
      (∀ m ∈ found.2.1, m.Meets W.host) ∧ ∀ m ∈ found.2.2, m.Meets W.host := by
  refine .bind (resolve c target _) fun found hfound => ?_
  have hnone : Composed W L (fun _ => do
      let name := (((← MonadState.get).registry.get? target.start).map (·.name)).getD ""
      Exec.fail (.indexerNotFound ("class '" ++ name ++ "'"))) fun
        found : ClassId × Option Method × Option Method =>
      (∀ m ∈ found.2.1, m.Meets W.host) ∧ ∀ m ∈ found.2.2, m.Meets W.host :=
    .bind (.get fun _ hs => hs) fun _ _ => .fail trivial
  cases found with
  | none => exact hnone
  | some found =>
    have hmeets := hfound found rfl
    cases found with
    | field owner key => exact hnone
    | member owner m =>
      cases m with
      | method | property => exact hnone
      | indexer getter setter => exact .pure hmeets

lemma getClassItem (c : Context) (target : Target) (args : List Value) :
    Composed W L (fun ev => ev.getClassItem c target args) fun _ => True := by
  refine .bind (findIndexer c target) fun found hfound => ?_
  obtain ⟨owner, getter, setter⟩ := found
  cases getter with
  | none => exact .fail trivial
  | some getter => exact callMethod hL c owner (hfound.1 getter rfl) _ _

lemma setClassItem (c : Context) (target : Target) (args : List Value) (value : Value) :
    Composed W L (fun ev => ev.setClassItem c target args value) fun _ => True := by
  refine .bind (findIndexer c target) fun found hfound => ?_
  obtain ⟨owner, getter, setter⟩ := found
  cases setter with
  | none => exact .fail trivial
  | some setter =>
    exact .bind (callMethod hL c owner (hfound.2 setter rfl) _ _) fun _ _ => .pure trivial

lemma memberOf (c : Context) (v : Value) (name : String) :
    Composed W L (fun ev => ev.memberOf c v name) fun _ => True := by
  refine .bind (.get fun _ hs => hs) fun s _ => ?_
  dsimp only
  cases Target.ofValue? s.heap v with
  | some target => exact getClassMember hL c target name
  | none =>
    cases v with
    | object id => exact .pure trivial
    | array | text => exact .ite (.pure trivial) (.fail trivial)
    | _ => exact .fail trivial

lemma setMember (c : Context) (v : Value) (name : String) (value : Value) :
    Composed W L (fun ev => ev.setMember c v name value) fun _ => True := by
  refine .bind (.get fun _ hs => hs) fun s _ => ?_
  dsimp only
  cases Target.ofValue? s.heap v with
  | some target => exact setClassMember hL c target name value
  | none =>
    cases v with
    | object id => exact .run (.setProperty id name value)
    | _ => exact .fail trivial

lemma getItem (c : Context) (v : Value) (args : List Value) :
    Composed W L (fun ev => ev.getItem c v args) fun _ => True := by
  refine .bind (.get fun _ hs => hs) fun s _ => ?_
  dsimp only
  cases Target.ofValue? s.heap v with
  | some target => exact getClassItem hL c target args
  | none =>
    cases v with
    | object id => exact .bind (.ofExcept (yields_objectKey args)) fun key _ => .pure trivial
    | array id =>
      refine .bind (.ofExcept (yields_arrayIndex args _)) fun index _ => ?_
      cases (s.heap.array id)[index]? with
      | some item => exact .pure trivial
      | none => exact .fail trivial
    | text text =>
      refine .bind (.ofExcept (yields_arrayIndex args _)) fun index _ => ?_
      cases text.toList[index]? with
      | some ch => exact .pure trivial
      | none => exact .fail trivial
    | _ => exact .fail trivial

lemma setItem (c : Context) (v : Value) (args : List Value) (value : Value) :
    Composed W L (fun ev => ev.setItem c v args value) fun _ => True := by
  refine .bind (.get fun _ hs => hs) fun s _ => ?_
  dsimp only
  cases Target.ofValue? s.heap v with
  | some target => exact setClassItem hL c target args value
  | none =>
    cases v with
    | object id =>
      exact .bind (.ofExcept (yields_objectKey args)) fun key _ => .run (.setProperty id key value)
    | array id =>
      refine .bind (.ofExcept (yields_arrayIndex args _)) fun index _ => ?_
      exact .ite (.run (.modifyArray id _)) (.ite (.run (.modifyArray id _)) (.fail trivial))
    | _ => exact .fail trivial

lemma getSuperMember (c : Context) (name : String) :
    Composed W L (fun ev => ev.getSuperMember c name) fun _ => True :=
  .bind (ofSuper c) fun target _ => getClassMember hL c target name

lemma setSuperMember (c : Context) (name : String) (value : Value) :
    Composed W L (fun ev => ev.setSuperMember c name value) fun _ => True :=
  .bind (ofSuper c) fun target _ => setClassMember hL c target name value

lemma getSuperItem (c : Context) (args : List Value) :
    Composed W L (fun ev => ev.getSuperItem c args) fun _ => True :=
  .bind (ofSuper c) fun target _ => getClassItem hL c target args

lemma setSuperItem (c : Context) (args : List Value) (value : Value) :
    Composed W L (fun ev => ev.setSuperItem c args value) fun _ => True :=
  .bind (ofSuper c) fun target _ => setClassItem hL c target args value

/-! ## Operators -/

lemma update (c : Context) (op : String) (operand : Expr) (delta : Float) :
    Composed W L (fun ev => ev.update c op operand delta) fun _ => True := by
  refine .bind (evaluate hL c operand) fun v _ => ?_
  cases v with
  | number n => exact .bind (assign hL c operand _) fun _ _ => .pure trivial
  | _ => exact .fail trivial

lemma applyCode (c : Context) (operands : List Expr) (code : OperatorCode operands.length) :
    Composed W L (fun ev => ev.applyCode c operands code) fun _ => True := by
  induction code with
  | give value => exact .pure trivial
  | fail cause ordinary => exact .fail ordinary
  | evaluate operand next ih => exact .bind (evaluate hL c _) fun v _ => ih v
  | assign operand value next ih => exact .bind (assign hL c _ value) fun _ _ => ih
  | newArray items next ih => exact .bind (.run (.newArray items)) fun v _ => ih v
  | newObject properties next ih => exact .bind (.run (.newObject properties)) fun v _ => ih v
  | display value next ih =>
    exact .bind (R := fun _ : String => True) .read fun text _ => ih text

lemma applyPre (c : Context) (operand : Expr) (op : PreOperator) :
    Composed W L (fun ev => ev.applyPre c operand op) fun _ => True := by
  cases op with
  | negate | plus | complement =>
    refine .bind (evaluate hL c operand) fun v _ => ?_
    cases v with
    | number n => exact .pure trivial
    | _ => exact .fail trivial
  | not => exact .bind (evaluate hL c operand) fun _ _ => .pure trivial
  | increment | decrement => exact .bind (update hL c _ operand _) fun _ _ => .pure trivial
  | ofHost code => exact applyCode hL c [operand] code

lemma applyPost (c : Context) (operand : Expr) (op : PostOperator) :
    Composed W L (fun ev => ev.applyPost c operand op) fun _ => True := by
  cases op with
  | increment | decrement => exact .bind (update hL c _ operand _) fun _ _ => .pure trivial
  | ofHost code => exact applyCode hL c [operand] code

omit hL in
lemma compute (op : Arithmetic) (left right : Value) :
    Composed W L (fun _ => Evaluator.compute op left right) fun _ => True :=
  .bind (.get fun _ hs => hs) fun s _ => .ofExcept (op.yields_apply s.heap left right)

/-- Operators that evaluate both operands before anything else. -/
lemma evaluateBoth (c : Context) (left right : Expr) {k : Value → Value → Evaluator → Exec α}
    (h : ∀ a b, Composed W L (k a b) Q) :
    Composed W L (fun ev => do
      let a ← ev.evaluate c left
      let b ← ev.evaluate c right
      k a b ev) Q :=
  .bind (evaluate hL c left) fun a _ => .bind (evaluate hL c right) fun b _ => h a b

lemma applyBinary (c : Context) (left right : Expr) (op : BinaryOperator) :
    Composed W L (fun ev => ev.applyBinary c left right op) fun _ => True := by
  cases op with
  | arithmetic op => exact evaluateBoth hL c left right fun a b => compute op a b
  | arithmeticAssign op =>
    exact evaluateBoth hL c left right fun a b => .bind (compute op a b) fun v _ =>
      .bind (assign hL c left v) fun _ _ => .pure trivial
  | comparison op =>
    exact evaluateBoth hL c left right fun a b => .ofExcept (op.yields_apply a b)
  | equal | notEqual => exact evaluateBoth hL c left right fun _ _ => .pure trivial
  | assign =>
    exact .bind (evaluate hL c right) fun v _ => .bind (.assign hL c left v) fun _ _ => .pure trivial
  | shortCircuit op =>
    exact .bind (evaluate hL c left) fun _ _ => .ite (evaluate hL c right) (.pure trivial)
  | shortCircuitAssign op =>
    refine .bind (evaluate hL c left) fun a _ => .ite ?_ (.pure trivial)
    exact .bind (evaluate hL c right) fun v _ => .bind (.assign hL c left v) fun _ _ => .pure trivial
  | ofHost code => exact applyCode hL c [left, right] code

lemma applyTernary (c : Context) (first second third : Expr) (op : TernaryOperator) :
    Composed W L (fun ev => ev.applyTernary c first second third op) fun _ => True := by
  cases op with
  | conditional =>
    exact .bind (evaluate hL c first) fun _ _ => .ite (evaluate hL c second) (evaluate hL c third)
  | ofHost code => exact applyCode hL c [first, second, third] code

omit hL in
lemma meaning {γ : Type} (table : OperatorTable → Table γ) (op : String) :
    Composed W L (fun _ => Evaluator.meaning table op) fun _ => True := by
  refine .bind (.get fun _ hs => hs) fun s _ => ?_
  cases (table s.services.operators).get? op with
  | some m => exact .pure trivial
  | none => exact .fail trivial

lemma unary (c : Context) (op : String) (fixity : Fixity) (operand : Expr) :
    Composed W L (fun ev => ev.unary c op fixity operand) fun _ => True := by
  cases fixity with
  | before => exact .bind (meaning _ op) fun m _ => applyPre hL c operand m
  | after => exact .bind (meaning _ op) fun m _ => applyPost hL c operand m

lemma binary (c : Context) (op : String) (left right : Expr) :
    Composed W L (fun ev => ev.binary c op left right) fun _ => True :=
  .bind (meaning _ op) fun m _ => applyBinary hL c left right m

lemma ternary (c : Context) (op : String) (first second third : Expr) :
    Composed W L (fun ev => ev.ternary c op first second third) fun _ => True :=
  .bind (meaning _ op) fun m _ => applyTernary hL c first second third m

/-! ## Classes and instances -/

omit hL in
lemma addMembers {d : Draft} (hd : d.Meets W.host) {ms : List MemberDecl}
    (hplaces : ∀ m ∈ ms, L.places m.place) :
    Composed W L (fun _ => Evaluator.addMembers d ms) (Draft.Meets W.host) := by
  induction ms generalizing d with
  | nil => exact .pure hd
  | cons m ms ih =>
    refine .bind (.located (hplaces m List.mem_cons_self) (.ofExcept (hd.yields_add m))) ?_
    exact fun d' hd' => ih hd' fun m' hm' => hplaces m' (List.mem_cons_of_mem m hm')

lemma parentOf (c : Context) {parent : Option Expr} (hplaces : ∀ e ∈ parent, L.places e.place) :
    Composed W L (fun ev => ev.parentOf c parent) fun _ => True := by
  cases parent with
  | none => exact .pure trivial
  | some e =>
    refine .bind (evaluate hL c e) fun v _ => ?_
    cases v with
    | classRef id => exact .pure trivial
    | _ => exact .located (hplaces e rfl) (.fail trivial)

end Composed

/-- The places at which making a class may locate a fault: those of its members and of what it
extends. -/
def ClassDecl.places (decl : ClassDecl) : List Position :=
  decl.members.map (·.place) ++ (decl.parent.map (·.place)).toList

namespace Composed

variable (hL : L.Evaluates)

include hL

lemma createClass (c : Context) {decl : ClassDecl} (hplaces : ∀ p ∈ decl.places, L.places p) :
    Composed W L (fun ev => ev.createClass c decl) fun _ => True := by
  have hparent : ∀ e ∈ decl.parent, L.places e.place := by
    intro e he
    refine hplaces e.place (List.mem_append_right _ ?_)
    simp [Option.mem_def.mp he]
  have hmembers : ∀ m ∈ decl.members, L.places m.place := fun m hm =>
    hplaces m.place (List.mem_append_left _ (List.mem_map_of_mem hm))
  refine .bind (parentOf hL c hparent) fun parent _ => ?_
  have hstart : Draft.Meets W.host ⟨⟨decl.name, parent, .script c none, {}, {}, [], {}⟩, none, []⟩ :=
    ⟨trivial, fun side key m hm => by cases side <;> cases hm⟩
  refine .bind (addMembers hstart hmembers) fun draft hdraft => ?_
  have hfinish : (draft.finish c).Meets W.host :=
    Class.Meets.of_members hdraft trivial fun side => by cases side <;> rfl
  refine .bind (.run (.register _ hfinish)) fun id _ => ?_
  refine .bind (newMethodContext c id none) fun context _ => ?_
  refine .bind (.forM _ fun entry _ => ?_) fun _ _ => .pure trivial
  exact .bind (evaluate hL context entry.2) fun value _ => .run (.setStaticField id entry.1 value)

omit hL in
lemma refuseArguments (cls : Class) (args : List Value) :
    Composed W L (fun _ => Evaluator.refuseArguments cls args) fun _ => True :=
  .ite (.pure trivial) (.fail trivial)

lemma constructHost (c : Context) (cls : Class) {constructor : Option HostFunction}
    (hc : ∀ f ∈ constructor, W.host f) (i : InstanceId) (args : List Value) :
    Composed W L (fun ev => ev.constructHost c cls constructor i args) fun _ => True := by
  refine .bind (.forM _ fun f _ => .run (.setField i f.key .null)) fun _ _ => ?_
  cases constructor with
  | none => exact refuseArguments cls args
  | some f => exact .bind (host hL (hc f rfl) _) fun _ _ => .pure trivial

lemma setUpHost (c : Context) (cls : Class) {constructor : Option HostFunction}
    (hc : ∀ f ∈ constructor, W.host f) (i : InstanceId) (args : List Value) :
    Composed W L (fun ev => ev.setUpHost c cls constructor i args) fun _ => True := by
  have hconstruct := constructHost hL c cls hc i args
  unfold Evaluator.setUpHost
  cases cls.parent with
  | none => exact hconstruct
  | some parent => exact .bind (setUp hL c parent i []) fun _ _ => hconstruct

/-- The body of a constructor is the one that was declared. -/
lemma bindConstructor (context : Context) (cls : Class) (constructor : Option FunctionDecl)
    (args : List Value) :
    Composed W L (fun ev => ev.bindConstructor context cls constructor args) fun body =>
      body = (constructor.map (·.body)).getD [] := by
  cases constructor with
  | none => exact .bind (refuseArguments cls args) fun _ _ => .pure rfl
  | some decl => exact .bind (bindParameters hL context decl args) fun _ _ => .pure rfl

lemma setUpParent (c context : Context) (cls : Class) (i : InstanceId)
    {superCall : Option (List Expr × Position)} (hplace : ∀ call ∈ superCall, L.places call.2) :
    Composed W L (fun ev => ev.setUpParent c context cls i superCall) fun _ => True := by
  cases superCall with
  | none =>
    unfold Evaluator.setUpParent
    cases cls.parent with
    | none => exact .pure trivial
    | some parent => exact setUp hL c parent i []
  | some call =>
    obtain ⟨arguments, place⟩ := call
    have hp : L.places place := hplace (arguments, place) rfl
    unfold Evaluator.setUpParent
    cases cls.parent with
    | none => exact .located hp (.fail trivial)
    | some parent =>
      exact .bind (.located hp (evaluateAll hL context arguments)) fun values _ =>
        .located hp (setUp hL c parent i values)

lemma setUpFields (context : Context) (i : InstanceId) (fields : List Field) :
    Composed W L (fun ev => ev.setUpFields context i fields) fun _ => True := by
  refine .forM _ fun f _ => ?_
  dsimp only
  cases f.initializer with
  | none => exact .run (.setField i f.key .null)
  | some e => exact .bind (evaluate hL context e) fun value _ => .run (.setField i f.key value)

/-! ## Expressions -/

lemma evaluateProperties (c : Context) (properties : List (String × Expr)) :
    Composed W L (fun ev => ev.evaluateProperties c properties) fun _ => True := by
  induction properties with
  | nil => exact .pure trivial
  | cons entry rest ih =>
    exact .bind (evaluate hL c entry.2) fun _ _ => .bind ih fun _ _ => .pure trivial

end Composed

/-- The places at which a form of expressions may locate a fault on its own: those of a class. -/
def ExprForm.places : ExprForm → List Position
  | .classDecl decl => decl.places
  | _ => []

namespace Composed

variable (hL : L.Evaluates)

include hL

lemma evaluateForm (c : Context) (form : ExprForm) (hplaces : ∀ p ∈ form.places, L.places p) :
    Composed W L (fun ev => ev.evaluateForm c form) fun _ => True := by
  cases form with
  | literal l => exact .read
  | «variable» name => exact lookup c name
  | this =>
    unfold Evaluator.evaluateForm
    cases c.this with
    | some v => exact .pure trivial
    | none => exact .fail trivial
  | super => exact .fail trivial
  | member target name =>
    refine .ite (getSuperMember hL c name) ?_
    exact .bind (evaluate hL c target) fun v _ => memberOf hL c v name
  | index target arguments =>
    refine .ite ?_ ?_
    · exact .bind (evaluateAll hL c arguments) fun args _ => getSuperItem hL c args
    · exact .bind (evaluate hL c target) fun v _ =>
        .bind (evaluateAll hL c arguments) fun args _ => getItem hL c v args
  | call callee arguments =>
    refine .ite (.fail trivial) ?_
    exact .bind (evaluate hL c callee) fun f _ =>
      .bind (evaluateAll hL c arguments) fun args _ => callValue hL c f args
  | new target arguments =>
    refine .bind (evaluate hL c target) fun v _ => .bind (evaluateAll hL c arguments) fun args _ => ?_
    cases v with
    | classRef id => exact construct hL c id args
    | _ => exact .fail trivial
  | unary op fixity operand => exact unary hL c op fixity operand
  | binary op left right => exact binary hL c op left right
  | ternary op first second third => exact ternary hL c op first second third
  | array items =>
    exact .bind (evaluateAll hL c items) fun _ _ =>
      .bind (.get fun _ hs => hs) fun _ _ => .run (.newArray _)
  | object properties =>
    exact .bind (evaluateProperties hL c properties) fun _ _ =>
      .bind (.get fun _ hs => hs) fun _ _ => .run (.newObject _)
  | function decl => exact .run (.newFunction _ trivial)
  | classDecl decl => exact .bind (createClass hL c hplaces) fun _ _ => .read

lemma assignEach (c : Context) (pairs : List (Expr × Value)) :
    Composed W L (fun ev => ev.assignEach c pairs) fun _ => True := by
  induction pairs with
  | nil => exact .pure trivial
  | cons pair rest ih => exact .bind (assign hL c pair.1 pair.2) fun _ _ => ih

lemma destructure (c : Context) (targets : List Expr) (value : Value) :
    Composed W L (fun ev => ev.destructure c targets value) fun _ => True := by
  refine .bind (.get fun _ hs => hs) fun s _ => ?_
  cases s.heap.elements? value with
  | none => exact .fail trivial
  | some elements => exact .ite (.fail trivial) (assignEach hL c _)

lemma assignForm (c : Context) (value : Value) (form : ExprForm) :
    Composed W L (fun ev => ev.assignForm c value form) fun _ => True := by
  cases form with
  | «variable» name => exact .run (.assignVariable c name value)
  | member target name =>
    refine .ite (setSuperMember hL c name value) ?_
    exact .bind (evaluate hL c target) fun v _ => setMember hL c v name value
  | index target arguments =>
    refine .ite ?_ ?_
    · exact .bind (evaluateAll hL c arguments) fun args _ => setSuperItem hL c args value
    · exact .bind (evaluate hL c target) fun v _ =>
        .bind (evaluateAll hL c arguments) fun args _ => setItem hL c v args value
  | array targets => exact destructure hL c targets value
  | _ => exact .fail trivial

end Composed

end ScriptLang
