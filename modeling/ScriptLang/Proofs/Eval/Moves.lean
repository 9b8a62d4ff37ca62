/-
What one step of the evaluator can do.

A step changes the state in a fixed number of ways, and it leads to a fixed number of tasks.  This file
lists both, each with where it comes from: who binds which name in which scope (`Change`), and which
piece of code is run in which context (`Lead`).  Every invariant of the evaluator is derived from these
two lists.

What happens between two changes is up to the tasks that were asked for in the meantime.  So the lists
depend on a relation `K` between an earlier and a later state of the same step, and on the values `V`
that a state may hold.
-/
import ScriptLang.Proofs.Eval.Step

namespace ScriptLang

/-! ## Parts of a state -/

namespace State

/-- What a scope holds. -/
def scopeAt (s : State) (id : ScopeId) : Scope := s.scopes[id.index]?.getD {}

/-- The state with another content of a scope. -/
def withScope (s : State) (id : ScopeId) (scope : Scope) : State :=
  { s with scopes := s.scopes.setIfInBounds id.index scope }

/-- The state with another heap. -/
def withHeap (s : State) (heap : Heap) : State := { s with heap }

/-- The state with other classes. -/
def withRegistry (s : State) (registry : Registry) : State := { s with registry }

/-- The state with one more instance, which has no fields yet. -/
def withInstance (s : State) (id : ClassId) : State := s.withHeap (s.heap.addInstance id).2

/-- The number of the next instance. -/
def nextInstance (s : State) : InstanceId := ⟨s.heap.instances.size⟩

/-- Whether running code stops at its next statement. -/
def stopped (s : State) : Bool := s.config.checkCancellation && s.cancelled

/-- The values that a state holds. -/
inductive Stores (s : State) : Value → Prop
  | binding {id name kind v} : (s.scopeAt id).bindings.get? name = some ⟨kind, some v⟩ → Stores s v
  | element {id v} : v ∈ s.heap.array id → Stores s v
  | property {id key v} : (s.heap.object id).get? key = some v → Stores s v
  | field {i key v} : s.heap.field? i key = some v → Stores s v
  | static {id cls key v} : s.registry.get? id = some cls → cls.staticFields.get? key = some v →
      Stores s v
  | receiver {id owner m v} : s.heap.function? id = some (.bound owner m (some v)) → Stores s v

end State

/-! ## Parts of the code -/

/-- The expressions in an expression that are evaluated or assigned to in the same context. -/
def ExprForm.parts : ExprForm → List Expr
  | .member target _ => [target]
  | .index target arguments => target :: arguments
  | .call callee arguments => callee :: arguments
  | .new target arguments => target :: arguments
  | .unary _ _ operand => [operand]
  | .binary _ left right => [left, right]
  | .ternary _ first second third => [first, second, third]
  | .array items => items
  | .object properties => properties.map (·.2)
  | .classDecl decl => decl.parent.toList
  | _ => []

namespace StmtForm

/-- The expressions in a statement that are evaluated in the same context. -/
def parts : StmtForm → List Expr
  | .expr e => [e]
  | .variables declarators => declarators.filterMap (·.2)
  | .classDecl decl => decl.parent.toList
  | .ifElse condition _ _ => [condition]
  | .whileLoop condition _ => [condition]
  | .doWhile _ condition => [condition]
  | .switch discriminant cases _ => discriminant :: cases.map (·.1)
  | .returnValue value => value.toList
  | _ => []

/-- The names that a statement declares. -/
def declared : StmtForm → List (String × BindingKind)
  | .variables declarators => declarators.map fun d => (d.1, .variable)
  | .function decl => (decl.name.map fun name => (name, .function)).toList
  | .classDecl decl => [(decl.name, .classDecl)]
  | _ => []

/-- The statements in a statement that are executed in the same context. -/
def branches : StmtForm → List Stmt
  | .ifElse _ onTrue onFalse => onTrue :: onFalse.toList
  | _ => []

/-- The lists of statements in a statement, each of which runs in a block of its own. -/
def blocks : StmtForm → List (BlockFlow × List Stmt)
  | .block body => [(.plain, body)]
  | .forLoop init _ _ _ => [(.plain, init)]
  | .switch _ cases default => (cases.map (·.2) ++ default.toList).map (.switch, ·)
  | _ => []

end StmtForm

/-- What runs in one turn of a loop. -/
def Stmt.turn (body : Stmt) (block : Context) : Task :=
  match body.form with
  | .block statements => .sequence block statements
  | _ => .execute block body

/-- The turns of a loop with the context around them.  The turns of a for-loop stand in a block. -/
inductive StmtForm.Turns (floor : Nat) (c : Context) : StmtForm → Context → Stmt → Prop
  | whileLoop {condition body} : Turns floor c (.whileLoop condition body) c body
  | doWhile {body condition} : Turns floor c (.doWhile body condition) c body
  | forLoop {init condition increment body scope} : floor ≤ scope.index →
      Turns floor c (.forLoop init condition increment body) (.block scope .plain c) body

/-- The context of a call, given its scope. -/
def Frame.context : Frame → ScopeId → Context
  | .function closure, scope => .function scope closure
  | .method closure owner receiver, scope => .method scope closure owner receiver

/-- The expressions that a function evaluates before its first statement, as long as it is a
constructor: the defaults of its parameters and what it hands to the class above. -/
def FunctionDecl.opening (decl : FunctionDecl) : List Expr :=
  decl.parameters.filterMap (·.default) ++
    ((Evaluator.splitSuperCall decl.body).1.map (·.1)).getD []

/-- The expressions that setting up an instance of a class evaluates. -/
def Class.opening (cls : Class) : List Expr :=
  (match cls.origin with
    | .script _ (some decl) => decl.opening
    | _ => []) ++ cls.instanceFields.filterMap (·.initializer)

/-- The accessors behind a member. -/
def Member.accessors : Member → List Method
  | .method _ => []
  | .property getter setter => getter.toList ++ setter.toList
  | .indexer getter setter => getter.toList ++ setter.toList

/-! ## Classes that are declared -/

namespace Draft

/-- The draft of a class without members. -/
def start (decl : ClassDecl) (parent : Option ClassId) (c : Context) : Draft :=
  { partialClass := ⟨decl.name, parent, .script c none, {}, {}, [], {}⟩ }

/-- The draft of a class with all its members. -/
def ofDecl (decl : ClassDecl) (parent : Option ClassId) (c : Context) : Except Cause Draft :=
  decl.members.foldlM add (start decl parent c)

end Draft

/-! ## Tasks -/

namespace Task

/-- The context from which a task looks for members and calls functions. -/
def home : Task → Option Context
  | .evaluate c _ => some c
  | .assign c _ _ => some c
  | .call c _ _ => some c
  | .getMember c _ _ => some c
  | _ => none

/-- The context in which a task is performed, unless it makes one of its own. -/
def context? : Task → Option Context
  | .evaluate c _ | .assign c _ _ | .execute c _ | .sequence c _ | .call c _ _ | .setUp c _ _ _
  | .getMember c _ _ => some c
  | .host _ request => some request.context
  | .invoke _ _ _ => none

/-- The values that a task is given. -/
def values : Task → List Value
  | .evaluate c _ => c.this.toList
  | .assign _ _ value => [value]
  | .call _ callee args => callee :: args
  | .invoke _ _ args => args
  | .host _ request => request.values
  | .setUp _ _ _ args => args
  | .getMember _ v _ => [v]
  | _ => []

/-- The expressions that a step evaluates, each in its context.  The initial values of the fields of a
class itself are left out. -/
inductive Evaluates : Task → State → Context → Expr → Prop
  | operand {c e e' s₀} : e' ∈ e.form.parts → Evaluates (.evaluate c e) s₀ c e'
  | target {c e e' value s₀} : e' ∈ e.form.parts → Evaluates (.assign c e value) s₀ c e'
  | inStatement {c st e s₀} : e ∈ st.form.parts → Evaluates (.execute c st) s₀ c e
  | inLoop {c st init condition increment body e scope s₀} :
      st.form = .forLoop init condition increment body → e ∈ condition.toList ++ increment →
      s₀.scopes.size ≤ scope.index → Evaluates (.execute c st) s₀ (.block scope .plain c) e
  | default {frame decl args p e s₀} : p ∈ decl.parameters → p.default = some e →
      Evaluates (.invoke frame decl args) s₀ (frame.context ⟨s₀.scopes.size⟩) e
  | opening {c id i args cls closure constructor e s₀} : s₀.registry.get? id = some cls →
      cls.origin = .script closure constructor → e ∈ cls.opening →
      Evaluates (.setUp c id i args) s₀
        (.method ⟨s₀.scopes.size⟩ closure id (some (.instanceRef i))) e

/-- The targets to which a step assigns. -/
inductive Assigns : Task → Context → Expr → Prop
  | operand {c e e'} : e' ∈ e.form.parts → Assigns (.evaluate c e) c e'
  | element {c e e' value} : e' ∈ e.form.parts → Assigns (.assign c e value) c e'

/-- The functions that a step makes. -/
inductive MakesFunction : Task → Context → FunctionDecl → Prop
  | expression {c e decl} : e.form = .function decl → MakesFunction (.evaluate c e) c decl
  | statement {c st decl} : st.form = .function decl → MakesFunction (.execute c st) c decl

/-- The classes that a step makes. -/
inductive MakesClass : Task → Context → ClassDecl → Prop
  | expression {c e decl} : e.form = .classDecl decl → MakesClass (.evaluate c e) c decl
  | statement {c st decl} : st.form = .classDecl decl → MakesClass (.execute c st) c decl

/-- The contexts in which a step makes instances. -/
inductive Constructs : Task → Context → Prop
  | expression {c e target arguments} : e.form = .new target arguments →
      Constructs (.evaluate c e) c
  | host {f request} : f.Constructs → Constructs (.host f request) request.context

section Contexts

variable {t : Task} {c : Context}

lemma context?_of_home (h : t.home = some c) : t.context? = some c := by
  cases t with
  | evaluate | assign | call | getMember => exact h
  | _ => cases h

lemma Assigns.context?_eq {e : Expr} (h : t.Assigns c e) : t.context? = some c := by
  cases h <;> rfl

lemma MakesFunction.context?_eq {decl : FunctionDecl} (h : t.MakesFunction c decl) :
    t.context? = some c := by
  cases h <;> rfl

lemma Constructs.context?_eq (h : t.Constructs c) : t.context? = some c := by
  cases h <;> rfl

end Contexts

end Task

/-! ## Members -/

/-- From where the members of `super` are looked for, in code below the class `parent`. -/
def Context.superTarget (c : Context) (parent : ClassId) : Target :=
  match c.this with
  | some (.instanceRef id) => ⟨parent, .ofInstance, some (.instanceRef id)⟩
  | _ => ⟨parent, .ofClass, none⟩

/-- The class for which code in a context looks for members. -/
inductive Context.Caller (c : Context) (s : State) : Option (ClassId × String) → Prop
  | outside : c.owner = none → Caller c s none
  | inside {id cls} : c.owner = some id → s.registry.get? id = some cls →
      Caller c s (some (id, cls.name))

variable (V : Value → Prop) (c : Context) (s : State)

/-- From where code in a context can look for members. -/
inductive Target.Open : Target → Prop
  | value {v target} : V v → Target.ofValue? s.heap v = some target → Open target
  | super {owner cls parent} : c.owner = some owner → s.registry.get? owner = some cls →
      cls.parent = some parent → Open (c.superTarget parent)

/-- Code in a context finds something under a name. -/
structure Sees (target : Target) (name : String) (found : Registry.Found) : Prop where
  isOpen : target.Open V c s
  search : ∃ caller, c.Caller s caller ∧
    s.registry.search caller target.side name target.start = .found found

/-- The methods that code in a context can call: one that was taken from its receiver, or an accessor of
a member that is found. -/
inductive Callable : ClassId → Method → Option Value → Prop
  | taken {id owner m receiver} : s.heap.function? id = some (.bound owner m receiver) →
      Callable owner m receiver
  | accessor {target name owner member m} : Sees V c s target name (.member owner member) →
      m ∈ member.accessors → Callable owner m target.receiver

/-- What a call leads to. -/
inductive Calls : Task → Prop
  | function {id decl closure args} : s.heap.function? id = some (.script decl closure) →
      (∀ v ∈ args, V v) → Calls (.invoke (.function closure) decl args)
  | hostFunction {id f args} : s.heap.function? id = some (.host f) → (∀ v ∈ args, V v) →
      Calls (.host f ⟨c, none, args⟩)
  | method {owner decl receiver cls closure constructor args} :
      Callable V c s owner (.script decl) receiver → s.registry.get? owner = some cls →
      cls.origin = .script closure constructor → (∀ v ∈ receiver, V v) → (∀ v ∈ args, V v) →
      Calls (.invoke (.method closure owner receiver) decl args)
  | hostMethod {owner f receiver args} : Callable V c s owner (.host f) receiver →
      (∀ v ∈ receiver, V v) → (∀ v ∈ args, V v) → Calls (.host f ⟨c, receiver, args⟩)

/-! ## Changes -/

/-- A class that a step has made: it was registered in a state that the step passed. -/
structure Made (K : State → State → Prop) (t : Task) (s : State) (c : Context) (draft : Draft)
    (id : ClassId) : Prop where
  declared : ∃ decl parent, t.MakesClass c decl ∧ Draft.ofDecl decl parent c = .ok draft
  registered : ∃ s₁, s₁.registry.get? id = some (draft.finish c) ∧ K s₁ s

/-- What a step of a task, started in the state `s₀`, can do to a later state `s`. -/
inductive Change (K : State → State → Prop) (V : Value → State → Prop) :
    Task → State → State → State → Prop
  | reserved {c body st name kind scope s₀ s} : st ∈ body → (name, kind) ∈ st.form.declared →
      (s.scopeAt c.scope).hoist (s.services.naming.keep name) kind = .ok scope →
      Change K V (.sequence c body) s₀ s (s.withScope c.scope scope)
  | labelled {c body st name scope s₀ s} : st ∈ body → st.form = .label name →
      (s.scopeAt c.scope).declareLabel name = .ok scope →
      Change K V (.sequence c body) s₀ s (s.withScope c.scope scope)
  | declared {c st name kind v s₀ s} : (name, kind) ∈ st.form.declared → V v s →
      Change K V (.execute c st) s₀ s (s.withScope c.scope
        ((s.scopeAt c.scope).declare (s.services.naming.keep name) kind v))
  | parameter {t id name v s₀ s} : t.isCall = true → id = ⟨s₀.scopes.size⟩ → V v s →
      Change K V t s₀ s
        (s.withScope id ((s.scopeAt id).declare (s.services.naming.keep name) .parameter v))
  | assigned {c e name v id scope s₀ s} : e.form = .variable name → id ∈ c.scopes →
      (s.scopeAt id).assign (s.services.naming.keep name) v = .ok (some scope) → V v s →
      Change K V (.assign c e v) s₀ s (s.withScope id scope)
  | array {t s₀ s} {items : List Value} : (∀ v ∈ items, V v s) →
      Change K V t s₀ s (s.withHeap (s.heap.addArray items.toArray).2)
  | object {t s₀ s} {properties : List (String × Value)} : (∀ p ∈ properties, V p.2 s) →
      Change K V t s₀ s (s.withHeap (s.heap.addObject (.ofList properties)).2)
  | closure {t c decl s₀ s} : t.MakesFunction c decl →
      Change K V t s₀ s (s.withHeap (s.heap.addFunction (.script decl c)).2)
  | taken {t c target name owner m s₀ s} : t.home = some c →
      Sees (V · s) c s target name (.member owner (.method m)) →
      (∀ v ∈ target.receiver, V v s) →
      Change K V t s₀ s (s.withHeap (s.heap.addFunction (.bound owner m target.receiver)).2)
  | element {t id s₀ s} {f : Array Value → Array Value} :
      (∀ items v, v ∈ f items → v ∈ items ∨ V v s) →
      Change K V t s₀ s (s.withHeap (s.heap.modifyArray id f))
  | property {t id key v s₀ s} : V v s →
      Change K V t s₀ s (s.withHeap (s.heap.setProperty id key v))
  | fieldSetUp {c id i args cls f v s₀ s} : s₀.registry.get? id = some cls →
      f ∈ cls.instanceFields → V v s →
      Change K V (.setUp c id i args) s₀ s (s.withHeap (s.heap.setField i f.key v))
  | fieldWritten {t c target name owner key i v s₀ s} : t.home = some c →
      Sees (V · s) c s target name (.field owner key) → target.receiver = some (.instanceRef i) →
      target.side = .ofInstance → V v s →
      Change K V t s₀ s (s.withHeap (s.heap.setField i key v))
  | fieldOfHost {f call i key v s₀ s} : f.Asks (.setField i key v) → V v s →
      Change K V (.host f call) s₀ s (s.withHeap (s.heap.setField i key v))
  | registered {t c decl parent draft s₀ s} : t.MakesClass c decl →
      Draft.ofDecl decl parent c = .ok draft → (∀ p ∈ parent, V (.classRef p) s) →
      Change K V t s₀ s (s.withRegistry (s.registry.insert (draft.finish c)).2)
  | staticSetUp {t c draft id key e v s₀ s} : Made K t s c draft id →
      (key, e) ∈ draft.staticInitializers → V v s →
      Change K V t s₀ s (s.withRegistry (s.registry.modify id (·.setField key v)))
  | staticWritten {t c target name owner key v s₀ s} : t.home = some c →
      Sees (V · s) c s target name (.field owner key) → target.side = .ofClass → V v s →
      Change K V t s₀ s (s.withRegistry (s.registry.modify owner (·.setField key v)))
  | printed {t line s₀ s} : Change K V t s₀ s { s with output := s.output.push line }
  | cancelled {f call s₀ s} : f.Asks .cancel →
      Change K V (.host f call) s₀ s { s with cancelled := true }
  | turned {f call s₀ s} : Change K V (.host f call) s₀ s s.turned

/-! ## Tasks to which a step leads -/

/-- The tasks to which a step of a task, started in the state `s₀`, can lead in a later state `s`, each
with the state in which it is performed. -/
inductive Lead (K : State → State → Prop) (V : Value → State → Prop) :
    Task → State → State → Task → State → Prop
  | evaluate {t c e s₀ s} : t.Evaluates s₀ c e → Lead K V t s₀ s (.evaluate c e) s
  | initializer {t c draft id key e scope s₀ s} : Made K t s c draft id →
      (key, e) ∈ draft.staticInitializers → s₀.scopes.size ≤ scope.index →
      Lead K V t s₀ s (.evaluate (.method scope c id none) e) s
  | assign {t c e v s₀ s} : t.Assigns c e → V v s → Lead K V t s₀ s (.assign c e v) s
  | branch {c st st' s₀ s} : st' ∈ st.form.branches →
      Lead K V (.execute c st) s₀ s (.execute c st') s
  | block {c st flow body scope s₀ s} : (flow, body) ∈ st.form.blocks →
      s₀.scopes.size ≤ scope.index →
      Lead K V (.execute c st) s₀ s (.sequence (.block scope flow c) body) s
  | turn {c st around body scope s₀ s} : s.stopped = false →
      st.form.Turns s₀.scopes.size c around body → s₀.scopes.size ≤ scope.index →
      Lead K V (.execute c st) s₀ s (body.turn (.block scope .loop around)) s
  | listed {c body st s₀ s} : s.stopped = false → st ∈ body →
      Lead K V (.sequence c body) s₀ s (.execute c st) s
  | called {t c t' s₀ s} : t.home = some c → Calls (V · s) c s t' → Lead K V t s₀ s t' s
  | constructed {t c id args s₀ s} : t.Constructs c → V (.classRef id) s → (∀ v ∈ args, V v s) →
      Lead K V t s₀ s (.setUp c id s.nextInstance args) (s.withInstance id)
  | body {frame decl args scope s₀ s} : s₀.scopes.size ≤ scope.index →
      Lead K V (.invoke frame decl args) s₀ s
        (.sequence (.block scope .plain (frame.context ⟨s₀.scopes.size⟩)) decl.body) s
  | parent {c id i args cls p args' s₀ s} : s₀.registry.get? id = some cls →
      cls.parent = some p → (∀ v ∈ args', V v s) →
      Lead K V (.setUp c id i args) s₀ s (.setUp c p i args') s
  | hostConstructor {c id i args cls f s₀ s} : s₀.registry.get? id = some cls →
      cls.origin = .host (some f) → (∀ v ∈ args, V v s) →
      Lead K V (.setUp c id i args) s₀ s (.host f ⟨c, some (.instanceRef i), args⟩) s
  | constructor {c id i args cls closure constructor scope rest s₀ s} :
      s₀.registry.get? id = some cls → cls.origin = .script closure constructor →
      rest <:+ (constructor.map (·.body)).getD [] → s₀.scopes.size ≤ scope.index →
      Lead K V (.setUp c id i args) s₀ s (.sequence (.block scope .plain
        (.method ⟨s₀.scopes.size⟩ closure id (some (.instanceRef i)))) rest) s
  | callBack {f call v args s₀ s} : f.Asks (.call v args) → V v s → (∀ v ∈ args, V v s) →
      Lead K V (.host f call) s₀ s (.call call.context v args) s
  | memberForHost {f call v name s₀ s} : f.Asks (.getMember v name) → V v s →
      Lead K V (.host f call) s₀ s (.getMember call.context v name) s

end ScriptLang
