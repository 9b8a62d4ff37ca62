/-
Scopes: the names of one block.

A name is bound in two steps.  When a list of statements starts, all the names that it declares are
reserved; each gets its value when its own statement runs.  In between the name is known but cannot
be used.  Functions and classes keep the value that they were declared with.  A scope also knows the
labels of its statements.
-/
import ScriptLang.Fault
import ScriptLang.Table
import ScriptLang.Value

namespace ScriptLang

/-- The number of a scope. -/
structure ScopeId where
  index : Nat
  deriving DecidableEq, Repr

/-- What declared a name. -/
inductive BindingKind where
  | variable
  | parameter
  | function
  | classDecl
  deriving DecidableEq, Repr

/-- Whether the value under a name can be replaced. -/
def BindingKind.isMutable : BindingKind → Bool
  | .variable | .parameter => true
  | .function | .classDecl => false

/-- What a scope holds under a name. -/
structure Binding where
  kind : BindingKind
  /-- The value, once the declaration has run. -/
  value : Option Value

/-- What looking for a name in one scope gives. -/
inductive Lookup where
  | missing
  | unassigned
  | found (value : Value)

/-- The names and labels of one block. -/
structure Scope where
  bindings : Table Binding := {}
  labels : List String := []
  deriving Inhabited

namespace Scope

/-- Reserves a name. -/
def hoist (s : Scope) (name : String) (kind : BindingKind) : Except Cause Scope :=
  if s.bindings.contains name then .error (.alreadyDeclared name)
  else .ok { s with bindings := s.bindings.insert name ⟨kind, none⟩ }

/-- Gives a name its value, whether it was reserved or not. -/
def declare (s : Scope) (name : String) (kind : BindingKind) (value : Value) : Scope :=
  { s with bindings := s.bindings.insert name ⟨kind, some value⟩ }

/-- Looks for a name. -/
def lookup (s : Scope) (name : String) : Lookup :=
  match s.bindings.get? name with
  | none => .missing
  | some ⟨_, none⟩ => .unassigned
  | some ⟨_, some value⟩ => .found value

/-- Replaces the value under a name.  The result is absent if the scope does not have the name. -/
def assign (s : Scope) (name : String) (value : Value) : Except Cause (Option Scope) :=
  match s.bindings.get? name with
  | none => .ok none
  | some ⟨_, none⟩ => .error (.unassigned name)
  | some ⟨kind, some _⟩ =>
    if kind.isMutable then .ok (some (s.declare name kind value)) else .error (.constantBinding name)

/-- Declares a label. -/
def declareLabel (s : Scope) (label : String) : Except Cause Scope :=
  if s.labels.contains label then .error (.duplicateLabel label)
  else .ok { s with labels := label :: s.labels }

@[simp]
theorem lookup_declare_self (s : Scope) (name : String) (kind : BindingKind) (value : Value) :
    (s.declare name kind value).lookup name = .found value := by
  simp [lookup, declare]

/-- A name can be reserved exactly if the scope does not have it yet. -/
theorem hoist_eq_error_iff (s : Scope) (name : String) (kind : BindingKind) (cause : Cause) :
    s.hoist name kind = .error cause ↔
      s.bindings.contains name = true ∧ cause = .alreadyDeclared name := by
  by_cases h : s.bindings.contains name = true
  · simp only [hoist, h, if_true, Except.error.injEq, true_and]
    exact eq_comm
  · simp [hoist, h]

end Scope

end ScriptLang
