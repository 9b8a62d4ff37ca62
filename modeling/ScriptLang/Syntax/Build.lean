/-
Building syntax trees.

These functions make the parts of a syntax tree that have no place of their own in a script.  They
stand at the start of the script.
-/
import ScriptLang.Syntax

namespace ScriptLang

namespace Expr

/-- An expression at the start of the script. -/
def ofForm (form : ExprForm) : Expr := ⟨Position.start, form⟩

/-- A member of `this`. -/
def ofThis (name : String) : Expr := ofForm (.member (ofForm .this) name)

/-- An assignment. -/
def assign (target value : Expr) : Expr := ofForm (.binary "=" target value)

end Expr

/-- A parameter that a caller has to give. -/
def Parameter.ofName (name : String) : Parameter := ⟨name, false, none⟩

/-- The parameter through which a setter gets the value. -/
def Parameter.value : Parameter := Parameter.ofName "value"

/-- A function with a name. -/
def FunctionDecl.named (name : String) (parameters : List Parameter) (body : List Stmt) :
    FunctionDecl :=
  ⟨some name, parameters, body, Position.start⟩

namespace MemberDecl

/-- The name of every indexer. -/
def indexerName : String := "[]"

/-- A field. -/
def field (visibility : Visibility) (isStatic : Bool) (name : String) (initializer : Option Expr) :
    MemberDecl :=
  ⟨name, visibility, isStatic, .field initializer, Position.start⟩

/-- A method. -/
def method (visibility : Visibility) (isStatic : Bool) (name : String)
    (parameters : List Parameter) (body : List Stmt) : MemberDecl :=
  ⟨name, visibility, isStatic, .method (.named name parameters body), Position.start⟩

/-- A constructor. -/
def constructor (parameters : List Parameter) (body : List Stmt) : MemberDecl :=
  ⟨"constructor", .isPublic, false, .constructor (.named "constructor" parameters body),
    Position.start⟩

/-- A property with accessors of its own. -/
def property (visibility : Visibility) (name : String) (getter setter : Option (List Stmt)) :
    MemberDecl :=
  let getter := getter.map fun body => Accessor.custom (.named name [] body)
  let setter := setter.map fun body => Accessor.custom (.named name [.value] body)
  ⟨name, visibility, false, .property getter setter none, Position.start⟩

/-- A property whose accessors read and write a hidden field. -/
def autoProperty (visibility : Visibility) (isStatic : Bool) (name : String) (writable : Bool)
    (initializer : Option Expr) : MemberDecl :=
  let setter := if writable then some Accessor.auto else none
  ⟨name, visibility, isStatic, .property (some .auto) setter initializer, Position.start⟩

/-- An indexer. -/
def indexer (visibility : Visibility) (parameters : List Parameter)
    (getter setter : Option (List Stmt)) : MemberDecl :=
  let getter := getter.map fun body => FunctionDecl.named indexerName parameters body
  let setter := setter.map fun body => FunctionDecl.named indexerName (parameters ++ [.value]) body
  ⟨indexerName, visibility, false, .indexer getter setter, Position.start⟩

end MemberDecl

end ScriptLang
