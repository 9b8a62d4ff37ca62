/-
Syntax trees.

A script is a list of statements.  Expressions, statements and the members of a class know their
place in the script, which is where their faults are located.  The left side of an assignment is an
ordinary expression; whether it can be assigned to is found out when it is.
-/
import ScriptLang.Position

namespace ScriptLang

/-- A value written out in a script. -/
inductive Literal where
  | null
  | boolean (value : Bool)
  | number (value : Float)
  | text (value : String)

/-- Where an operator with one operand stands. -/
inductive Fixity where
  | before
  | after
  deriving DecidableEq, Repr

/-- Who can see a member of a class. -/
inductive Visibility where
  /-- Everyone. -/
  | isPublic
  /-- The class, its ancestors and its descendants. -/
  | isProtected
  /-- The class itself. -/
  | isPrivate
  deriving DecidableEq, Repr

mutual

/-- An expression. -/
structure Expr where
  place : Position
  form : ExprForm

/-- The forms of expressions. -/
inductive ExprForm where
  | literal (value : Literal)
  | variable (name : String)
  | this
  /-- The word `super`, which stands only before a member, an index or arguments. -/
  | super
  | member (target : Expr) (name : String)
  | index (target : Expr) (arguments : List Expr)
  | call (callee : Expr) (arguments : List Expr)
  | new (target : Expr) (arguments : List Expr)
  | unary (op : String) (fixity : Fixity) (operand : Expr)
  /-- An operator with two operands, assignment among them. -/
  | binary (op : String) (left right : Expr)
  /-- An operator with three operands, named by its two symbols with a blank in between. -/
  | ternary (op : String) (first second third : Expr)
  /-- An array, or a pattern of targets on the left of an assignment. -/
  | array (items : List Expr)
  | object (properties : List (String × Expr))
  | function (decl : FunctionDecl)
  | classDecl (decl : ClassDecl)

/-- A statement. -/
structure Stmt where
  place : Position
  form : StmtForm

/-- The forms of statements. -/
inductive StmtForm where
  | expr (e : Expr)
  /-- Variables with their initial values. -/
  | variables (declarators : List (String × Option Expr))
  | function (decl : FunctionDecl)
  | classDecl (decl : ClassDecl)
  | block (body : List Stmt)
  | ifElse (condition : Expr) (onTrue : Stmt) (onFalse : Option Stmt)
  | whileLoop (condition : Expr) (body : Stmt)
  | doWhile (body : Stmt) (condition : Expr)
  | forLoop (init : List Stmt) (condition : Option Expr) (increment : List Expr) (body : Stmt)
  | switch (discriminant : Expr) (cases : List (Expr × List Stmt)) (default : Option (List Stmt))
  | label (name : String)
  | goto (label : String)
  | breakLoop
  | continueLoop
  | returnValue (value : Option Expr)
  | empty

/-- A parameter of a function. -/
structure Parameter where
  name : String
  /-- Whether a missing argument stands for null. -/
  optional : Bool
  /-- What a missing argument stands for. -/
  default : Option Expr

/-- A function, a method or an accessor. -/
structure FunctionDecl where
  name : Option String
  parameters : List Parameter
  body : List Stmt
  place : Position

/-- One of the two accessors of a property. -/
inductive Accessor where
  /-- Reads or writes a hidden field. -/
  | auto
  | custom (decl : FunctionDecl)

/-- A member of a class. -/
structure MemberDecl where
  name : String
  visibility : Visibility
  isStatic : Bool
  form : MemberForm
  place : Position

/-- The forms of members. -/
inductive MemberForm where
  | field (initializer : Option Expr)
  | method (decl : FunctionDecl)
  | constructor (decl : FunctionDecl)
  | property (getter setter : Option Accessor) (initializer : Option Expr)
  /-- The getter takes the indices, and the setter takes them and the value. -/
  | indexer (getter setter : Option FunctionDecl)

/-- A class. -/
structure ClassDecl where
  name : String
  parent : Option Expr
  members : List MemberDecl
  place : Position

end

instance : Inhabited ExprForm := ⟨.literal .null⟩
instance : Inhabited Expr := ⟨⟨Position.start, .literal .null⟩⟩
instance : Inhabited StmtForm := ⟨.empty⟩
instance : Inhabited Stmt := ⟨⟨Position.start, .empty⟩⟩
instance : Inhabited FunctionDecl := ⟨⟨none, [], [], Position.start⟩⟩
instance : Inhabited MemberDecl := ⟨⟨"", .isPublic, false, .field none, Position.start⟩⟩
instance : Inhabited ClassDecl := ⟨⟨"", none, [], Position.start⟩⟩

/-- Whether an expression is the word `super`. -/
def Expr.isSuper (e : Expr) : Bool :=
  match e.form with
  | .super => true
  | _ => false

/-- The arguments, if the statement is a call of `super`. -/
def Stmt.superCall? (s : Stmt) : Option (List Expr) :=
  match s.form with
  | .expr ⟨_, .call callee arguments⟩ => if callee.isSuper then some arguments else none
  | _ => none

namespace FunctionDecl

/-- The name of a function in texts. -/
def displayName (f : FunctionDecl) : String := f.name.getD "<anonymous>"

/-- How many arguments a caller has to give. -/
def required (f : FunctionDecl) : Nat :=
  (f.parameters.filter fun p => !p.optional && p.default.isNone).length

/-- The numbers of arguments that a function takes, as a text. -/
def arityText (f : FunctionDecl) : String :=
  let total := f.parameters.length
  if f.required = total then toString total else toString f.required ++ " to " ++ toString total

end FunctionDecl

end ScriptLang
