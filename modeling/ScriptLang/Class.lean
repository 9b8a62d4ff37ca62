/-
Classes.

A class has members and fields on two sides: those of its instances and those of the class itself.
Members and fields stand under keys that tell who can see them: a public name stands for itself, a
protected one is marked, and a private one carries the name of its class.
-/
import ScriptLang.Context
import ScriptLang.Host
import ScriptLang.Syntax.Build

namespace ScriptLang

/-- A method or an accessor. -/
inductive Method where
  | script (decl : FunctionDecl)
  | host (function : HostFunction)

namespace Method

/-- The name of a method. -/
def name : Method → String
  | .script decl => decl.displayName
  | .host function => function.name

/-- A method as a text for inspection. -/
def inspect (m : Method) : String := "MethodImpl(" ++ m.name ++ ")"

end Method

/-- What a class holds under a key, apart from fields. -/
inductive Member where
  | method (method : Method)
  | property (getter setter : Option Method)
  | indexer (getter setter : Option Method)

/-- Whether a member is an indexer. -/
def Member.isIndexer : Member → Bool
  | .indexer _ _ => true
  | _ => false

/-- A field of the instances of a class. -/
structure Field where
  key : String
  initializer : Option Expr

/-- One of the two sides of a class. -/
inductive Side where
  /-- What its instances have. -/
  | ofInstance
  /-- What the class itself has. -/
  | ofClass
  deriving DecidableEq, Repr

/-- The side on which a member is declared. -/
def Side.ofStatic (isStatic : Bool) : Side := if isStatic then .ofClass else .ofInstance

/-- Where a class comes from. -/
inductive Origin where
  /-- It was declared in a script, and its methods run in the context of its declaration. -/
  | script (closure : Context) (constructor : Option FunctionDecl)
  /-- It was declared by the host. -/
  | host (constructor : Option HostFunction)

/-- A class. -/
structure Class where
  name : String
  parent : Option ClassId
  origin : Origin
  instanceMembers : Table Member := {}
  staticMembers : Table Member := {}
  instanceFields : List Field := []
  staticFields : Table Value := {}

namespace Class

/-- The key of a member or field. -/
def key (visibility : Visibility) (className name : String) : String :=
  match visibility with
  | .isPublic => name
  | .isProtected => "#" ++ name
  | .isPrivate => className ++ "::" ++ name

/-- The name of the hidden field of a property. -/
def hiddenName (property : String) : String := "<" ++ property ++ ">"

/-- The members on one side. -/
def members (c : Class) : Side → Table Member
  | .ofInstance => c.instanceMembers
  | .ofClass => c.staticMembers

/-- Whether there is a field under a key. -/
def hasField (c : Class) (side : Side) (key : String) : Bool :=
  match side with
  | .ofInstance => c.instanceFields.any (·.key == key)
  | .ofClass => c.staticFields.contains key

/-- Adds a member, instead of the one under the same key. -/
def addMember (c : Class) (side : Side) (key : String) (member : Member) : Class :=
  match side with
  | .ofInstance => { c with instanceMembers := c.instanceMembers.insert key member }
  | .ofClass => { c with staticMembers := c.staticMembers.insert key member }

/-- Sets a field of the class itself. -/
def setField (c : Class) (key : String) (value : Value) : Class :=
  { c with staticFields := c.staticFields.insert key value }

/-- A class as a text for inspection. -/
def inspect (c : Class) (id : ClassId) : String :=
  let parent :=
    match c.parent with
    | none => "None"
    | some p => "Some(ClassId(" ++ toString p.index ++ "))"
  "ClassObject \x7b id: ClassId(" ++ toString id.index ++ "), name: " ++ Text.quoted c.name ++
    ", super_class: " ++ parent ++ " \x7d"

end Class

end ScriptLang
