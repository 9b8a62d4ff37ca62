/-
Classes that are being declared.

The members of a declaration are added one after the other.  No two members or fields of one side may
have the same key, there is one constructor, and each side has at most one indexer.  A property with
automatic accessors gets a hidden private field, and accessors that read and write it through `this`.
-/
import ScriptLang.Class

namespace ScriptLang

/-- A class that is being declared. -/
structure Draft where
  /-- The class as far as it is declared, without its constructor. -/
  partialClass : Class
  constructor : Option FunctionDecl := none
  /-- The initial values of fields of the class itself. -/
  staticInitializers : List (String × Expr) := []

namespace Draft

/-- The name of the class. -/
def name (d : Draft) : String := d.partialClass.name

/-- Fails if a key is taken. -/
def ensureFree (d : Draft) (side : Side) (key name : String) : Except Cause Unit :=
  if (d.partialClass.members side).contains key || d.partialClass.hasField side key then
    .error (.duplicateMember d.name name)
  else .ok ()

/-- Adds a field. -/
def addField (d : Draft) (side : Side) (key : String) (initializer : Option Expr) : Draft :=
  let c := d.partialClass
  match side with
  | .ofInstance =>
    { d with
      partialClass := { c with instanceFields := c.instanceFields ++ [⟨key, initializer⟩] } }
  | .ofClass =>
    { d with
      partialClass := c.setField key .null
      staticInitializers := d.staticInitializers ++ (initializer.map (key, ·)).toList }

/-- Adds a member. -/
def addMember (d : Draft) (side : Side) (key : String) (member : Member) : Draft :=
  { d with partialClass := d.partialClass.addMember side key member }

/-- The getter of a hidden field. -/
def autoGetter (m : MemberDecl) : FunctionDecl :=
  let read := Expr.ofThis (Class.hiddenName m.name)
  ⟨some m.name, [], [⟨m.place, .returnValue (some read)⟩], m.place⟩

/-- The setter of a hidden field. -/
def autoSetter (m : MemberDecl) : FunctionDecl :=
  let write := Expr.assign (.ofThis (Class.hiddenName m.name)) (.ofForm (.variable "value"))
  ⟨some m.name, [.value], [⟨m.place, .expr write⟩], m.place⟩

/-- The method for an accessor. -/
def accessor (auto : FunctionDecl) : Accessor → Method
  | .auto => .script auto
  | .custom decl => .script decl

/-- Whether an accessor is automatic. -/
def isAuto : Option Accessor → Bool
  | some .auto => true
  | _ => false

/-- Adds the field behind a property, if it has one.  Only then can it have an initial value. -/
def addHiddenField (d : Draft) (m : MemberDecl) (getter setter : Option Accessor)
    (initializer : Option Expr) : Except Cause Draft := do
  let side := Side.ofStatic m.isStatic
  if isAuto getter || isAuto setter then
    let hidden := Class.hiddenName m.name
    let key := Class.key .isPrivate d.name hidden
    d.ensureFree side key hidden
    return d.addField side key initializer
  else if initializer.isSome then
    throw (.typeMismatch
      ("property '" ++ m.name ++ "' has accessor bodies and cannot take an initializer"))
  else return d

/-- Adds what a member of a declaration declares. -/
def add (d : Draft) (m : MemberDecl) : Except Cause Draft := do
  let side := Side.ofStatic m.isStatic
  let key := Class.key m.visibility d.name m.name
  match m.form with
  | .field initializer =>
    d.ensureFree side key m.name
    return d.addField side key initializer
  | .method decl =>
    d.ensureFree side key m.name
    return d.addMember side key (.method (.script decl))
  | .constructor decl =>
    if m.isStatic || d.constructor.isSome then throw (.duplicateMember d.name "constructor")
    return { d with constructor := some decl }
  | .property getter setter initializer =>
    d.ensureFree side key m.name
    let d ← d.addHiddenField m getter setter initializer
    return d.addMember side key
      (.property (getter.map (accessor (autoGetter m))) (setter.map (accessor (autoSetter m))))
  | .indexer getter setter =>
    if (d.partialClass.members side).entries.any (·.2.isIndexer) then
      throw (.duplicateIndexer d.name)
    return d.addMember side (Class.key m.visibility d.name MemberDecl.indexerName)
      (.indexer (getter.map .script) (setter.map .script))

/-- The finished class. -/
def finish (d : Draft) (closure : Context) : Class :=
  { d.partialClass with origin := .script closure d.constructor }

end Draft

end ScriptLang
