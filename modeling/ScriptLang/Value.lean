/-
Values.

A value is null, a truth value, a number, a text, or a reference to an array, an object, a function,
a class or an instance of a class.  References are numbers: what stands behind them is kept by the
interpreter.  Two references are equal when they refer to the same thing.
-/

namespace ScriptLang

/-- The number of a class. -/
structure ClassId where
  index : Nat
  deriving DecidableEq, Repr

/-- The number of an array. -/
structure ArrayId where
  index : Nat
  deriving DecidableEq, Repr

/-- The number of an object. -/
structure ObjectId where
  index : Nat
  deriving DecidableEq, Repr

/-- The number of a function. -/
structure FunctionId where
  index : Nat
  deriving DecidableEq, Repr

/-- The number of an instance. -/
structure InstanceId where
  index : Nat
  deriving DecidableEq, Repr

/-- A value of a script. -/
inductive Value where
  | null
  | boolean (value : Bool)
  | number (value : Float)
  | text (value : String)
  | array (id : ArrayId)
  | object (id : ObjectId)
  | function (id : FunctionId)
  | classRef (id : ClassId)
  | instanceRef (id : InstanceId)
  deriving Inhabited

namespace Value

/-- The name of a value's type. -/
def typeName : Value → String
  | .null => "null"
  | .boolean _ => "boolean"
  | .number _ => "number"
  | .text _ => "string"
  | .array _ => "array"
  | .object _ => "object"
  | .function _ => "function"
  | .classRef _ => "class"
  | .instanceRef _ => "instance"

/-- Whether a value is null. -/
def isNull : Value → Bool
  | .null => true
  | _ => false

/-- Whether a value counts as true. -/
def isTruthy : Value → Bool
  | .null => false
  | .boolean b => b
  | .number n => n != 0 && !n.isNaN
  | .text s => !s.isEmpty
  | _ => true

/-- The number that a value is. -/
def number? : Value → Option Float
  | .number n => some n
  | _ => none

/-- The text that a value is. -/
def text? : Value → Option String
  | .text s => some s
  | _ => none

/-- Equality without conversion.  A number that is not one differs from itself. -/
def equals : Value → Value → Bool
  | .null, .null => true
  | .boolean a, .boolean b => a == b
  | .number a, .number b => a == b
  | .text a, .text b => a == b
  | .array a, .array b => a == b
  | .object a, .object b => a == b
  | .function a, .function b => a == b
  | .classRef a, .classRef b => a == b
  | .instanceRef a, .instanceRef b => a == b
  | _, _ => false

/-- The text of one character. -/
def ofChar (c : Char) : Value := .text (String.singleton c)

/-- A number of things. -/
def ofNat (n : Nat) : Value := .number (Float.ofNat n)

end Value

end ScriptLang
