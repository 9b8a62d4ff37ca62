/-
Operators.

An operator has a symbol and a meaning, and an operator table says which symbol has which one.  Some
operators work on the values of their operands.  Others decide themselves which operands they evaluate,
or assign to an operand.  A host can add operators with meanings of its own.
-/
import ScriptLang.Fault
import ScriptLang.Heap

namespace ScriptLang

/-- Operators that compute a value from two values. -/
inductive Arithmetic where
  | add
  | subtract
  | multiply
  | divide
  | remainder
  | bitAnd
  | bitOr
  | bitXor
  | shiftLeft
  | shiftRight
  deriving DecidableEq, Repr

/-- Operators that compare two numbers. -/
inductive Comparison where
  | less
  | greater
  | lessOrEqual
  | greaterOrEqual
  deriving DecidableEq, Repr

/-- Operators that may do without their right operand. -/
inductive ShortCircuit where
  /-- The right operand counts if the left one is true. -/
  | and
  /-- The right operand counts if the left one is false. -/
  | or
  /-- The right operand counts if the left one is null. -/
  | orElse
  deriving DecidableEq, Repr

/-- What an operator of the host does with its operands.  It evaluates them or assigns to them, as often
and in the order it likes, until it gives a value or fails. -/
inductive OperatorCode (operands : Nat) where
  /-- Gives a value. -/
  | give (value : Value)
  /-- Fails.  Only the interpreter can say that a script was cancelled or that there are too many calls. -/
  | fail (cause : Cause) (ordinary : cause.Ordinary)
  /-- Evaluates an operand and goes on with its value. -/
  | evaluate (operand : Fin operands) (next : Value → OperatorCode operands)
  /-- Assigns a value to an operand and goes on. -/
  | assign (operand : Fin operands) (value : Value) (next : OperatorCode operands)
  /-- Makes an array and goes on with it. -/
  | newArray (items : List Value) (next : Value → OperatorCode operands)
  /-- Makes an object, in which later properties win, and goes on with it. -/
  | newObject (properties : List (String × Value)) (next : Value → OperatorCode operands)
  /-- Goes on with the text of a value. -/
  | display (value : Value) (next : String → OperatorCode operands)

/-- The meaning of an operator before its operand. -/
inductive PreOperator where
  | negate
  | plus
  | not
  | complement
  /-- Raises its operand by one and gives the new value. -/
  | increment
  /-- Lowers its operand by one and gives the new value. -/
  | decrement
  | ofHost (code : OperatorCode 1)

/-- The meaning of an operator after its operand. -/
inductive PostOperator where
  /-- Raises its operand by one and gives the old value. -/
  | increment
  /-- Lowers its operand by one and gives the old value. -/
  | decrement
  | ofHost (code : OperatorCode 1)

/-- The meaning of an operator between two operands. -/
inductive BinaryOperator where
  | arithmetic (op : Arithmetic)
  /-- Computes with the left operand and assigns the result to it. -/
  | arithmeticAssign (op : Arithmetic)
  | comparison (op : Comparison)
  | equal
  | notEqual
  | assign
  | shortCircuit (op : ShortCircuit)
  /-- Assigns the right operand to the left one if it counts. -/
  | shortCircuitAssign (op : ShortCircuit)
  | ofHost (code : OperatorCode 2)

/-- The meaning of an operator with three operands. -/
inductive TernaryOperator where
  /-- Gives the second or the third operand, as the first one says. -/
  | conditional
  | ofHost (code : OperatorCode 3)

/-- The symbol of an operator in faults. -/
def Arithmetic.symbol : Arithmetic → String
  | .add => "+"
  | .subtract => "-"
  | .multiply => "*"
  | .divide => "/"
  | .remainder => "%"
  | .bitAnd => "&"
  | .bitOr => "|"
  | .bitXor => "^"
  | .shiftLeft => "<<"
  | .shiftRight => ">>"

/-- All the operators that compute. -/
def Arithmetic.all : List Arithmetic :=
  [.add, .subtract, .multiply, .divide, .remainder, .bitAnd, .bitOr, .bitXor, .shiftLeft,
    .shiftRight]

/-- The symbol of an operator in faults. -/
def Comparison.symbol : Comparison → String
  | .less => "<"
  | .greater => ">"
  | .lessOrEqual => "<="
  | .greaterOrEqual => ">="

/-- All the operators that compare. -/
def Comparison.all : List Comparison := [.less, .greater, .lessOrEqual, .greaterOrEqual]

/-- Whether the right operand counts, given the left one. -/
def ShortCircuit.needsRight : ShortCircuit → Value → Bool
  | .and, left => left.isTruthy
  | .or, left => !left.isTruthy
  | .orElse, left => left.isNull

/-! ## Computing with values -/

/-- How far a word is shifted: by the low five bits of the right operand. -/
def shiftAmount (w : Int32) : Int32 := w &&& 31

/-- Computes with two numbers. -/
def Arithmetic.compute : Arithmetic → Float → Float → Float
  | .add, a, b => a + b
  | .subtract, a, b => a - b
  | .multiply, a, b => a * b
  | .divide, a, b => a / b
  | .remainder, a, b => Number.remainder a b
  | .bitAnd, a, b => Number.ofWord (Number.toWord a &&& Number.toWord b)
  | .bitOr, a, b => Number.ofWord (Number.toWord a ||| Number.toWord b)
  | .bitXor, a, b => Number.ofWord (Number.toWord a ^^^ Number.toWord b)
  | .shiftLeft, a, b => Number.ofWord (Number.toWord a <<< shiftAmount (Number.toWord b))
  | .shiftRight, a, b => Number.ofWord (Number.toWord a >>> shiftAmount (Number.toWord b))

/-- The cause of a fault for an operand of the wrong type. -/
def unaryNotSupported (op : String) (v : Value) : Cause := .operatorNotSupported op v.typeName

/-- The cause of a fault for two operands of the wrong types. -/
def notSupported (op : String) (left right : Value) : Cause :=
  .operatorNotSupported op (left.typeName ++ " and " ++ right.typeName)

/-- Whether a value is a text. -/
def Value.isText (v : Value) : Bool := v.text?.isSome

/-- Computes with two values.  Adding to a text joins texts. -/
def Arithmetic.apply (op : Arithmetic) (h : Heap) (left right : Value) : Except Cause Value :=
  if op = .add && (left.isText || right.isText) then
    .ok (.text (h.display left ++ h.display right))
  else
    match left, right with
    | .number a, .number b => .ok (.number (op.compute a b))
    | _, _ => .error (notSupported op.symbol left right)

/-- Compares two numbers. -/
def Comparison.holds : Comparison → Float → Float → Bool
  | .less, a, b => a < b
  | .greater, a, b => b < a
  | .lessOrEqual, a, b => a ≤ b
  | .greaterOrEqual, a, b => b ≤ a

/-- Compares two values. -/
def Comparison.apply (op : Comparison) (left right : Value) : Except Cause Value :=
  match left, right with
  | .number a, .number b => .ok (.boolean (op.holds a b))
  | _, _ => .error (notSupported op.symbol left right)

/-! ## Tables -/

/-- Which symbol has which meaning. -/
structure OperatorTable where
  pre : Table PreOperator := {}
  post : Table PostOperator := {}
  binary : Table BinaryOperator := {}
  ternary : Table TernaryOperator := {}

namespace OperatorTable

/-- The table without operators. -/
def empty : OperatorTable := {}

/-- The operators of the scripting language. -/
def standard : OperatorTable where
  pre := .ofList
    [ ("-", .negate), ("+", .plus), ("!", .not), ("~", .complement), ("++", .increment),
      ("--", .decrement) ]
  post := .ofList [("++", .increment), ("--", .decrement)]
  binary := .ofList
    (Arithmetic.all.map (fun op => (op.symbol, .arithmetic op)) ++
      Arithmetic.all.map (fun op => (op.symbol ++ "=", .arithmeticAssign op)) ++
      Comparison.all.map (fun op => (op.symbol, .comparison op)) ++
      [ ("==", .equal), ("===", .equal), ("!=", .notEqual), ("!==", .notEqual), ("=", .assign),
        ("&&", .shortCircuit .and), ("||", .shortCircuit .or), ("??", .shortCircuit .orElse),
        ("&&=", .shortCircuitAssign .and), ("||=", .shortCircuitAssign .or),
        ("??=", .shortCircuitAssign .orElse) ])
  ternary := .ofList [("? :", .conditional)]

end OperatorTable

end ScriptLang
