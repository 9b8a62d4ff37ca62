/-
The options of an interpreter.

Five options govern a run: the name of the interpreter, how deeply calls may nest, whether a run can
be cancelled, whether a script may return at its top level, and whether statements are traced.
-/

namespace ScriptLang

/-- The options of an interpreter. -/
structure Config where
  /-- The name of the interpreter. -/
  name : String := "tarn"
  /-- How many calls may be active at once. -/
  maxCallDepth : Nat := 256
  /-- Whether the cancellation mark is looked at before each statement. -/
  checkCancellation : Bool := true
  /-- Whether a script may return at its top level. -/
  topLevelReturn : Bool := true
  /-- Whether every executed statement is traced. -/
  traceStatements : Bool := false
  deriving DecidableEq, Repr, Inhabited

namespace Config

/-- How much an event matters. -/
inductive Level where
  | info
  | warn
  | debug
  deriving DecidableEq, Repr

/-- A line for the log. -/
structure Event where
  level : Level
  message : String
  deriving DecidableEq, Repr

/-- The options as lines for the log. -/
def summary (c : Config) : List Event :=
  [ "Interpreter configuration:",
    "    Name: " ++ c.name,
    "    Max Call Depth: " ++ toString c.maxCallDepth,
    "    Check Cancellation: " ++ toString c.checkCancellation,
    "    Top-Level Return: " ++ toString c.topLevelReturn,
    "    Trace Statements: " ++ toString c.traceStatements ].map (Event.mk .info)

end Config

end ScriptLang
