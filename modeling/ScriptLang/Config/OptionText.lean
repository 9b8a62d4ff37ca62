/-
Options as text.

An option text has one option a line, a key and a value with an equals sign between them.  Blank
lines and lines that start with a hash are skipped.  Nothing in such a text is an error: a line
without an equals sign and an unknown key are passed over, and a value that cannot be read stands
for the default of its option.  What was passed over is told to the log.
-/
import ScriptLang.Config
import ScriptLang.Text.Blank
import ScriptLang.Text.Quoted

namespace ScriptLang.Config

/-- What one line of an option text says. -/
inductive Line where
  /-- Nothing: it is blank or a comment. -/
  | skipped
  /-- It has no equals sign. -/
  | malformed (text : String)
  /-- A key and a value. -/
  | option (key value : String)
  deriving DecidableEq, Repr

/-- Reads one line. -/
def Line.ofText (cs : List Char) : Line :=
  let cs := Text.trim cs
  if cs.isEmpty || cs.head? == some '#' then .skipped
  else
    match Text.cutAt? '=' cs with
    | none => .malformed (String.ofList cs)
    | some (key, value) =>
      .option (String.ofList (Text.trim key)) (String.ofList (Text.trim value))

/-- The largest number that an option can hold. -/
def maxNumber : Nat := Nat.pow 2 64 - 1

/-- Reads a number: ASCII digits, perhaps after a plus sign. -/
def number? (s : String) : Option Nat :=
  let digits :=
    match s.toList with
    | '+' :: cs => cs
    | cs => cs
  (Text.decimal? digits).filter (· ≤ maxNumber)

/-- Reads one of the words `true` and `false`. -/
def boolean? (s : String) : Option Bool :=
  if s = "true" then some true else if s = "false" then some false else none

/-- The log line for a value that cannot be read. -/
def invalidValue (key value : String) : Event :=
  ⟨.warn, "Invalid value for " ++ key ++ ": " ++ Text.quoted value ++ ", using default"⟩

/-- The options after one line. -/
def apply (c : Config) : Line → Config
  | .skipped => c
  | .malformed _ => c
  | .option key value =>
    match key with
    | "name" => { c with name := value }
    | "maxcalldepth" => { c with maxCallDepth := (number? value).getD 256 }
    | "checkcancellation" => { c with checkCancellation := (boolean? value).getD true }
    | "toplevelreturn" => { c with topLevelReturn := (boolean? value).getD true }
    | "tracestatements" => { c with traceStatements := (boolean? value).getD false }
    | _ => c

/-- The log lines for one line. -/
def Line.events : Line → List Event
  | .skipped => []
  | .malformed text => [⟨.warn, "Ignoring malformed option line: " ++ text⟩]
  | .option key value =>
    match key with
    | "name" => []
    | "maxcalldepth" => if (number? value).isSome then [] else [invalidValue key value]
    | "checkcancellation" | "toplevelreturn" | "tracestatements" =>
      if (boolean? value).isSome then [] else [invalidValue key value]
    | _ => [⟨.debug, "Unknown config option: " ++ key ++ " = " ++ value⟩]

/-- The lines of an option text. -/
def linesOf (text : String) : List Line := (Text.lines text.toList).map Line.ofText

/-- Reads an option text. -/
def ofText (text : String) : Config := (linesOf text).foldl apply {}

/-- What reading an option text tells to the log. -/
def eventsOf (text : String) : List Event := (linesOf text).flatMap Line.events

/-- Reads an option text from the bytes of a file, which have to be valid UTF-8. -/
def ofBytes? (bytes : ByteArray) : Option Config := (String.fromUTF8? bytes).map ofText

end ScriptLang.Config
