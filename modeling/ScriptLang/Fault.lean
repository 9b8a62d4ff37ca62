/-
Faults: how a script can fail.

A cause says what went wrong, and a fault is a cause together with the place in the script where it
went wrong.  The place is that of the innermost part of the script that was running, so a fault that
has a place keeps it.  Cancellation comes from outside of the script and never has a place.
-/
import ScriptLang.Number.Text
import ScriptLang.Stream.Reader

namespace ScriptLang

/-- What went wrong. -/
inductive Cause where
  | undefined (name : String)
  | unassigned (name : String)
  | alreadyDeclared (name : String)
  | constantBinding (name : String)
  | duplicateLabel (label : String)
  | labelNotFound (label : String)
  | misplacedBreak
  | misplacedContinue
  | misplacedReturn
  | arityMismatch (name expected : String) (got : Nat)
  | operatorNotSupported (op operands : String)
  | unknownOperator (op : String)
  | memberNotFound (name : String)
  | indexerNotFound (target : String)
  | writeOnly (name : String)
  | readOnly (name : String)
  | invalidSuper (reason : String)
  | invalidThis
  | nullReference (name : String)
  | invalidAssignmentTarget
  | destructuringMismatch (targets elements : Nat)
  | notCallable (type : String)
  | notAClass (type : String)
  | duplicateMember (className member : String)
  | duplicateIndexer (className : String)
  | typeMismatch (reason : String)
  | indexOutOfRange (index : Float) (length : Nat)
  | stackOverflow (limit : Nat)
  | native (message : String)
  | cancelled

/-- Causes that code raises where it fails itself: all but cancellation and too many calls. -/
def Cause.Ordinary : Cause → Prop
  | .cancelled => False
  | .stackOverflow _ => False
  | _ => True

/-- The text of a cause. -/
def Cause.message : Cause → String
  | .undefined name => "'" ++ name ++ "' is not defined"
  | .unassigned name => "'" ++ name ++ "' is used before its declaration"
  | .alreadyDeclared name => "'" ++ name ++ "' is already declared in this scope"
  | .constantBinding name => "'" ++ name ++ "' cannot be assigned"
  | .duplicateLabel label => "Label '" ++ label ++ "' is already declared"
  | .labelNotFound label => "Label '" ++ label ++ "' not found"
  | .misplacedBreak => "'break' outside of a loop or switch"
  | .misplacedContinue => "'continue' outside of a loop"
  | .misplacedReturn => "'return' outside of a function"
  | .arityMismatch name expected got =>
    "'" ++ name ++ "' expects " ++ expected ++ " argument(s) but got " ++ toString got
  | .operatorNotSupported op operands =>
    "Operator '" ++ op ++ "' is not supported for " ++ operands
  | .unknownOperator op => "Unknown operator '" ++ op ++ "'"
  | .memberNotFound name => "Member '" ++ name ++ "' not found"
  | .indexerNotFound target => "Indexer not found on " ++ target
  | .writeOnly name => "Property '" ++ name ++ "' is write-only"
  | .readOnly name => "Property '" ++ name ++ "' is read-only"
  | .invalidSuper reason => "Invalid use of 'super': " ++ reason
  | .invalidThis => "'this' is not available here"
  | .nullReference name => "Null reference: cannot access '" ++ name ++ "' of null"
  | .invalidAssignmentTarget => "Invalid assignment target"
  | .destructuringMismatch targets elements =>
    "Cannot destructure " ++ toString elements ++ " value(s) into " ++ toString targets ++
      " target(s)"
  | .notCallable type => type ++ " is not callable"
  | .notAClass type => type ++ " is not a class"
  | .duplicateMember className member =>
    "Class '" ++ className ++ "' already declares '" ++ member ++ "'"
  | .duplicateIndexer className =>
    "Class '" ++ className ++ "' declares more than one indexer on the same side"
  | .typeMismatch reason => "Type error: " ++ reason
  | .indexOutOfRange index length =>
    "Index " ++ Number.plain index ++ " out of range for length " ++ toString length
  | .stackOverflow limit => "Maximum call depth of " ++ toString limit ++ " exceeded"
  | .native message => message
  | .cancelled => "Script cancelled"

/-- A failure of a script. -/
structure Fault where
  /-- What went wrong. -/
  cause : Cause
  /-- Where it went wrong. -/
  place : Option Position := none

namespace Fault

/-- Gives a fault a place, unless it has one already or came from outside of the script. -/
def locate (f : Fault) (p : Position) : Fault :=
  match f with
  | ⟨.cancelled, _⟩ => f
  | ⟨_, some _⟩ => f
  | ⟨cause, none⟩ => ⟨cause, some p⟩

/-- The text of a fault. -/
def message (f : Fault) : String :=
  match f.place with
  | some p => p.display ++ " : " ++ f.cause.message
  | none => f.cause.message

end Fault

/-- A failure of any part of the library, as it is told to the user. -/
inductive Failure where
  | script (fault : Fault)
  | lexical (error : LexicalError)

/-- The text of a failure.  Cancellation has a word of its own. -/
def Failure.message : Failure → String
  | .script ⟨.cancelled, _⟩ => "Cancelled"
  | .script fault => "Script error: " ++ fault.message
  | .lexical error => "Lexical error: " ++ error.message

end ScriptLang
