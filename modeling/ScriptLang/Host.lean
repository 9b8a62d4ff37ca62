/-
Functions of the host.

A script can call functions that are not written in the scripting language.  What such a function does
is given as code of the host: it makes requests of the interpreter, one after the other, until it gives a
value or fails.  Each step may depend on what came of the requests before it.  A request that fails does
not end the code: it is up to the host what to make of the fault.  The code gets back into the script by
calling values, making instances and reading members; it has no code of the script to run besides, and it
declares and assigns no variables of its caller.

A function of the host may also have a state of its own, which scripts cannot see.  What it does may
therefore differ from turn to turn, where turns are counted over all the functions of the host.
-/
import ScriptLang.Config
import ScriptLang.Context
import ScriptLang.Text.Quoted

namespace ScriptLang

/-- The call of a function of the host. -/
structure HostCall where
  /-- The context of the caller. -/
  context : Context
  receiver : Option Value
  args : List Value

/-- What code of the host can ask of the interpreter. -/
inductive HostRequest where
  /-- Call a value. -/
  | call (callee : Value) (args : List Value)
  /-- Make an instance of a class. -/
  | construct (id : ClassId) (args : List Value)
  /-- Get the value of a member. -/
  | getMember (target : Value) (name : String)
  /-- Get the value of a variable of the caller. -/
  | lookup (name : String)
  /-- Make an array. -/
  | newArray (items : List Value)
  /-- Make an object, in which later properties win. -/
  | newObject (properties : List (String × Value))
  /-- Get the elements of an array. -/
  | getItems (id : ArrayId)
  /-- Replace the elements of an array. -/
  | setItems (id : ArrayId) (items : List Value)
  /-- Get the names of the properties of an object. -/
  | getNames (id : ObjectId)
  /-- Get a property of an object. -/
  | getProperty (id : ObjectId) (key : String)
  /-- Set a property of an object. -/
  | setProperty (id : ObjectId) (key : String) (value : Value)
  /-- Get a field of an instance, by its key. -/
  | getField (id : InstanceId) (key : String)
  /-- Set a field of an instance, by its key. -/
  | setField (id : InstanceId) (key : String) (value : Value)
  /-- Get the name of a class. -/
  | className (id : ClassId)
  /-- Get the options of the interpreter. -/
  | config
  /-- Get the text of a value. -/
  | display (value : Value)
  /-- Print a line. -/
  | print (line : String)
  /-- Cancel the script. -/
  | cancel

/-- What comes of a request. -/
abbrev HostRequest.Answer : HostRequest → Type
  | .call _ _ => Value
  | .construct _ _ => Value
  | .getMember _ _ => Value
  | .lookup _ => Value
  | .newArray _ => Value
  | .newObject _ => Value
  | .getItems _ => List Value
  | .setItems _ _ => Unit
  | .getNames _ => List String
  | .getProperty _ _ => Option Value
  | .setProperty _ _ _ => Unit
  | .getField _ _ => Option Value
  | .setField _ _ _ => Unit
  | .className _ => Option String
  | .config => Config
  | .display _ => String
  | .print _ => Unit
  | .cancel => Unit

/-- Code of the host. -/
inductive HostCode where
  /-- Gives a value. -/
  | give (value : Value)
  /-- Fails. -/
  | fail (fault : Fault)
  /-- Makes a request and goes on with what came of it. -/
  | ask (request : HostRequest) (next : Except Fault request.Answer → HostCode)

/-- What a function of the host does in a turn with a call. -/
abbrev HostBody := (turn : Nat) → HostCall → HostCode

/-- A function of the host. -/
structure HostFunction where
  name : String
  /-- How many arguments it takes, if it does not take any number of them. -/
  arity : Option Nat
  body : HostBody

namespace HostCode

/-- Makes a request and goes on with the answer.  A fault is handed on. -/
def andThen (request : HostRequest) (next : request.Answer → HostCode) : HostCode :=
  .ask request fun
    | .ok answer => next answer
    | .error fault => .fail fault

/-- Goes on with a result, or fails. -/
def ofExcept {α : Type} (result : Except Cause α) (next : α → HostCode) : HostCode :=
  match result with
  | .ok a => next a
  | .error cause => .fail { cause }

/-- Goes on with the texts of values. -/
def displayAll : List Value → (List String → HostCode) → HostCode
  | [], next => next []
  | v :: vs, next =>
    andThen (.display v) fun text => displayAll vs fun texts => next (text :: texts)

end HostCode

namespace HostCall

/-- An argument, or null if it is missing. -/
def arg (call : HostCall) (index : Nat) : Value := call.args[index]?.getD .null

/-- An argument that has to be a number. -/
def number (call : HostCall) (index : Nat) : Except Cause Float :=
  match call.arg index with
  | .number n => .ok n
  | v =>
    .error (.typeMismatch
      ("argument " ++ toString (index + 1) ++ " must be a number, got " ++ v.typeName))

/-- The receiver, which has to be an instance. -/
def receiverInstance (call : HostCall) : Except Cause InstanceId :=
  match call.receiver with
  | some (.instanceRef id) => .ok id
  | _ => .error .invalidThis

end HostCall

/-! ## Functions that every script has -/

namespace HostBody

/-- Prints the arguments with blanks in between. -/
def print : HostBody := fun _ call =>
  .displayAll call.args fun texts => .andThen (.print (" ".intercalate texts)) fun _ => .give .null

/-- Gives the name of the type of the first argument. -/
def typeName : HostBody := fun _ call => .give (.text (call.arg 0).typeName)

/-- Gives the number of elements of the first argument. -/
def length : HostBody := fun _ call =>
  match call.arg 0 with
  | .array id => .andThen (.getItems id) fun items => .give (.ofNat items.length)
  | .text s => .give (.ofNat s.length)
  | .object id => .andThen (.getNames id) fun names => .give (.ofNat names.length)
  | v => .fail ⟨.typeMismatch ("len() expects an array, string or object, got " ++ v.typeName), none⟩

/-- Gives the text of the first argument. -/
def display : HostBody := fun _ call => .andThen (.display (call.arg 0)) fun text => .give (.text text)

end HostBody

/-! ## Inspection -/

/-- A number of arguments as a text for inspection. -/
def HostFunction.inspectArity (f : HostFunction) : String :=
  match f.arity with
  | none => "None"
  | some n => "Some(" ++ toString n ++ ")"

/-- A function of the host as a text for inspection. -/
def HostFunction.inspect (f : HostFunction) : String :=
  "NativeFunction \x7b name: " ++ Text.quoted f.name ++ ", arity: " ++ f.inspectArity ++ " \x7d"

end ScriptLang
