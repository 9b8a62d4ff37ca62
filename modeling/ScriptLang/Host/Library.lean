/-
Functions and services that a host may provide.

The functions hand back what they are given, work on their receiver, call back into the script, or fail.
The services make values, keep names and add operators in other ways than usual.
-/
import ScriptLang.State.Services

namespace ScriptLang

/-! ## Functions -/

/-- The sum of the arguments, which have to be numbers. -/
def HostCall.sum (call : HostCall) : Except Cause Float :=
  (List.range call.args.length).foldlM (fun total i => return total + (← call.number i)) 0

/-- Describes the context of the caller, given the name of its class and the options. -/
def HostCall.describe (call : HostCall) (className : Option String) (config : Config) : String :=
  let c := call.context
  let this := c.this.map (·.typeName)
  c.kindName ++ " class=" ++ className.getD "-" ++ " this=" ++ this.getD "-" ++
    " break=" ++ toString c.canBreak ++ " continue=" ++ toString c.canContinue ++
    " return=" ++ toString (c.canReturn config.topLevelReturn)

/-- Sets fields of the receiver, which has to be an instance if there are any. -/
def HostCode.setFields (call : HostCall) : List (String × Value) → HostCode
  | [] => .give .null
  | (key, value) :: rest =>
    .ofExcept call.receiverInstance fun i =>
      .andThen (.setField i key value) fun _ => setFields call rest

namespace HostBody

/-- Gives the same value every time. -/
def constant (value : Value) : HostBody := fun _ _ => .give value

/-- Gives a new array of the arguments. -/
def arguments : HostBody := fun _ call => .andThen (.newArray call.args) .give

/-- Gives one of the arguments, or null. -/
def argument (index : Nat) : HostBody := fun _ call => .give (call.arg index)

/-- Gives one of the arguments, which has to be a number. -/
def number (index : Nat) : HostBody := fun _ call =>
  .ofExcept (call.number index) fun n => .give (.number n)

/-- Gives the sum of the arguments, which have to be numbers. -/
def sum : HostBody := fun _ call => .ofExcept call.sum fun n => .give (.number n)

/-- Gives the receiver, or null. -/
def receiver : HostBody := fun _ call => .give (call.receiver.getD .null)

/-- Gives the receiver, which has to be an instance. -/
def receiverInstance : HostBody := fun _ call =>
  .ofExcept call.receiverInstance fun i => .give (.instanceRef i)

/-- Gives a field of the receiver, or null. -/
def getField (key : String) : HostBody := fun _ call =>
  .ofExcept call.receiverInstance fun i => .andThen (.getField i key) fun v => .give (v.getD .null)

/-- Sets a field of the receiver to the last argument, or to null. -/
def setField (key : String) : HostBody := fun _ call =>
  .setFields call [(key, call.args.getLast?.getD .null)]

/-- Sets fields of the receiver to the arguments.  Without fields any receiver will do. -/
def setFields (keys : List String) : HostBody := fun _ call =>
  .setFields call (keys.zipIdx.map fun (key, i) => (key, call.arg i))

/-- Gives a member of the receiver. -/
def member (name : String) : HostBody := fun _ call =>
  .andThen (.getMember (call.receiver.getD .null) name) .give

/-- Calls the first argument with the others. -/
def apply : HostBody := fun _ call => .andThen (.call (call.arg 0) (call.args.drop 1)) .give

/-- Calls the first argument twice without arguments and gives an array of the results. -/
def twice : HostBody := fun _ call =>
  .andThen (.call (call.arg 0) []) fun first =>
    .andThen (.call (call.arg 0) []) fun second => .andThen (.newArray [first, second]) .give

/-- Makes an instance of the first argument with the others. -/
def construct : HostBody := fun _ call =>
  match call.arg 0 with
  | .classRef id => .andThen (.construct id (call.args.drop 1)) .give
  | v => .fail { cause := .notAClass v.typeName }

/-- Describes the context of the caller. -/
def describeContext : HostBody := fun _ call =>
  .andThen .config fun config =>
    match call.context.owner with
    | none => .give (.text (call.describe none config))
    | some id => .andThen (.className id) fun name => .give (.text (call.describe name config))

/-- Cancels the script. -/
def cancel : HostBody := fun _ _ => .andThen .cancel fun _ => .give .null

/-- Fails. -/
def fail (fault : Fault) : HostBody := fun _ _ => .fail fault

/-- Calls the first argument without arguments, and gives null if that fails. -/
def attempt : HostBody := fun _ call =>
  .ask (.call (call.arg 0) []) fun
    | .ok value => .give value
    | .error _ => .give .null

end HostBody

/-! ## Making values -/

namespace Creator

/-- Numbers are doubled. -/
def doubling : Creator :=
  { plain with
    exchange := fun
      | .number n => .number (n * 2)
      | l => l }

/-- Null, truth values and texts become something else, and arrays and objects tell their size. -/
def wrapping : Creator :=
  { plain with
    exchange := fun
      | .null => .text "nil"
      | .boolean b => .number (if b then 1 else 0)
      | .text s => .text ("<" ++ s ++ ">")
      | l => l
    items := fun written => written ++ [.ofNat written.length]
    properties := fun written => written ++ [("size", .ofNat written.length)]
    items_from := by
      intro written v hv
      refine (List.mem_append.mp hv).imp_right fun hsize => ?_
      exact ⟨.number _, List.mem_singleton.mp hsize⟩
    properties_from := by
      intro written p hp
      refine (List.mem_append.mp hp).imp_right fun hsize => ?_
      rw [List.mem_singleton.mp hsize]
      exact ⟨.number _, rfl⟩ }

/-- A class is made into its name. -/
def classless : Creator :=
  { plain with
    classValue := fun id => .text ("class" ++ toString id.index)
    classValue_from := fun _ => .inr ⟨.text _, rfl⟩ }

end Creator

/-! ## Keeping names -/

namespace Naming

/-- In lower case, as far as ASCII letters go. -/
def folded : Naming where
  keep name := name.map Char.toLower

/-- Nothing can be declared. -/
def frozen : Naming where
  refusal? name := some ("cannot declare '" ++ name ++ "'")

end Naming

/-! ## Operators -/

namespace OperatorCode

/-- Changes the operand by a number and goes on with its value before and after. -/
def update (op : String) (delta : Float) (next : Value → Value → OperatorCode 1) : OperatorCode 1 :=
  .evaluate 0 fun
    | .number n => .assign 0 (.number (n + delta)) (next (.number n) (.number (n + delta)))
    | v => .fail (unaryNotSupported op v) trivial

/-- Lowers its operand by one, raises it again, and gives the value in between. -/
def dip : OperatorCode 1 := update "--" (-1) fun _ _ => update "++" 1 fun old _ => .give old

/-- Gives the name of the type of its operand. -/
def typeName : OperatorCode 1 := .evaluate 0 fun v => .give (.text v.typeName)

/-- Gives its operand, which must not be null. -/
def require (op : String) : OperatorCode 1 :=
  .evaluate 0 fun v => if v.isNull then .fail (.nullReference op) trivial else .give v

/-- Gives its left operand and leaves the right one alone. -/
def first : OperatorCode 2 := .evaluate 0 .give

/-- Evaluates the right operand, then the left one, and gives both in an array. -/
def pair : OperatorCode 2 :=
  .evaluate 1 fun right => .evaluate 0 fun left => .newArray [left, right] .give

/-- Whether the first operand lies between the two others. -/
def between (op : String) : OperatorCode 3 :=
  .evaluate 0 fun x => .evaluate 1 fun low => .evaluate 2 fun high =>
    match x, low, high with
    | .number x, .number low, .number high => .give (.boolean (low ≤ x && x ≤ high))
    | _, _, _ => .fail (.typeMismatch (op ++ " needs numbers")) trivial

end OperatorCode

/-- The operators of the scripting language and some more. -/
def OperatorTable.extended : OperatorTable where
  pre := (standard.pre.insert "#" (.ofHost .typeName)).insert "--+" (.ofHost .dip)
  post := standard.post.insert "!" (.ofHost (.require "!"))
  binary := (standard.binary.insert "<>" (.ofHost .pair)).insert "-" (.ofHost .first)
  ternary := standard.ternary.insert "from to" (.ofHost (.between "from to"))

end ScriptLang
