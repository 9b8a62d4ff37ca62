/-
Contexts: where code runs.

A context is the root of a script, a block, or the call of a function or of a method.  Every context
has a scope of its own and, apart from the root, an enclosing context: a block stands in the code
around it, and a call in the code where its function or class was declared.  A context never changes;
what changes are the contents of its scope.

What a piece of code may do depends on its context alone: leave a loop, go on with its next turn, or
return.  A call hides the loops around it.
-/
import ScriptLang.Scope

namespace ScriptLang

/-- What a block is part of. -/
inductive BlockFlow where
  | plain
  /-- One turn of a loop. -/
  | loop
  /-- One clause of a switch. -/
  | switch
  deriving DecidableEq, Repr

namespace BlockFlow

/-- Whether a break can end the construct. -/
def permitsBreak : BlockFlow → Bool
  | .plain => false
  | .loop | .switch => true

/-- Whether a continue can start its next turn. -/
def permitsContinue : BlockFlow → Bool
  | .loop => true
  | .plain | .switch => false

end BlockFlow

/-- How a statement ends. -/
inductive Flow where
  /-- The next statement follows. -/
  | next
  /-- The loop or switch around it ends. -/
  | breaks
  /-- The next turn of the loop around it follows. -/
  | continues
  /-- The call ends with a value. -/
  | returns (value : Value)
  /-- The statement with the label follows. -/
  | jumps (label : String)

/-- What a construct makes of how its body ended. -/
inductive Absorbed where
  /-- It goes on. -/
  | proceed
  /-- It ends. -/
  | exit (flow : Flow)

/-- A loop takes up breaks and continues, a switch only breaks. -/
def BlockFlow.absorb : BlockFlow → Flow → Absorbed
  | _, .next => .proceed
  | .loop, .continues => .proceed
  | .loop, .breaks => .exit .next
  | .switch, .breaks => .exit .next
  | _, flow => .exit flow

/-- Where code runs. -/
inductive Context where
  | root (scope : ScopeId)
  | block (scope : ScopeId) (flow : BlockFlow) (parent : Context)
  | function (scope : ScopeId) (closure : Context)
  /-- A call of a method of the class `owner`.  A static method has no receiver. -/
  | method (scope : ScopeId) (closure : Context) (owner : ClassId) (receiver : Option Value)

namespace Context

/-- The scope of a context. -/
def scope : Context → ScopeId
  | .root scope => scope
  | .block scope _ _ => scope
  | .function scope _ => scope
  | .method scope _ _ _ => scope

/-- The context in which names are looked for next. -/
def enclosing : Context → Option Context
  | .root _ => none
  | .block _ _ parent => some parent
  | .function _ closure => some closure
  | .method _ closure _ _ => some closure

/-- The scopes in which names are looked for, from the inside out. -/
def scopes : Context → List ScopeId
  | .root scope => [scope]
  | .block scope _ parent => scope :: parent.scopes
  | .function scope closure => scope :: closure.scopes
  | .method scope closure _ _ => scope :: closure.scopes

/-- The class whose method is running. -/
def owner : Context → Option ClassId
  | .root _ => none
  | .block _ _ parent => parent.owner
  | .function _ closure => closure.owner
  | .method _ _ owner _ => some owner

/-- The value of `this`, which is the class itself in a static method. -/
def this : Context → Option Value
  | .root _ => none
  | .block _ _ parent => parent.this
  | .function _ closure => closure.this
  | .method _ _ owner receiver => some (receiver.getD (.classRef owner))

/-- Whether there is a loop or a switch to leave. -/
def canBreak : Context → Bool
  | .block _ flow parent => flow.permitsBreak || parent.canBreak
  | _ => false

/-- Whether there is a loop to go on with. -/
def canContinue : Context → Bool
  | .block _ flow parent => flow.permitsContinue || parent.canContinue
  | _ => false

/-- Whether there is a call to return from.  At the root this is a matter of the options. -/
def canReturn (atTopLevel : Bool) : Context → Bool
  | .root _ => atTopLevel
  | .block _ _ parent => parent.canReturn atTopLevel
  | .function _ _ => true
  | .method _ _ _ _ => true

/-- The scopes whose labels can be jumped to: those of the blocks up to the call. -/
def jumpScopes : Context → List ScopeId
  | .block scope _ parent => scope :: parent.jumpScopes
  | c => [c.scope]

/-- The name of the kind of a context. -/
def kindName : Context → String
  | .root _ => "Root"
  | .block _ _ _ => "Block"
  | .function _ _ => "Function"
  | .method _ _ _ _ => "Method"

/-- A context as a text for inspection. -/
def inspect (c : Context) : String :=
  "RuntimeContext \x7b kind: \"" ++ c.kindName ++ "\" \x7d"

end Context

end ScriptLang
