import ScriptLang.Position
import ScriptLang.Text.Blank
import ScriptLang.Text.CodePoint
import ScriptLang.Text.Extending
import ScriptLang.Text.Unassigned
import ScriptLang.Text.Quoted
import ScriptLang.Number.Parts
import ScriptLang.Number.Shortest
import ScriptLang.Number.Text
import ScriptLang.Config
import ScriptLang.Config.OptionText
import ScriptLang.Config.Document
import ScriptLang.Stream.Reader
import ScriptLang.Stream.Branch
import ScriptLang.Rule
import ScriptLang.Token
import ScriptLang.Token.Lexer
import ScriptLang.Token.Grammar
import ScriptLang.Fault
import ScriptLang.Syntax
import ScriptLang.Syntax.Build
import ScriptLang.Table
import ScriptLang.Value
import ScriptLang.Scope
import ScriptLang.Context
import ScriptLang.Host
import ScriptLang.Host.Library
import ScriptLang.Class
import ScriptLang.Class.Registry
import ScriptLang.Heap
import ScriptLang.Operator
import ScriptLang.State.Services
import ScriptLang.State
import ScriptLang.Eval.Evaluator
import ScriptLang.Eval.Sequence
import ScriptLang.Eval.Call
import ScriptLang.Eval.Access
import ScriptLang.Class.Draft
import ScriptLang.Eval.Construction
import ScriptLang.Eval.Operation
import ScriptLang.Eval.Expression
import ScriptLang.Eval.Statement
import ScriptLang.Eval
import ScriptLang.Class.HostClass
import ScriptLang.Interpreter
import ScriptLang.Proofs.Stream.Roll
import ScriptLang.Proofs.Stream.Grove
import ScriptLang.Proofs.Stream.Independence
import ScriptLang.Proofs.Stream.Positions
import ScriptLang.Proofs.Rule.Scan
import ScriptLang.Proofs.Rule.Refinement
import ScriptLang.Proofs.Rule.Taken
import ScriptLang.Proofs.Rule.Choice
import ScriptLang.Proofs.Rule.Language
import ScriptLang.Proofs.Token.Munch
import ScriptLang.Proofs.Token.Lexing
import ScriptLang.Proofs.Token.Stability
import ScriptLang.Proofs.Token.Scanner
import ScriptLang.Proofs.Token.Scanning
import ScriptLang.Proofs.Token.Reprint
import ScriptLang.Proofs.Outcome
import ScriptLang.Proofs.Eval.Asking
import ScriptLang.Proofs.Eval.Composed
import ScriptLang.Proofs.Eval.ValueSteps
import ScriptLang.Proofs.Eval.FlowSteps
import ScriptLang.Proofs.Eval.Step
import ScriptLang.Proofs.Eval.Depth
import ScriptLang.Proofs.Eval.Surface
import ScriptLang.Proofs.Eval.Nesting
import ScriptLang.Proofs.Eval.Enclosing
import ScriptLang.Proofs.Eval.Leaving
import ScriptLang.Proofs.Eval.Landing
import ScriptLang.Proofs.Class.Chain
import ScriptLang.Proofs.Eval.Growth
import ScriptLang.Proofs.Eval.Regime
import ScriptLang.Proofs.Eval.ValueRules
import ScriptLang.Proofs.Eval.ExpressionRules
import ScriptLang.Proofs.Eval.FlowRules
import ScriptLang.Proofs.Eval.Runs
import ScriptLang.Proofs.Eval.Ending
import ScriptLang.Proofs.Eval.Tracing
import ScriptLang.Proofs.Eval.Switching
import ScriptLang.Proofs.Eval.Sessions
import ScriptLang.Proofs.Scope.Outline
import ScriptLang.Proofs.Scope.Constants
import ScriptLang.Proofs.Scope.Hoisting
import ScriptLang.Proofs.Scope.Agreement
import ScriptLang.Proofs.Class.Ascent
import ScriptLang.Proofs.Class.Ancestry
import ScriptLang.Proofs.Class.Closed
import ScriptLang.Proofs.Class.Fields
import ScriptLang.Proofs.Class.Privacy
import ScriptLang.Proofs.Class.References
import ScriptLang.Proofs.Eval.Cancellation
import ScriptLang.Proofs.Eval.CodeSize
import ScriptLang.Proofs.Class.Inheritance
import ScriptLang.Proofs.Class.Declared
import ScriptLang.Proofs.Class.Resolution
import ScriptLang.Proofs.Class.Construction
import ScriptLang.Proofs.Class.Drafts
import ScriptLang.Proofs.Class.Keys
import ScriptLang.Proofs.Class.Creation
import ScriptLang.Proofs.Eval.Compound
import ScriptLang.Proofs.Eval.Arity
import ScriptLang.Proofs.Heap.Unfolding
import ScriptLang.Proofs.Text.Pieces
import ScriptLang.Proofs.Config.LastLine
import ScriptLang.Proofs.Eval.Destructuring
import ScriptLang.Proofs.Class.Identifiers
import ScriptLang.Proofs.Class.HiddenFields
import ScriptLang.Proofs.Class.AutoProperties
