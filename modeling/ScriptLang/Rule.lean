/-
Rules: patterns of characters.

A rule takes single characters, or is made of smaller rules by sequence, choice and repetition.  It
is run on a branch, which it moves over the text that it takes.  A choice takes the side that takes
more text, and repetition takes as often as it can.
-/
import ScriptLang.Stream.Branch
import ScriptLang.Text.Quoted

namespace ScriptLang

/-- A pattern of characters. -/
inductive Rule where
  /-- One of the given characters, which stand in ascending order. -/
  | oneOf (chars : List Char)
  /-- Any other character. -/
  | noneOf (chars : List Char)
  /-- A character between two others, both included. -/
  | range (low high : Char)
  /-- A character that is not between two others. -/
  | outside (low high : Char)
  /-- Any character. -/
  | any
  /-- A character that passes a test. -/
  | satisfying (test : Char → Bool)
  /-- Nothing at all. -/
  | empty
  /-- One rule after the other. -/
  | seq (first second : Rule)
  /-- The rule that takes more, and the first one if both take the same. -/
  | alt (first second : Rule)
  /-- As many repetitions as possible, between `least` and `most`. -/
  | times (content : Rule) (least : Nat) (most : Option Nat)

namespace Rule

instance : Inhabited Rule := ⟨.empty⟩

/-! ## Building rules -/

/-- Inserts a character into an ascending list without repetitions. -/
def insertChar (c : Char) : List Char → List Char
  | [] => [c]
  | d :: ds => if c < d then c :: d :: ds else if c = d then d :: ds else d :: insertChar c ds

/-- The characters of a text in ascending order, each once. -/
def charSet (text : String) : List Char := text.toList.foldr insertChar []

/-- One of the characters of a text. -/
def chars (text : String) : Rule := .oneOf (charSet text)

/-- Any character that is not in a text. -/
def except (text : String) : Rule := .noneOf (charSet text)

/-- All of the given rules, one after the other. -/
def sequence : List Rule → Rule
  | [] => .empty
  | r :: rs => rs.foldl .seq r

/-- One of the given rules. -/
def alternatives : List Rule → Rule
  | [] => .empty
  | r :: rs => rs.foldl .alt r

/-- Exactly the given text. -/
def literal (text : String) : Rule := sequence (text.toList.map fun c => .oneOf [c])

/-- Any number of repetitions. -/
def many (r : Rule) : Rule := .times r 0 none

/-- At least one repetition. -/
def some (r : Rule) : Rule := .times r 1 none

/-- At most one repetition. -/
def optional (r : Rule) : Rule := .times r 0 (Option.some 1)

/-! ## Running rules -/

/-- Takes the next character if it passes the test. -/
def takeIf (test : Char → Bool) (b : Branch) : Walk Reader Char (Bool × Branch) := do
  match ← b.peek with
  | Option.some c =>
    if test c then
      let (_, b) ← b.read
      return (true, b)
    else return (false, b)
  | none => return (false, b)

/-- How many characters a branch can still read. -/
def remaining (b : Branch) (g : Group Reader Char) : Nat :=
  (g.pending b.id).length + (g.source.map (·.rest.length)).getD 0

/-- Runs both sides of a choice on forks of their own and moves the branch to where the winner
stands. -/
def runAlt (first second : Branch → Walk Reader Char (Bool × Branch)) (b : Branch) :
    Walk Reader Char (Bool × Branch) := do
  let left ← b.fork
  let right ← b.fork
  let (leftOk, left) ← first left
  let (rightOk, right) ← second right
  let winner :=
    if leftOk && !(rightOk && left.position < right.position) then Option.some left
    else if rightOk then Option.some right
    else none
  let b ←
    match winner with
    | Option.some w => do
      let (_, b) ← b.merge w
      pure b
    | none => pure b
  let _ ← left.dispose
  let _ ← right.dispose
  return (winner.isSome, b)

/-- Repeats `content` until it fails, takes nothing, or `most` repetitions are reached.  Each turn but
the last takes a character, so `bound` turns are enough if `bound` exceeds the characters left. -/
def runTimes (content : Branch → Walk Reader Char (Bool × Branch)) (least : Nat)
    (most : Option Nat) (b : Branch) (count : Nat) : (bound : Nat) →
    Walk Reader Char (Bool × Branch)
  | 0 => return (decide (least ≤ count), b)
  | bound + 1 => do
    if most.any (· ≤ count) then return (decide (least ≤ count), b)
    let attempt ← b.fork
    let (ok, attempt) ← content attempt
    if ok then
      let advanced := b.position < attempt.position
      let (_, b) ← b.merge attempt
      let _ ← attempt.release
      if advanced then runTimes content least most b (count + 1) bound
      else return (decide (least ≤ max (count + 1) least), b)
    else
      let _ ← attempt.release
      return (decide (least ≤ count), b)

/-- Runs a rule on a branch: whether it matches, and where the branch stands then.  A rule that fails
leaves the branch where it found out. -/
def run : Rule → Branch → Walk Reader Char (Bool × Branch)
  | .oneOf chars, b => takeIf (chars.contains ·) b
  | .noneOf chars, b => takeIf (!chars.contains ·) b
  | .range low high, b => takeIf (fun c => low ≤ c && c ≤ high) b
  | .outside low high, b => takeIf (fun c => !(low ≤ c && c ≤ high)) b
  | .any, b => takeIf (fun _ => true) b
  | .satisfying test, b => takeIf test b
  | .empty, b => return (true, b)
  | .seq first second, b => do
    let (ok, b) ← first.run b
    if ok then second.run b else return (false, b)
  | .alt first second, b => runAlt first.run second.run b
  | .times content least most, b => do
    let g ← get
    runTimes content.run least most b 0 (remaining b g + 1)

/-! ## Inspecting rules -/

/-- A set of characters between braces. -/
def inspectChars (chars : List Char) : String :=
  "(\x7b" ++ ", ".intercalate (chars.map Text.quotedChar) ++ "\x7d)"

/-- The two ends of a range between braces. -/
def inspectRange (low high : Char) : String :=
  " \x7b from: " ++ Text.quotedChar low ++ ", to: " ++ Text.quotedChar high ++ " \x7d"

/-- A rule as a text for inspection. -/
def inspect : Rule → String
  | .oneOf chars => "CharSet" ++ inspectChars chars
  | .noneOf chars => "NegativeCharSet" ++ inspectChars chars
  | .range low high => "CharRange" ++ inspectRange low high
  | .outside low high => "NegativeCharRange" ++ inspectRange low high
  | .any => "AnyChar"
  | .satisfying _ => "Predicate(CharPredicate(..))"
  | .empty => "Empty"
  | .seq first second => "Concatenate(" ++ first.inspect ++ ", " ++ second.inspect ++ ")"
  | .alt first second => "Alternate(" ++ first.inspect ++ ", " ++ second.inspect ++ ")"
  | .times content least most =>
    let most :=
      match most with
      | none => "None"
      | Option.some n => "Some(" ++ toString n ++ ")"
    "Repeat \x7b content: " ++ content.inspect ++ ", min: " ++ toString least ++ ", max: " ++
      most ++ " \x7d"

end Rule

end ScriptLang
