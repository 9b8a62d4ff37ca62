/-
Options as a JSON document.

A document is an object whose members are options, or an array that gives the options in their
order.  An option that is not given keeps its default.  Members with other keys are skipped, but
their values have to be well formed.  Unlike an option text a document can be wrong: it may not be
JSON, name an option twice, or give an option a value of another type.

Every reader takes the characters that are left and returns what it read with the rest.  Loops are
bounded by the length of the text they work on, since each turn takes at least one character.
-/
import ScriptLang.Config.OptionText

namespace ScriptLang.Config.Document

/-- White space between the parts of a document. -/
def isSpace (c : Char) : Bool := c == ' ' || c == '\t' || c == '\n' || c == '\r'

/-- The text after leading white space. -/
def skipSpace (cs : List Char) : List Char := cs.dropWhile isSpace

/-- The text after the word `word`. -/
def word? (word : List Char) (cs : List Char) : Option (List Char) :=
  if word.isPrefixOf cs then some (cs.drop word.length) else none

/-! ## Strings -/

/-- The value of a hexadecimal digit. -/
def hexDigit? (c : Char) : Option Nat :=
  if '0' ≤ c ∧ c ≤ '9' then some (c.toNat - '0'.toNat)
  else if 'a' ≤ c ∧ c ≤ 'f' then some (c.toNat - 'a'.toNat + 10)
  else if 'A' ≤ c ∧ c ≤ 'F' then some (c.toNat - 'A'.toNat + 10)
  else none

/-- The number in the next four hexadecimal digits. -/
def fourHexDigits? : List Char → Option (Nat × List Char)
  | a :: b :: c :: d :: rest => do
    let a ← hexDigit? a
    let b ← hexDigit? b
    let c ← hexDigit? c
    let d ← hexDigit? d
    return (((a * 16 + b) * 16 + c) * 16 + d, rest)
  | _ => none

/-- The character that a one-letter escape stands for. -/
def simpleEscape? : Char → Option Char
  | '"' => some '"'
  | '\\' => some '\\'
  | '/' => some '/'
  | 'b' => some '\x08'
  | 'f' => some '\x0c'
  | 'n' => some '\n'
  | 'r' => some '\r'
  | 't' => some '\t'
  | _ => none

/-- The character that a numeric escape stands for, read after `\u`.  A character outside the basic
plane takes two escapes, and half of such a pair stands for nothing. -/
def numericEscape? (cs : List Char) : Option (Char × List Char) := do
  let (high, rest) ← fourHexDigits? cs
  if 0xdc00 ≤ high && high ≤ 0xdfff then none
  else if 0xd800 ≤ high && high ≤ 0xdbff then
    let rest ← word? ['\\', 'u'] rest
    let (low, rest) ← fourHexDigits? rest
    if 0xdc00 ≤ low && low ≤ 0xdfff then
      return (Char.ofNat (0x10000 + (high - 0xd800) * 0x400 + (low - 0xdc00)), rest)
    else none
  else return (Char.ofNat high, rest)

/-- The rest of a string after its opening quote. -/
def string? : (bound : Nat) → List Char → Option (List Char × List Char)
  | 0, _ => none
  | _ + 1, [] => none
  | _ + 1, '"' :: rest => some ([], rest)
  | bound + 1, '\\' :: 'u' :: rest => do
    let (c, rest) ← numericEscape? rest
    let (cs, rest) ← string? bound rest
    return (c :: cs, rest)
  | bound + 1, '\\' :: c :: rest => do
    let c ← simpleEscape? c
    let (cs, rest) ← string? bound rest
    return (c :: cs, rest)
  | bound + 1, c :: rest => do
    if c = '\\' || c.toNat < 0x20 then none
    let (cs, rest) ← string? bound rest
    return (c :: cs, rest)

/-- The text after a string whose value does not matter, after its opening quote.  Here a numeric
escape may stand for half of a pair. -/
def skipString? : (bound : Nat) → List Char → Option (List Char)
  | 0, _ => none
  | _ + 1, [] => none
  | _ + 1, '"' :: rest => some rest
  | bound + 1, '\\' :: 'u' :: rest => do
    let (_, rest) ← fourHexDigits? rest
    skipString? bound rest
  | bound + 1, '\\' :: c :: rest => do
    let _ ← simpleEscape? c
    skipString? bound rest
  | bound + 1, c :: rest =>
    if c = '\\' || c.toNat < 0x20 then none else skipString? bound rest

/-! ## Numbers -/

/-- The next digits, of which there has to be at least one. -/
def digits? (cs : List Char) : Option (List Char × List Char) :=
  let digits := cs.takeWhile Char.isDigit
  if digits.isEmpty then none else some (digits, cs.dropWhile Char.isDigit)

/-- The digits of a whole number: only zero itself starts with a zero. -/
def wholeDigits? (cs : List Char) : Option (List Char × List Char) := do
  let (digits, rest) ← digits? cs
  if digits.head? == some '0' && digits.length != 1 then none else return (digits, rest)

/-- The text after the exponent of a number, if there is one. -/
def skipExponent? : List Char → Option (List Char)
  | c :: rest =>
    if c = 'e' || c = 'E' then
      let rest :=
        match rest with
        | '+' :: r => r
        | '-' :: r => r
        | r => r
      (digits? rest).map (·.2)
    else some (c :: rest)
  | [] => some []

/-- The text after a number. -/
def skipNumber? (cs : List Char) : Option (List Char) := do
  let cs :=
    match cs with
    | '-' :: r => r
    | r => r
  let (_, rest) ← wholeDigits? cs
  match rest with
  | '.' :: rest => do
    let (_, rest) ← digits? rest
    skipExponent? rest
  | rest => skipExponent? rest

/-! ## Values that do not matter -/

/-- The text after items that commas divide, up to and with the closing bracket. -/
def skipItems? (item : List Char → Option (List Char)) (close : Char) :
    (bound : Nat) → List Char → Option (List Char)
  | 0, _ => none
  | bound + 1, cs => do
    let rest ← item cs
    match skipSpace rest with
    | ',' :: rest => skipItems? item close bound rest
    | c :: rest => if c = close then some rest else none
    | [] => none

/-- The text after the items of a collection, after its opening bracket. -/
def skipCollection? (item : List Char → Option (List Char)) (close : Char) (cs : List Char) :
    Option (List Char) :=
  if (skipSpace cs).head? == some close then some ((skipSpace cs).drop 1)
  else skipItems? item close cs.length cs

/-- The text after a member whose value `value` passes over. -/
def skipMember? (value : List Char → Option (List Char)) (cs : List Char) :
    Option (List Char) := do
  let rest ← word? ['"'] (skipSpace cs)
  let rest ← skipString? rest.length rest
  let rest ← word? [':'] (skipSpace rest)
  value rest

/-- The text after a value. -/
def skipValue? : (bound : Nat) → List Char → Option (List Char)
  | 0, _ => none
  | bound + 1, cs =>
    match skipSpace cs with
    | '"' :: rest => skipString? rest.length rest
    | '[' :: rest => skipCollection? (skipValue? bound) ']' rest
    | '\x7b' :: rest => skipCollection? (skipMember? (skipValue? bound)) '\x7d' rest
    | 'n' :: rest => word? "ull".toList rest
    | 't' :: rest => word? "rue".toList rest
    | 'f' :: rest => word? "alse".toList rest
    | rest => skipNumber? rest

/-! ## Options -/

/-- One of the five options. -/
inductive Field where
  | name
  | maxCallDepth
  | checkCancellation
  | topLevelReturn
  | traceStatements
  deriving DecidableEq, Repr

namespace Field

/-- The options in the order in which an array gives them. -/
def all : List Field :=
  [.name, .maxCallDepth, .checkCancellation, .topLevelReturn, .traceStatements]

/-- The key of an option. -/
def key : Field → String
  | .name => "name"
  | .maxCallDepth => "max_call_depth"
  | .checkCancellation => "check_cancellation"
  | .topLevelReturn => "top_level_return"
  | .traceStatements => "trace_statements"

/-- The option with the given key. -/
def ofKey? (key : String) : Option Field := all.find? (·.key == key)

end Field

/-- Reads a truth value. -/
def boolean? (cs : List Char) : Option (Bool × List Char) :=
  match word? "true".toList cs with
  | some rest => some (true, rest)
  | none => (word? "false".toList cs).map fun rest => (false, rest)

/-- Reads a whole number that an option can hold. -/
def number? (cs : List Char) : Option (Nat × List Char) := do
  let (digits, rest) ← wholeDigits? cs
  let n ← Text.decimal? digits
  if n ≤ maxNumber then return (n, rest) else none

/-- Reads the value of an option. -/
def readField? (c : Config) (field : Field) (cs : List Char) : Option (Config × List Char) := do
  let cs := skipSpace cs
  match field with
  | .name =>
    let rest ← word? ['"'] cs
    let (name, rest) ← string? rest.length rest
    return ({ c with name := String.ofList name }, rest)
  | .maxCallDepth =>
    let (n, rest) ← number? cs
    return ({ c with maxCallDepth := n }, rest)
  | .checkCancellation =>
    let (b, rest) ← boolean? cs
    return ({ c with checkCancellation := b }, rest)
  | .topLevelReturn =>
    let (b, rest) ← boolean? cs
    return ({ c with topLevelReturn := b }, rest)
  | .traceStatements =>
    let (b, rest) ← boolean? cs
    return ({ c with traceStatements := b }, rest)

/-- Reads the value of the member `key`.  The options in `seen` were given before. -/
def readMember? (c : Config) (seen : List Field) (key : String) (cs : List Char) :
    Option (Config × List Field × List Char) :=
  match Field.ofKey? key with
  | some field => do
    if field ∈ seen then none
    let (c, rest) ← readField? c field cs
    return (c, field :: seen, rest)
  | none => do
    let rest ← skipValue? cs.length cs
    return (c, seen, rest)

/-- Reads the members of an object up to its closing bracket. -/
def readMembers? (c : Config) (seen : List Field) :
    (bound : Nat) → List Char → Option (Config × List Char)
  | 0, _ => none
  | bound + 1, cs => do
    let rest ← word? ['"'] (skipSpace cs)
    let (key, rest) ← string? rest.length rest
    let rest ← word? [':'] (skipSpace rest)
    let (c, seen, rest) ← readMember? c seen (String.ofList key) rest
    match skipSpace rest with
    | ',' :: rest => readMembers? c seen bound rest
    | '\x7d' :: rest => return (c, rest)
    | _ => none

/-- Reads the items of an array up to its closing bracket: the options `fields`, of which the last
ones may be missing. -/
def readItems? (c : Config) : List Field → List Char → Option (Config × List Char)
  | [], _ => none
  | field :: fields, cs => do
    let (c, rest) ← readField? c field cs
    match skipSpace rest with
    | ',' :: rest => readItems? c fields rest
    | ']' :: rest => return (c, rest)
    | _ => none

/-- Reads the object or array of a document. -/
def read? (cs : List Char) : Option (Config × List Char) :=
  match skipSpace cs with
  | '\x7b' :: rest =>
    match skipSpace rest with
    | '\x7d' :: rest => some ({}, rest)
    | rest => readMembers? {} [] rest.length rest
  | '[' :: rest =>
    match skipSpace rest with
    | ']' :: rest => some ({}, rest)
    | rest => readItems? {} Field.all rest
  | _ => none

end Document

/-- Reads a document of options, which has to end after its object or array. -/
def ofDocument? (text : String) : Option Config := do
  let (c, rest) ← Document.read? text.toList
  if (Document.skipSpace rest).isEmpty then return c else none

end ScriptLang.Config
