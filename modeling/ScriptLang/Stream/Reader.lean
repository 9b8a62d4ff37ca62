/-
Reading a text one character at a time.

A reader holds the characters that are still to come, how many it has given out, and the position of
the next one.  This module also has the ways in which reading can go wrong.
-/
import ScriptLang.Position

namespace ScriptLang

/-- What can go wrong while units are read from a source. -/
inductive LexicalError where
  /-- No lexeme matches the text at this position. -/
  | noLexeme (place : Position)
  /-- The branch has left its group. -/
  | disposed
  /-- The two branches belong to different groups. -/
  | differentRoot
  deriving DecidableEq, Repr

/-- The text of an error. -/
def LexicalError.message : LexicalError → String
  | .noLexeme place => place.display ++ " : No lexeme matched"
  | .disposed => "Branch has been disposed"
  | .differentRoot => "Branches do not share the same root"

/-- A text that is being read. -/
structure Reader where
  /-- The characters still to come. -/
  rest : List Char
  /-- How many characters were read. -/
  count : Nat := 0
  /-- The position of the next character. -/
  place : Position := Position.start
  deriving DecidableEq, Repr

namespace Reader

/-- A reader at the start of a text. -/
def ofText (text : String) : Reader := { rest := text.toList }

/-- The next character, which stays where it is. -/
def peek (r : Reader) : Option Char := r.rest.head?

/-- Takes the next character, if there is one. -/
def read (r : Reader) : Option Char × Reader :=
  match r.rest with
  | [] => (none, r)
  | c :: cs => (some c, ⟨cs, r.count + 1, r.place.advance c⟩)

/-- Whether nothing is left to read. -/
def isAtEnd (r : Reader) : Bool := r.rest.isEmpty

end Reader

end ScriptLang
