/-
Tokens: the words of a text.

A lexeme is a kind of word, given by a name and a rule.  A token is a piece of a text together with
the lexeme that it matches and the position at which it starts.
-/
import ScriptLang.Rule

namespace ScriptLang

/-- A kind of word. -/
structure Lexeme where
  /-- The name of the kind. -/
  id : String
  /-- What its words look like. -/
  rule : Rule
  /-- Whether its words are dropped. -/
  skippable : Bool := false

/-- A word of a text. -/
structure Token where
  /-- The kind of the word. -/
  lexeme : Lexeme
  /-- The word. -/
  text : List Char
  /-- Where it starts. -/
  place : Position

namespace Token

/-- The name of the token's kind. -/
def kind (t : Token) : String := t.lexeme.id

/-- The position after the token. -/
def stop (t : Token) : Position := t.place.advanceOver t.text

/-- Two tokens are the same if they agree on kind, text and position. -/
def same (t u : Token) : Bool := t.kind == u.kind && t.text == u.text && t.place == u.place

/-- A token as a text for inspection. -/
def inspect (t : Token) : String :=
  t.kind ++ "(" ++ Text.quoted (String.ofList t.text) ++ ") at " ++ t.place.display

end Token

end ScriptLang
