/-
Lexers: cutting a text into tokens.

At every point of the text all lexemes are tried.  The one that takes most wins, and the one that was
registered first if several take the same; a lexeme that takes nothing is no candidate.  The words of
skippable lexemes are dropped.  A lexer keeps at most one token that was looked at and not read yet.
-/
import ScriptLang.Token

namespace ScriptLang

/-- A text that is being cut into tokens. -/
structure Lexer where
  /-- The group of branches over the text. -/
  group : Group Reader Char
  /-- The branch that stands after the last word taken. -/
  cursor : Branch
  /-- The kinds of words, in the order in which they were registered. -/
  lexemes : List Lexeme
  /-- A token that was looked at and not read yet. -/
  lookahead : Option Token

namespace Lexer

/-- A computation on a lexer. -/
abbrev Scan := EStateM LexicalError Lexer

/-- A lexer at the start of a text. -/
def ofText (lexemes : List Lexeme) (text : String) : Lexer :=
  ⟨Group.ofSource (Reader.ofText text), Branch.first 0, lexemes, none⟩

/-- Works on the branches of a lexer. -/
def onBranches {β : Type} (w : Walk Reader Char β) : Scan β := fun l =>
  match w l.group with
  | .ok b group => .ok b { l with group }
  | .error e group => .error e { l with group }

/-- The position of the next character that is not part of a word taken. -/
def place (l : Lexer) : Position := l.cursor.place

/-- A lexeme that matches, with the branch that stands after its word. -/
structure Candidate where
  branch : Branch
  lexeme : Lexeme

/-- Tries a lexeme on a fork of the cursor and keeps the better of it and the best one so far. -/
def consider (cursor : Branch) (best : Option Candidate) (lexeme : Lexeme) :
    Walk Reader Char (Option Candidate) := do
  let fork ← cursor.fork
  let (ok, fork) ← lexeme.rule.run fork
  if ok && cursor.position < fork.position &&
      best.all (fun c => c.branch.position < fork.position) then
    if let some c := best then let _ ← c.branch.release
    return some ⟨fork, lexeme⟩
  else
    let _ ← fork.release
    return best

/-- The lexeme that takes most at the cursor. -/
def best (cursor : Branch) (lexemes : List Lexeme) : Walk Reader Char (Option Candidate) :=
  lexemes.foldlM (consider cursor) none

/-- Takes the next word, which is absent at the end of the text. -/
def word : Scan (Option Token) := do
  let l ← get
  match ← onBranches l.cursor.peek with
  | none => return none
  | some _ =>
    match ← onBranches (best l.cursor l.lexemes) with
    | none => throw (.noLexeme l.cursor.place)
    | some c =>
      let (text, cursor) ← onBranches (l.cursor.merge c.branch)
      let _ ← onBranches c.branch.dispose
      modify ({ · with cursor })
      return some ⟨c.lexeme, text.getD [], l.cursor.place⟩

/-- Takes words until one is not dropped.  A word is never empty, so `bound` turns are enough if
`bound` exceeds the characters left. -/
def wordToKeep : (bound : Nat) → Scan (Option Token)
  | 0 => return none
  | bound + 1 => do
    match ← word with
    | none => return none
    | some t => if t.lexeme.skippable then wordToKeep bound else return some t

/-- How many characters were not taken yet. -/
def remaining (l : Lexer) : Nat := Rule.remaining l.cursor l.group

/-- Takes the next token. -/
def next : Scan (Option Token) := do
  let l ← get
  wordToKeep (l.remaining + 1)

/-- The next token, which can still be read. -/
def peek : Scan (Option Token) := do
  match (← get).lookahead with
  | some t => return some t
  | none =>
    let t ← next
    modify ({ · with lookahead := t })
    return t

/-- Reads the next token. -/
def read : Scan (Option Token) := do
  match (← get).lookahead with
  | some t =>
    modify ({ · with lookahead := none })
    return some t
  | none => next

/-- Reads tokens until the text ends.  Each token takes a character, so `bound` turns are enough if
`bound` exceeds the characters left by more than one. -/
def readAll : (bound : Nat) → Scan (List Token)
  | 0 => return []
  | bound + 1 => do
    match ← read with
    | none => return []
    | some t =>
      let ts ← readAll bound
      return t :: ts

/-- Reads all the tokens that are left. -/
def tokenize : Scan (List Token) := do
  let l ← get
  readAll (l.remaining + 2)

end Lexer

instance : Source Lexer Token where
  pull l :=
    match Lexer.read l with
    | .ok t l => (.ok t, l)
    | .error e l => (.error e, l)
  after t _ := t.stop

end ScriptLang
