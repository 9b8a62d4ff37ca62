/-
Positions in a source text.

A position is a line and a column, both counted from one.  Reading a line feed moves to the first
column of the next line, reading any other character moves one column to the right.  Both numbers
stop at `Position.limit` and never wrap, and the position with both numbers at the limit is
reserved as the mark for the end of a file.
-/

namespace ScriptLang

/-- A place in a source text. -/
structure Position where
  /-- The line, counted from one. -/
  line : Nat
  /-- The column, counted from one. -/
  column : Nat
  deriving DecidableEq, Repr, Ord

namespace Position

/-- The largest line and column that can be told apart. -/
def limit : Nat := Nat.pow 2 32 - 1

/-- The place of the first character of a text. -/
def start : Position := ⟨1, 1⟩

instance : Inhabited Position := ⟨start⟩

/-- The mark for the end of a file. -/
def endOfFile : Position := ⟨limit, limit⟩

/-- Whether a position is the mark for the end of a file. -/
def isEndOfFile (p : Position) : Bool := p == endOfFile

/-- The next number, which stays at the limit once it is there. -/
def bump (n : Nat) : Nat := min (n + 1) limit

/-- The place after the character `c` that stands at `p`. -/
def advance (p : Position) (c : Char) : Position :=
  if c = '\n' then ⟨bump p.line, 1⟩ else ⟨p.line, bump p.column⟩

/-- The place after the text `cs` that starts at `p`. -/
def advanceOver (p : Position) (cs : List Char) : Position := cs.foldl advance p

/-- The places after each character of the text `cs` that starts at `p`. -/
def trail (p : Position) : List Char → List Position
  | [] => []
  | c :: cs => p.advance c :: (p.advance c).trail cs

/-- The text of a position in messages. -/
def display (p : Position) : String :=
  if p.isEndOfFile then "<EOF>" else s!"<{p.line},{p.column}>"

@[simp]
theorem advanceOver_nil (p : Position) : p.advanceOver [] = p := rfl

@[simp]
theorem advanceOver_cons (p : Position) (c : Char) (cs : List Char) :
    p.advanceOver (c :: cs) = (p.advance c).advanceOver cs := rfl

theorem advanceOver_append (p : Position) (cs ds : List Char) :
    p.advanceOver (cs ++ ds) = (p.advanceOver cs).advanceOver ds :=
  List.foldl_append

end Position

end ScriptLang
