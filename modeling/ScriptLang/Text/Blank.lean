/-
Blank characters.

A character is blank when it has the Unicode property `White_Space`.  Trimming a text removes the
blank characters at both of its ends.
-/

namespace ScriptLang.Text

/-- The Unicode property `White_Space`. -/
def isBlank (c : Char) : Bool :=
  let n := c.toNat
  (0x09 ≤ n && n ≤ 0x0d) || n == 0x20 || n == 0x85 || n == 0xa0 || n == 0x1680 ||
    (0x2000 ≤ n && n ≤ 0x200a) || n == 0x2028 || n == 0x2029 || n == 0x202f || n == 0x205f ||
    n == 0x3000

/-- The text without the blank characters at its end. -/
def trimRight (cs : List Char) : List Char := (cs.reverse.dropWhile isBlank).reverse

/-- The text without the blank characters at its two ends. -/
def trim (cs : List Char) : List Char := trimRight (cs.dropWhile isBlank)

/-- The lines of a text: it is cut at every line feed. -/
def lines : List Char → List (List Char)
  | [] => [[]]
  | c :: cs =>
    if c = '\n' then [] :: lines cs
    else
      match lines cs with
      | [] => [[c]]
      | l :: ls => (c :: l) :: ls

/-- Cuts a text at the first `c`, which belongs to neither side. -/
def cutAt? (c : Char) : List Char → Option (List Char × List Char)
  | [] => none
  | d :: ds =>
    if d = c then some ([], ds)
    else (cutAt? c ds).map fun (before, after) => (d :: before, after)

/-- The number that a text of ASCII digits denotes, continuing from `acc`. -/
def decimalFrom? (acc : Nat) : List Char → Option Nat
  | [] => some acc
  | c :: cs =>
    if '0' ≤ c ∧ c ≤ '9' then decimalFrom? (10 * acc + (c.toNat - '0'.toNat)) cs else none

/-- The number that a non-empty text of ASCII digits denotes. -/
def decimal? (cs : List Char) : Option Nat :=
  if cs.isEmpty then none else decimalFrom? 0 cs

end ScriptLang.Text
