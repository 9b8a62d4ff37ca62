/-
Quoted text.

A text is shown between two quotes, with the characters that would end it or could not be told from
others written as escapes: controls, blanks other than the space, marks that join the character
before them, and code points that no character has.  The same escapes serve for a text between
double quotes and for a single character between single quotes; each leaves the other kind of quote
alone.
-/
import ScriptLang.Text.Extending
import ScriptLang.Text.Unassigned

namespace ScriptLang.Text

/-- The control, format, separator and private-use characters after ASCII's visible characters, and
the fillers of Hangul, which are letters without a shape. -/
def invisibleRanges : List (Nat × Nat) :=
  [ (0x7f, 0xa0), (0xad, 0xad), (0x600, 0x605), (0x61c, 0x61c), (0x6dd, 0x6dd), (0x70f, 0x70f),
    (0x890, 0x891), (0x8e2, 0x8e2), (0x115f, 0x1160), (0x1680, 0x1680), (0x180e, 0x180e),
    (0x2000, 0x200f), (0x2028, 0x202f), (0x205f, 0x2064), (0x2066, 0x206f), (0x3000, 0x3000),
    (0x3164, 0x3164), (0xe000, 0xf8ff), (0xfeff, 0xfeff), (0xffa0, 0xffa0), (0xfff9, 0xfffb),
    (0x110bd, 0x110bd), (0x110cd, 0x110cd), (0x13430, 0x1343f), (0x1bca0, 0x1bca3),
    (0x1d173, 0x1d17a), (0xe0001, 0xe0001), (0xe0020, 0xe007f), (0xf0000, 0xffffd),
    (0x100000, 0x10fffd) ]

/-- The halfwidth sound marks of kana.  They extend the character before them, and yet take a place
of their own. -/
def isSoundMark (n : Nat) : Bool := n == 0xff9e || n == 0xff9f

/-- Whether a character cannot be seen, or not apart from the one before it.  Of ASCII's characters
these are the controls; the space counts as visible. -/
def isHidden (c : Char) : Bool :=
  let n := c.toNat
  if n < 0x7f then n < 0x20
  else inRanges invisibleRanges n || (isExtending n && !isSoundMark n) || isUnassigned n

/-- A code point in hexadecimal between braces. -/
def codePoint (c : Char) : String :=
  "\\u\x7b" ++ String.ofList (Nat.toDigits 16 c.toNat) ++ "\x7d"

/-- The character `c` as it stands inside the quotes `quote`. -/
def escape (quote c : Char) : String :=
  if c = '\x00' then "\\0"
  else if c = '\t' then "\\t"
  else if c = '\n' then "\\n"
  else if c = '\r' then "\\r"
  else if c = '\\' then "\\\\"
  else if c = quote then String.ofList ['\\', c]
  else if isHidden c then codePoint c
  else String.singleton c

/-- A text between double quotes. -/
def quoted (s : String) : String :=
  "\"" ++ String.join (s.toList.map (escape '"')) ++ "\""

/-- A character between single quotes. -/
def quotedChar (c : Char) : String := "'" ++ escape '\'' c ++ "'"

end ScriptLang.Text
