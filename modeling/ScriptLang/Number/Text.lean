/-
The text of a number.

There are two ways to write a number.  Scripts see `Number.display`, where whole numbers of moderate
size are written as integers, so that negative zero has no sign.  `Number.plain` keeps the sign of
zero and has its own words for the infinities.
-/
import ScriptLang.Number.Shortest

namespace ScriptLang.Number

/-- The shortest digits of a finite number, with its sign, and `special` for the others. -/
def positional (special : String) (x : Float) : String :=
  match Parts.ofFloat? x with
  | none => special
  | some p =>
    (if p.negative then "-" else "") ++ (shortest p.mantissa p.exponent).positional

/-- The text of a number with the sign of zero kept. -/
def plain (x : Float) : String :=
  if x.isNaN then "NaN"
  else positional (if x < 0 then "-inf" else "inf") x

/-- The whole numbers below this one in size are written as integers. -/
def integerBound : Float := 1000000000000000

/-- The text of a number as scripts see it. -/
def display (x : Float) : String :=
  if x.isNaN then "NaN"
  else if isIntegral x && x.abs < integerBound then toString x.toInt64.toInt
  else positional (if x < 0 then "-Infinity" else "Infinity") x

end ScriptLang.Number
