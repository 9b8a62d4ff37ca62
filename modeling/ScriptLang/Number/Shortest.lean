/-
The shortest decimal digits of a double.

The reals that round to a double form an interval around it, whose ends belong to it exactly when
the mantissa is even.  Among the decimals in this interval those with the fewest digits are taken,
and of these the one nearest to the double; of two equally near ones the larger.

The search goes through ever finer decimal grids.  If a grid has a point in the interval, then one
of the two neighbours of the double on this grid lies in it, so only these two are tried.
-/
import ScriptLang.Number.Parts

namespace ScriptLang.Number

/-- A decimal `digits * 10 ^ exponent`. -/
structure Decimal where
  digits : Nat
  exponent : Int
  deriving DecidableEq, Repr

/-- The interval of reals that round to a double.  All four numbers are in units of
`2 ^ exponent`. -/
structure Interval where
  /-- The lower end. -/
  low : Nat
  /-- The double itself. -/
  middle : Nat
  /-- The upper end. -/
  high : Nat
  /-- The exponent of the unit. -/
  exponent : Int
  /-- Whether the two ends belong to the interval. -/
  closed : Bool

namespace Interval

/-- The interval of `mantissa * 2 ^ exponent`.  Below a power of two the doubles are twice as dense,
so there the lower end is nearer. -/
def ofParts (mantissa : Nat) (exponent : Int) : Interval :=
  let below := if mantissa = Nat.pow 2 52 ∧ exponent ≠ Parts.leastExponent then 1 else 2
  { low := 4 * mantissa - below
    middle := 4 * mantissa
    high := 4 * mantissa + 2
    exponent := exponent - 2
    closed := mantissa % 2 == 0 }

/-- The number `n` in units of `2 ^ exponent`, brought to the common denominator of the units
`2 ^ exponent` and `10 ^ place`. -/
def scaled (i : Interval) (place : Int) (n : Nat) : Nat :=
  n * Nat.pow 2 i.exponent.toNat * Nat.pow 10 (-place).toNat

/-- The number `d` in units of `10 ^ place`, brought to the same denominator. -/
def scaledDecimal (i : Interval) (place : Int) (d : Nat) : Nat :=
  d * Nat.pow 10 place.toNat * Nat.pow 2 (-i.exponent).toNat

/-- Whether the interval holds `d * 10 ^ place`. -/
def holds (i : Interval) (place : Int) (d : Nat) : Bool :=
  let x := i.scaledDecimal place d
  let low := i.scaled place i.low
  let high := i.scaled place i.high
  if i.closed then low ≤ x && x ≤ high else low < x && x < high

/-- The better of the two neighbours of the double on the grid of `10 ^ place`, if one of them lies in
the interval. -/
def nearest? (i : Interval) (place : Int) : Option Decimal :=
  let middle := i.scaled place i.middle
  let unit := i.scaledDecimal place 1
  let down := middle / unit
  let up := down + 1
  match i.holds place down, i.holds place up with
  | false, false => none
  | true, false => some ⟨down, place⟩
  | false, true => some ⟨up, place⟩
  | true, true => if 2 * (middle % unit) < unit then some ⟨down, place⟩ else some ⟨up, place⟩

/-- The first hit on the grids of `10 ^ place`, `10 ^ (place - 1)` and so on, at most `tries` of
them. -/
def search (i : Interval) (place : Int) : (tries : Nat) → Decimal
  | 0 => ⟨i.middle, i.exponent⟩
  | tries + 1 =>
    match i.nearest? place with
    | some d => d
    | none => i.search (place - 1) tries

end Interval

/-- The shortest decimal that reads back as `mantissa * 2 ^ exponent`.  The first grid tried is
coarser than the number, and twenty-one grids reach past the seventeen digits that always suffice. -/
def shortest (mantissa : Nat) (exponent : Int) : Decimal :=
  if mantissa = 0 then ⟨0, 0⟩
  else
    let bits := (mantissa.log2 : Int) + 1 + exponent
    (Interval.ofParts mantissa exponent).search (bits * 30103 / 100000 + 2) 21

/-- A decimal written with all its places and no exponent. -/
def Decimal.positional (d : Decimal) : String :=
  let digits := Nat.toDigits 10 d.digits
  let places := (-d.exponent).toNat
  if 0 ≤ d.exponent then String.ofList (digits ++ List.replicate d.exponent.toNat '0')
  else if places < digits.length then
    String.ofList (digits.take (digits.length - places)) ++ "." ++
      String.ofList (digits.drop (digits.length - places))
  else "0." ++ String.ofList (List.replicate (places - digits.length) '0' ++ digits)

end ScriptLang.Number
