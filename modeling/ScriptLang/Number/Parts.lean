/-
The parts of a double.

A finite double is `± mantissa * 2 ^ exponent` with a mantissa below `2 ^ 53`.  The exact integer
arithmetic of this library (shortest decimal digits, remainders) works on these parts.
-/

namespace ScriptLang.Number

/-- A finite double as an exact number. -/
structure Parts where
  /-- Whether the sign bit is set. -/
  negative : Bool
  /-- The absolute value, in units of `2 ^ exponent`. -/
  mantissa : Nat
  /-- The binary exponent of the last place. -/
  exponent : Int
  deriving DecidableEq, Repr

namespace Parts

/-- The smallest exponent of a last place. -/
def leastExponent : Int := -1074

/-- The parts of a double, or nothing for the infinities and for what is not a number. -/
def ofFloat? (x : Float) : Option Parts :=
  let bits := x.toBits.toNat
  let negative := bits / Nat.pow 2 63 == 1
  let biased : Nat := bits / Nat.pow 2 52 % Nat.pow 2 11
  let fraction : Nat := bits % Nat.pow 2 52
  if biased = 2047 then none
  else if biased = 0 then some ⟨negative, fraction, leastExponent⟩
  else some ⟨negative, Nat.pow 2 52 + fraction, (biased : Int) - 1075⟩

/-- The double with the given parts, for a mantissa below `2 ^ 53` and an exponent that is not below
the least one.  The mantissa is first moved up as far as it goes. -/
def toFloat (p : Parts) : Float :=
  let sign := if p.negative then Nat.pow 2 63 else 0
  let shift := min (52 - p.mantissa.log2) (p.exponent - leastExponent).toNat
  let mantissa := p.mantissa * Nat.pow 2 shift
  let biased := (p.exponent - shift + 1075).toNat
  let magnitude :=
    if mantissa < Nat.pow 2 52 then mantissa
    else biased * Nat.pow 2 52 + (mantissa - Nat.pow 2 52)
  Float.ofBits (UInt64.ofNat (sign + magnitude))

end Parts

/-- The remainder of a division that rounds its quotient toward zero.  It is exact, it takes the sign
of the dividend, also when it is zero, and it is not a number when the dividend is infinite or the
divisor is zero. -/
def remainder (x y : Float) : Float :=
  match Parts.ofFloat? x, Parts.ofFloat? y with
  | none, _ => 0.0 / 0.0
  | some _, none => if y.isNaN then y else x
  | some p, some q =>
    if q.mantissa = 0 then 0.0 / 0.0
    else
      let exponent := min p.exponent q.exponent
      let dividend := p.mantissa * Nat.pow 2 (p.exponent - exponent).toNat
      let divisor := q.mantissa * Nat.pow 2 (q.exponent - exponent).toNat
      Parts.toFloat ⟨p.negative, dividend % divisor, exponent⟩

/-- Whether a number is finite and has no fraction. -/
def isIntegral (x : Float) : Bool := x.isFinite && x.floor == x

/-- The low 32 bits of a number cut toward zero.  Before that it is brought into the range of
64 bits, and what is not a number counts as zero. -/
def toWord (x : Float) : Int32 := x.toInt64.toInt32

/-- The number that a 32-bit word denotes. -/
def ofWord (w : Int32) : Float := Float.ofInt w.toInt

end ScriptLang.Number
