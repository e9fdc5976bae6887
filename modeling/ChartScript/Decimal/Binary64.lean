/-!
# Decimal/Binary64 — floating-point numbers as exact rationals

A finite double is a whole number of powers of two.  `Binary64.ofFloat` takes one apart, and
`Binary64.nearest` goes back: it rounds an exact quotient of naturals to the nearest double, a tie
to the even one.

Powers are applications of `Nat.pow`, since the notation for them depends on what else is imported.
-/

namespace ChartScript

/-- What a double stands for: the rational `coefficient * 2 ^ exponent` with a sign, an infinity,
or no number. -/
inductive Binary64 where
  | finite (negative : Bool) (coefficient : Nat) (exponent : Int)
  | infinite (negative : Bool)
  | nan
  deriving DecidableEq, Repr

namespace Binary64

/-- The least exponent of a double. -/
def minExponent : Int := -1074

/-- The parts of a double. -/
def ofFloat (x : Float) : Binary64 :=
  let bits : Nat := x.toBits.toNat
  let negative := bits / Nat.pow 2 63 == 1
  let field : Nat := bits / Nat.pow 2 52 % Nat.pow 2 11
  let fraction := bits % Nat.pow 2 52
  if field = 2047 then if fraction = 0 then .infinite negative else .nan
  else if field = 0 then .finite negative fraction minExponent
  else .finite negative (Nat.pow 2 52 + fraction) ((field : Int) - 1075)

/-- The whole number nearest to `num / den`, a tie to the even one. -/
def roundHalfEven (num den : Nat) : Nat :=
  let quotient := num / den
  let twice := 2 * (num % den)
  if den < twice || (twice == den && quotient % 2 == 1) then quotient + 1 else quotient

/-- The numerator and the denominator of `num / den / 2 ^ exponent`. -/
def shift (num den : Nat) (exponent : Int) : Nat × Nat :=
  if 0 ≤ exponent then (num, den * Nat.pow 2 exponent.toNat)
  else (num * Nat.pow 2 (-exponent).toNat, den)

/-- The exponent at which `num / den` has 53 binary digits before the point, no less than the
least one; zero has the least one. -/
def exponentOf (num den : Nat) : Int :=
  if num = 0 then minExponent else
  let guess : Int := (num.log2 : Int) - den.log2 - 53
  let (n, d) := shift num den guess
  max minExponent (if Nat.pow 2 53 * d ≤ n then guess + 1 else guess)

/-- The bit pattern of infinity. -/
def infinityBits : Nat := 2047 * Nat.pow 2 52

/-- The double nearest to `num / den`, a tie to the even one; too large a quotient is infinite. -/
def nearest (negative : Bool) (num den : Nat) : Float :=
  let exponent := exponentOf num den
  let (n, d) := shift num den exponent
  let magnitude := (exponent - minExponent).toNat * Nat.pow 2 52 + roundHalfEven n d
  let bits := min magnitude infinityBits
  Float.ofBits (if negative then bits + Nat.pow 2 63 else bits).toUInt64

end Binary64

end ChartScript
