import ChartScript.Decimal.Basic
import ChartScript.Text.Trim

/-!
# Decimal/Shortest — the fewest digits that read back, and how a number is laid out

The doubles nearest to a real form a line of intervals, and a decimal reads back as a double when it
lies in the interval of that double.  `shortest` looks for such a decimal on the grids of 1, 2, … 17
digits and takes the first grid with a hit.  A `Layout` writes the digits down; the two layouts in
use are `Layout.plain`, which never writes an exponent, and `Layout.json`.
-/

namespace ChartScript.Decimal

open Text

/-- Which of two equally near decimals is taken. -/
inductive Tie where
  | up
  | even
  deriving DecidableEq, Repr

/-- The exponent of the first decimal digit of `num / den`, both positive. -/
def leadingExponent (num den : Nat) : Int :=
  if den ≤ num then (digitCount (num / den) : Int) - 1
  else
    let count := digitCount (den / num)
    if den ≤ num * Nat.pow 10 (count - 1) then 1 - (count : Int) else -(count : Int)

/-- The decimals `c * 10 ^ k` that read back as `value / den`, of the two that are its neighbours
on the grid of step `10 ^ k`; the nearer one when both do.  The interval is `low / den` to
`high / den`, with its ends when `closed`. -/
def onGrid (tie : Tie) (low value high den : Nat) (closed : Bool) (k : Int) : Option Nat :=
  let (step, scale) := if 0 ≤ k then (Nat.pow 10 k.toNat * den, 1) else (den, Nat.pow 10 (-k).toNat)
  let inside (c : Nat) : Bool :=
    if closed then low * scale ≤ c * step && c * step ≤ high * scale
    else low * scale < c * step && c * step < high * scale
  let floor := value * scale / step
  let below := value * scale - floor * step
  let above := (floor + 1) * step - value * scale
  if inside floor && inside (floor + 1) then
    if below < above then some floor
    else if above < below then some (floor + 1)
    else
      match tie with
      | .up => some (floor + 1)
      | .even => some (if floor % 2 = 0 then floor else floor + 1)
  else if inside floor then some floor
  else if inside (floor + 1) then some (floor + 1)
  else none

/-- **The fewest digits** that read back as `coefficient * 2 ^ exponent`: a whole number `c` and a
power `k` for the decimal `c * 10 ^ k`.  Lengths are measured in quarters of the last place, because
the gap below a power of two is half as wide as the gap above. -/
def shortest (tie : Tie) (coefficient : Nat) (exponent : Int) : Nat × Int :=
  let narrow := coefficient == Nat.pow 2 52 && Binary64.minExponent < exponent
  let (value, den) := Binary64.shift (4 * coefficient) 4 (-exponent)
  let unit := value / (4 * coefficient)
  let low := value - (if narrow then 1 else 2) * unit
  let high := value + 2 * unit
  let first := leadingExponent value den
  let hit (digits : Nat) : Option (Nat × Int) :=
    let k := first - digits
    (onGrid tie low value high den (coefficient % 2 == 0) k).map (·, k)
  ((List.range 17).findSome? hit).getD (value / den, 0)

/-- How a number is written. -/
structure Layout where
  /-- Which of two equally near decimals is taken. -/
  tie : Tie
  /-- Whether a number whose first digit has this exponent is written without an exponent. -/
  positional : Int → Bool
  /-- Whether a whole number that is written without an exponent keeps a zero after a point. -/
  keepsPoint : Bool
  /-- The text of infinity. -/
  infinity : String
  /-- The text of negative infinity. -/
  negativeInfinity : String
  /-- The text of what is no number. -/
  nan : String

namespace Layout

/-- Digits only: no exponent at any size, and no point in a whole number. -/
def plain : Layout := ⟨.up, fun _ => true, false, "inf", "-inf", "NaN"⟩

/-- Numbers of a JSON text: positional from `10 ^ -5` to below `10 ^ 16`, always with a point there,
and no text but `null` for what JSON cannot write. -/
def json : Layout := ⟨.even, fun e => -5 ≤ e && e < 16, true, "null", "null", "null"⟩

/-- The digits of a number without an exponent, its first digit at `10 ^ first`. -/
def writePositional (layout : Layout) (digits : List Char) (first : Int) : List Char :=
  if first < 0 then
    ['0', '.'] ++ List.replicate (-first - 1).toNat '0' ++ digits
  else
    let count := first.toNat + 1
    let whole := digits.take count ++ List.replicate (count - digits.length) '0'
    match digits.drop count with
    | [] => if layout.keepsPoint then whole ++ ['.', '0'] else whole
    | fraction => whole ++ '.' :: fraction

/-- The digits of a number with an exponent, its first digit before the point. -/
def writeScientific (digits : List Char) (first : Int) : List Char :=
  let mantissa :=
    match digits with
    | d :: e :: more => d :: '.' :: e :: more
    | short => short
  let sign := if first < 0 then '-' else '+'
  mantissa ++ 'e' :: sign :: Nat.toDigits 10 first.natAbs

/-- The text of a positive number `coefficient * 2 ^ exponent`. -/
def writePositive (layout : Layout) (coefficient : Nat) (exponent : Int) : List Char :=
  let (c, k) := shortest layout.tie coefficient exponent
  let all := Nat.toDigits 10 c
  let first := (all.length : Int) - 1 + k
  let digits := dropEndWhile (· == '0') all
  if layout.positional first then layout.writePositional digits first
  else writeScientific digits first

/-- The text of a number. -/
def write (layout : Layout) (x : Float) : String :=
  match Binary64.ofFloat x with
  | .nan => layout.nan
  | .infinite negative => if negative then layout.negativeInfinity else layout.infinity
  | .finite negative coefficient exponent =>
    let magnitude :=
      if coefficient = 0 then layout.writePositional ['0'] 0
      else layout.writePositive coefficient exponent
    String.ofList (if negative then '-' :: magnitude else magnitude)

end Layout

end ChartScript.Decimal
