import ChartScript.Decimal.Binary64
import ChartScript.Text.CharClass

/-!
# Decimal/Basic — decimal numbers and their texts

A `Decimal` is an exact number `± coefficient * 10 ^ exponent`.  `Decimal.read?` reads the text of
one, `Decimal.complete` supplies the digits that a literal may leave out on either side of its
point, and `Decimal.toFloat` rounds the number to the nearest double.
-/

namespace ChartScript

open Text

/-- The number `coefficient * 10 ^ exponent`, or its negative. -/
structure Decimal where
  negative : Bool
  coefficient : Nat
  exponent : Int
  deriving DecidableEq, Repr, Inhabited

namespace Decimal

/-- The number that a run of decimal digits spells. -/
def digitsValue (digits : List Char) : Nat :=
  digits.foldl (fun value c => 10 * value + digitValue c) 0

/-- The number of decimal digits of `n`; zero has one. -/
def digitCount (n : Nat) : Nat := (Nat.toDigits 10 n).length

/-- Splits a sign off; without one a number is not negative. -/
def readSign : List Char → Bool × List Char
  | '-' :: cs => (true, cs)
  | '+' :: cs => (false, cs)
  | cs => (false, cs)

/-- Reads what may follow the digits: nothing, or `e` and a whole number. -/
def readExponent? : List Char → Option Int
  | [] => some 0
  | c :: cs =>
    if c == 'e' || c == 'E' then
      let (negative, digits) := readSign cs
      if digits ≠ [] && digits.all isDigit then
        some (if negative then -(digitsValue digits : Int) else digitsValue digits)
      else none
    else none

/-- Splits the digits after a point off; without a point there are none. -/
def readFraction : List Char → List Char × List Char
  | '.' :: cs => (cs.takeWhile isDigit, cs.dropWhile isDigit)
  | cs => ([], cs)

/-- Reads a decimal number: a sign, digits with a point among, before or after them, and an
exponent, of which only a digit is required. -/
def read? (text : List Char) : Option Decimal :=
  let (negative, body) := readSign text
  let whole := body.takeWhile isDigit
  let (fraction, rest) := readFraction (body.dropWhile isDigit)
  if whole ++ fraction = [] then none
  else (readExponent? rest).map fun exponent =>
    ⟨negative, digitsValue (whole ++ fraction), exponent - fraction.length⟩

/-- Writes a zero after each point that no digit follows. -/
def completeFraction : List Char → List Char
  | [] => []
  | '.' :: c :: cs =>
    if isDigit c then '.' :: completeFraction (c :: cs)
    else '.' :: '0' :: completeFraction (c :: cs)
  | ['.'] => ['.', '0']
  | c :: cs => c :: completeFraction cs

/-- The text of a literal with the digits that it leaves out on either side of its point. -/
def complete : List Char → List Char
  | '.' :: cs => '0' :: completeFraction ('.' :: cs)
  | cs => completeFraction cs

/-- The double nearest to a decimal number.  From `10 ^ 310` on it is infinite and below
`10 ^ -330` it is zero, whatever the digits. -/
def toFloat (d : Decimal) : Float :=
  let order := (digitCount d.coefficient : Int) + d.exponent
  if d.coefficient = 0 || order < -330 then Binary64.nearest d.negative 0 1
  else if 311 < order then Binary64.nearest d.negative (Nat.pow 2 1024) 1
  else if 0 ≤ d.exponent then
    Binary64.nearest d.negative (d.coefficient * Nat.pow 10 d.exponent.toNat) 1
  else Binary64.nearest d.negative d.coefficient (Nat.pow 10 (-d.exponent).toNat)

end Decimal

end ChartScript
