import ChartScript.Regex.Pattern

/-!
# Regex/Backtracking/Size — how large a compiled pattern is

A backtracking engine compiles a pattern to a code of bytes, in which a repeated group is written
out as often as it has to match, and once more for each time that it may match.
-/

namespace ChartScript.Regex.Backtracking

/-- The size of a character with its instruction. -/
def charSize (c : Char) : Nat := 1 + c.utf8Size

/-- The size of a class with its instruction. -/
def classSize : Nat := 33

/-- The size of a reference with its instruction. -/
def referenceSize : Nat := 3

/-- The size of what opens and closes a group. -/
def groupSize : GroupKind → Nat
  | .plain | .lookahead | .scan _ => 6
  | .capture _ => 8
  | .lookbehind => 9

/-- The size of a bar between alternatives. -/
def barSize : Nat := 3

/-- The size of a group of size `size` that is repeated.  A group that may be left out is written
within the ones before it, which costs the size of a plain group and a mark each. -/
def repeatedSize (size low : Nat) : Option Nat → Nat
  | none => if low ≤ 1 then size + 1 else size * low
  | some high =>
    if high ≤ 1 then size + 1
    else if low = 0 then size + 4 + (high - 1) * (size + 7) - 6
    else if low < high then size * low + (high - low) * (size + 7) - 6
    else size * low

/-- The greatest count that is written out for what looks around: once more than it has to match. -/
def boundedHigh (body : Pattern) (low : Nat) (high : Option Nat) : Option Nat :=
  match body with
  | .group .lookahead _ | .group (.scan _) _ | .group .lookbehind _ => some (high.getD (low + 1))
  | _ => high

/-- The size of a compiled pattern, in bytes. -/
def size : Pattern → Nat
  | .empty => 0
  | .place | .stop => 1
  | .one size _ => size
  | .reference _ => referenceSize
  | .seq a b => size a + size b
  | .alt a b => size a + barSize + size b
  | .group kind body => groupSize kind + size body
  | .repeated (.one size _) _ _ => 2 * (size + 2)
  | .repeated body low high => repeatedSize (size body) low (boundedHigh body low high)

/-- The size of what every compiled pattern holds. -/
def overhead : Nat := 7

/-- The greatest size of a compiled pattern. -/
def maxSize : Nat := 65536

end ChartScript.Regex.Backtracking
