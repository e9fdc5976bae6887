import ChartScript.Regex.Linear.Escape
import ChartScript.Regex.Pattern

/-!
# Regex/Linear/Bound — how deep and how large a pattern may be

A linear-time engine refuses a pattern that nests too deep or whose compiled form is too large.
-/

namespace ChartScript.Regex.Linear

/-- How deep a pattern nests: by itself, as one of several in a row, and as one of several
alternatives.  A row and a choice count once, however many patterns they hold. -/
structure Depth where
  alone : Nat
  inRow : Nat
  inChoice : Nat
  deriving DecidableEq, Repr

/-- The depth of a pattern that is neither a row nor a choice. -/
def Depth.of (n : Nat) : Depth := ⟨n, n, n⟩

/-- How deep a pattern nests. -/
def depth : Pattern → Depth
  | .empty | .place | .stop | .reference _ => .of 0
  | .one _ depth => .of depth
  | .seq a b =>
    let inner := max (depth a).inRow (depth b).alone
    ⟨inner + 1, inner, inner + 1⟩
  | .alt a b =>
    let inner := max (depth a).inChoice (depth b).alone
    ⟨inner + 1, inner + 1, inner⟩
  | .group _ body | .repeated body _ _ => .of ((depth body).alone + 1)

/-- How deep a pattern nests at most. -/
def maxDepth : Nat := 250

/-- Whether a pattern takes no characters. -/
def isZeroWidth : Pattern → Bool
  | .empty | .place | .stop => true
  | .one .. | .reference _ => false
  | .seq a b | .alt a b => isZeroWidth a && isZeroWidth b
  | .group _ body => isZeroWidth body
  | .repeated body _ high => high == some 0 || isZeroWidth body

/-- The size of a repetition of something of size `size`. -/
def repeatedSize (size low : Nat) : Option Nat → Nat
  | some high =>
    if low = high then size * low
    else size * low + stateSize + (high - low) * (size + stateSize + 8)
  | none => if low = 0 then size + 2 * (stateSize + 8) else size * low + stateSize + 8

/-- The size of a compiled pattern, in bytes.  What takes no characters is repeated once at most. -/
def size : Pattern → Nat
  | .empty | .place | .stop | .reference _ => stateSize
  | .one size _ => size
  | .seq a b => size a + size b
  | .alt a b => size a + size b + if a.isChoice then 4 else 2 * stateSize + 8
  | .group (.capture _) body => size body + 2 * stateSize
  | .group _ body => size body
  | .repeated body low high =>
    if isZeroWidth body then repeatedSize (size body) (min low 1) (high.map (min · 1))
    else repeatedSize (size body) low high

/-- The size of what every compiled pattern holds. -/
def overhead : Nat := 250

/-- The greatest size of a compiled pattern. -/
def maxSize : Nat := 10 * (1 <<< 20)

/-- Whether a pattern stays within the bounds. -/
def isWithinBounds (p : Pattern) : Bool :=
  (depth p).alone ≤ maxDepth && size p + overhead ≤ maxSize

end ChartScript.Regex.Linear
