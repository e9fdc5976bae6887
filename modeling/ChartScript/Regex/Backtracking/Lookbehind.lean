import ChartScript.Regex.Outline

/-!
# Regex/Backtracking/Lookbehind — what may be looked behind for

A backtracking engine looks behind only for text of bounded length.  `Extent` is how many characters
a pattern matches; `hasBoundedLookbehinds` says that all that is looked behind for is bounded.
-/

namespace ChartScript.Regex.Backtracking

/-- How many characters a pattern matches, at least and at most, and whether these numbers differ
for one of its alternatives. -/
structure Extent where
  low : Nat
  high : Nat
  varies : Bool
  deriving DecidableEq, Repr

namespace Extent

/-- The extent of what matches between these numbers of characters. -/
def between (low high : Nat) : Extent := ⟨low, high, low != high⟩

/-- The extent of nothing. -/
def zero : Extent := between 0 0

/-- The extent of a group, whose alternatives count as one. -/
def settle (a : Extent) : Extent := between a.low a.high

/-- One behind the other. -/
def append (a b : Extent) : Extent := between (a.low + b.low) (a.high + b.high)

/-- One or the other. -/
def orElse (a b : Extent) : Extent :=
  ⟨min a.low b.low, max a.high b.high, a.varies || b.varies⟩

/-- Some number of times; without an upper bound there is no extent. -/
def times (a : Extent) (low : Nat) : Option Nat → Option Extent
  | none => none
  | some high => some (between (a.low * low) (a.high * high))

/-- Whether something of this extent may be looked behind for. -/
def isBounded (a : Extent) : Bool := a.high ≤ if a.varies then 255 else 65535

end Extent

/-- What is known of a pattern as far as looking behind goes. -/
structure Measure where
  /-- How many characters it matches, if this is bounded. -/
  extent : Option Extent
  /-- Whether nothing that stands behind it is reached. -/
  ends : Bool
  /-- Whether all that is looked behind for in it is bounded. -/
  isSound : Bool
  deriving DecidableEq, Repr

namespace Measure

/-- The measure of a pattern in which nothing is looked behind for. -/
def ofExtent (extent : Option Extent) : Measure := ⟨extent, false, true⟩

/-- One pattern behind the other; what cannot be reached adds nothing. -/
def append (m n : Measure) : Measure :=
  let isSound := m.isSound && n.isSound
  if m.ends then ⟨m.extent, true, isSound⟩
  else ⟨m.extent.bind fun a => n.extent.map a.append, n.ends, isSound⟩

/-- One pattern or the other. -/
def orElse (m n : Measure) : Measure :=
  ⟨m.extent.bind fun a => n.extent.map a.orElse, false, m.isSound && n.isSound⟩

/-- A group with this body.  What is looked for takes no characters. -/
def group (kind : GroupKind) (m : Measure) : Measure :=
  match kind with
  | .plain | .capture _ => ⟨m.extent.map Extent.settle, false, m.isSound⟩
  | .lookahead | .scan _ => ⟨if m.isSound then some .zero else none, false, m.isSound⟩
  | .lookbehind =>
    let isSound := m.isSound && m.extent.any Extent.isBounded
    ⟨if isSound then some .zero else none, false, isSound⟩

end Measure

/-- Whether a pattern is a group that looks ahead; it may be repeated in any way. -/
def isAhead : Pattern → Bool
  | .group kind _ => kind.isAhead
  | _ => false

/-- The measure of a pattern, given the extents of the groups that it refers to. -/
def measure (extentOf : Reference → Option Extent) : Pattern → Measure
  | .empty | .place => .ofExtent (some .zero)
  | .one .. => .ofExtent (some (.between 1 1))
  | .stop => ⟨some .zero, true, true⟩
  | .reference target => .ofExtent (extentOf target)
  | .seq a b => (measure extentOf a).append (measure extentOf b)
  | .alt a b => (measure extentOf a).orElse (measure extentOf b)
  | .group kind body => (measure extentOf body).group kind
  | .repeated body low high =>
    let m := measure extentOf body
    if isAhead body then m else ⟨m.extent.bind (·.times low high), false, m.isSound⟩

/-- What is known of the extents of the numbered groups. -/
abbrev Extents := List (Nat × Option Extent)

/-- The extent of the group that a reference names. -/
def Extents.of? (known : Extents) (o : Outline) (target : Reference) : Option Extent :=
  (o.group? target).bind fun number => (known.lookup number).join

/-- The extents of the numbered groups, from what is known of the groups that they refer to. -/
def refine (o : Outline) (known : Extents) : Extents :=
  o.pattern.captures.map fun (number, body) =>
    (number, (measure (known.of? o) body).extent.map Extent.settle)

/-- Refines the extents until nothing more is found, at most `rounds` times. -/
def refineAll (o : Outline) : (rounds : Nat) → Extents → Extents
  | 0, known => known
  | rounds + 1, known =>
    let next := refine o known
    if next = known then known else refineAll o rounds next

/-- The extents of the numbered groups.  References are followed once more often than there are any,
so that only groups that refer to themselves are left without. -/
def extents (o : Outline) : Extents := refineAll o (o.pattern.references.length + 1) []

/-- **Whether all that a pattern looks behind for is bounded.** -/
def hasBoundedLookbehinds (o : Outline) : Bool :=
  (measure ((extents o).of? o) o.pattern).isSound

end ChartScript.Regex.Backtracking
