/-!
# Regex/Pattern — patterns as trees

Whatever its notation, a pattern is a tree of characters, groups, alternatives and repetitions.  The
tree keeps what decides whether an engine can compile it: what is repeated, which group a reference
names, and how large a piece is once it is compiled.
-/

namespace ChartScript.Regex

/-- How a pattern names one of its groups. -/
inductive Reference where
  | number (n : Nat)
  | name (name : List Char)
  deriving DecidableEq, Repr

/-- How a group is used. -/
inductive GroupKind where
  /-- For grouping only. -/
  | plain
  /-- To remember what it matches, under its number. -/
  | capture (number : Nat)
  | lookahead
  | lookbehind
  /-- To look at what other groups have matched. -/
  | scan (groups : List Reference)
  deriving DecidableEq, Repr

/-- Whether a group looks at text without taking it, and does not look back. -/
def GroupKind.isAhead : GroupKind → Bool
  | .lookahead | .scan _ => true
  | .plain | .capture _ | .lookbehind => false

/-- **A pattern.** -/
inductive Pattern where
  /-- Matches before every character. -/
  | empty
  /-- One character; `size` is its part in the compiled pattern, and its classes nest `depth`
  deep. -/
  | one (size depth : Nat)
  /-- A place between characters. -/
  | place
  /-- Ends the match, or the attempt. -/
  | stop
  /-- What a group has matched. -/
  | reference (target : Reference)
  /-- One behind the other. -/
  | seq (a b : Pattern)
  /-- One or the other. -/
  | alt (a b : Pattern)
  | group (kind : GroupKind) (body : Pattern)
  | repeated (body : Pattern) (low : Nat) (high : Option Nat)
  deriving DecidableEq, Repr

namespace Pattern

/-- One pattern behind the other, the empty one left out. -/
def append : Pattern → Pattern → Pattern
  | .empty, b => b
  | a, .empty => a
  | a, b => .seq a b

/-- All references of a pattern. -/
def references : Pattern → List Reference
  | .empty | .one .. | .place | .stop => []
  | .reference target => [target]
  | .seq a b | .alt a b => a.references ++ b.references
  | .group (.scan groups) body => groups ++ body.references
  | .group _ body | .repeated body _ _ => body.references

/-- The groups that remember what they match, by their numbers. -/
def captures : Pattern → List (Nat × Pattern)
  | .empty | .one .. | .place | .stop | .reference _ => []
  | .seq a b | .alt a b => a.captures ++ b.captures
  | .group (.capture number) body => (number, body) :: body.captures
  | .group _ body | .repeated body _ _ => body.captures

/-- How deep groups nest. -/
def groupDepth : Pattern → Nat
  | .empty | .one .. | .place | .stop | .reference _ => 0
  | .seq a b | .alt a b => max a.groupDepth b.groupDepth
  | .group _ body => body.groupDepth + 1
  | .repeated body _ _ => body.groupDepth

/-- Whether a pattern is a choice between others. -/
def isChoice : Pattern → Bool
  | .alt .. => true
  | _ => false

end Pattern

end ChartScript.Regex
