import ChartScript.Text.Trim

/-!
# Selector/Split — cutting a selector at separators

Brackets nest, and a separator counts only outside them.  `find` goes through the bytes of a text to
the first separator at nesting depth zero, and `pieces` cuts a slice at all commas at depth zero.  A
closing bracket without its partner makes the depth negative; only depth zero counts.  The depth is
kept in 32 bits and wraps around.
-/

namespace ChartScript.Selector

open Text

/-- The search goes on at byte `i`, at some depth; `later` are the bytes from there on. -/
def findFrom (stop : UInt8) (opens closes : List UInt8) (depth : Int32) (i : Nat) :
    (later : List UInt8) → Nat
  | [] => i
  | b :: later =>
    if depth = 0 && b == stop then i
    else
      let depth :=
        if closes.contains b then depth - 1 else if opens.contains b then depth + 1 else depth
      findFrom stop opens closes depth (i + 1) later

/-- **The first `stop` at depth zero** from byte `start` on; without one, the end of the bytes.
Bytes of `opens` raise the depth, and those of `closes` lower it. -/
def find (stop : UInt8) (opens closes bytes : List UInt8) (start : Nat) : Nat :=
  findFrom stop opens closes 0 (min start bytes.length) (bytes.drop start)

/-- The first comma outside brackets and braces from byte `start` on. -/
def findComma (bytes : List UInt8) (start : Nat) : Nat :=
  find ','.toUInt8 ['['.toUInt8, '\x7b'.toUInt8] [']'.toUInt8, '\x7d'.toUInt8] bytes start

/-- The bracket that closes one in front of byte `start`. -/
def findBracket (bytes : List UInt8) (start : Nat) : Nat :=
  find ']'.toUInt8 ['['.toUInt8] [']'.toUInt8] bytes start

theorem le_findFrom (stop : UInt8) (opens closes : List UInt8) (depth : Int32) (i : Nat)
    (later : List UInt8) : i ≤ findFrom stop opens closes depth i later := by
  induction later generalizing depth i with
  | nil => exact Nat.le_refl i
  | cons b later ih =>
    unfold findFrom
    split
    · exact Nat.le_refl i
    · exact Nat.le_trans (Nat.le_succ i) (ih _ _)

/-- The pieces of a slice from byte `start` on; `bytes` are those of the slice. -/
def piecesFrom (s : Slice) (bytes : List UInt8) (start : Nat) : List Slice :=
  if start < bytes.length then
    s.cut start (findComma bytes start) :: piecesFrom s bytes (findComma bytes start + 1)
  else []
  termination_by bytes.length - start
  decreasing_by
    have hle : min start bytes.length ≤ findComma bytes start := le_findFrom _ _ _ _ _ _
    omega

/-- **The pieces of a slice** between the commas outside brackets and braces.  A comma at the end
begins no piece, and an empty slice has none. -/
def pieces (s : Slice) : List Slice := piecesFrom s (utf8 s.chars) 0

end ChartScript.Selector
