import ChartScript.Text.CharClass

/-!
# Text/Utf16 — code units of sixteen bits

A string literal is a sequence of code units, because escapes may name the two halves of a
surrogate pair one by one.  `units` spells a character, `codePointUnits` spells an escape, and
`decodeUnits` reads a sequence back: halves that meet combine, and a half that stands alone
becomes the replacement character.  A unit is a number below `2 ^ 16`.
-/

namespace ChartScript.Text

/-- The replacement character. -/
def replacement : Char := '\ufffd'

/-- The first halves of surrogate pairs. -/
def isHighSurrogate (u : Nat) : Bool := 0xD800 ≤ u && u < 0xDC00

/-- The second halves of surrogate pairs. -/
def isLowSurrogate (u : Nat) : Bool := 0xDC00 ≤ u && u < 0xE000

/-- The code units of a code point: one below `2 ^ 16`, surrogates included, and a pair of halves
above. -/
def codePointUnits (n : Nat) : List Nat :=
  if n < 0x10000 then [n]
  else [0xD800 + (n - 0x10000) / 0x400, 0xDC00 + (n - 0x10000) % 0x400]

/-- The code units of a character. -/
def units (c : Char) : List Nat := codePointUnits c.toNat

/-- The code point that two halves of a pair stand for. -/
def joinSurrogates (high low : Nat) : Nat := 0x10000 + (high - 0xD800) * 0x400 + (low - 0xDC00)

/-- The text of a sequence of code units; a half without its partner is replaced. -/
def decodeUnits : List Nat → List Char
  | [] => []
  | [u] => [(scalar? u).getD replacement]
  | u :: v :: us =>
    if isHighSurrogate u && isLowSurrogate v then
      (scalar? (joinSurrogates u v)).getD replacement :: decodeUnits us
    else (scalar? u).getD replacement :: decodeUnits (v :: us)

end ChartScript.Text
