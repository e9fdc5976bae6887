import ChartScript.Regex.CodePoint
import ChartScript.Regex.Linear.Property

/-!
# Regex/Linear/Escape — the escapes of a linear-time engine

Escapes are strict: the digits of a code are counted, letters without an escaped meaning may not be
escaped, and there are no references.
-/

namespace ChartScript.Regex.Linear

open Text

/-- What an escape stands for. -/
inductive Escape where
  | char (c : Char)
  /-- A set of characters, with its part in the size of the compiled pattern. -/
  | set (size : Nat)
  /-- A place between characters. -/
  | place
  deriving DecidableEq, Repr

/-- The size of one state of a compiled pattern, in bytes. -/
def stateSize : Nat := 32

/-- The size of a character, which takes one state for each byte of its text. -/
def charSize (c : Char) : Nat := stateSize * c.utf8Size

/-- The size of a set that holds characters of all lengths. -/
def wideSize : Nat := 424

/-- The size of the set of digits. -/
def digitSize : Nat := 2600

/-- The size of the set of word characters. -/
def wordSize : Nat := 30000

/-- The size that is taken for the set of a property. -/
def propertySize : Nat := 10000

/-- The character whose code is written in hexadecimal digits. -/
def ofHex? (digits : List Char) : Option Char :=
  if digits ≠ [] && digits.all (fun c => (hexValue? c).isSome) then scalar? (hexValue digits)
  else none

/-- Reads the code of a character: in braces, or as `count` digits. -/
def readCode (count : Nat) : List Char → Option (Char × List Char)
  | '\x7b' :: cs =>
    match readTo '\x7d' cs with
    | some (digits, rest) => (ofHex? digits).map (·, rest)
    | none => none
  | cs =>
    if count ≤ cs.length then (ofHex? (cs.take count)).map (·, cs.drop count) else none

/-- Reads an escape behind its backslash. -/
def readEscape : List Char → Option (Escape × List Char)
  | [] => none
  | c :: cs =>
    match c with
    | 'x' => (readCode 2 cs).map fun (c, rest) => (.char c, rest)
    | 'u' => (readCode 4 cs).map fun (c, rest) => (.char c, rest)
    | 'p' | 'P' =>
      match readPropertyText cs with
      | some (text, rest) => if isProperty text then some (.set propertySize, rest) else none
      | none => none
    | 'd' | 'D' => some (.set digitSize, cs)
    | 'w' | 'W' => some (.set wordSize, cs)
    | 's' | 'S' => some (.set wideSize, cs)
    | 'b' | 'B' | '<' | '>' => some (.place, cs)
    | 'n' => some (.char '\n', cs)
    | 'r' => some (.char '\r', cs)
    | 't' => some (.char '\t', cs)
    | 'f' => some (.char '\x0c', cs)
    | 'v' => some (.char '\x0b', cs)
    | c => if c.toNat < 128 && !isLetter c && !isDigit c then some (.char c, cs) else none

end ChartScript.Regex.Linear
