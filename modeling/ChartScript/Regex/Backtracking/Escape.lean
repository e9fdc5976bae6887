import ChartScript.Decimal.Basic
import ChartScript.Regex.Backtracking.Property
import ChartScript.Regex.CodePoint
import ChartScript.Regex.Notation
import ChartScript.Regex.Pattern
import ChartScript.Text.Category
import ChartScript.Text.Span

/-!
# Regex/Backtracking/Escape — the escapes of a backtracking engine

Escapes are lenient about digits, any character that is no letter and no digit may be escaped, and
some escapes refer to groups.
-/

namespace ChartScript.Regex.Backtracking

open Text

/-- Whether a character may stand in a name. -/
def isNamePart (c : Char) : Bool := c == '_' || isUnicodeLetter c || isDecimal c

/-- Whether a text names a group. -/
def isGroupName : List Char → Bool
  | [] => false
  | c :: cs => !isDecimal c && (c :: cs).all isNamePart && byteSize (c :: cs) ≤ 128

/-- Blanks that do not count between braces. -/
def isGap (c : Char) : Bool := c == ' ' || c == '\t'

/-- A text without blanks at its ends. -/
def withoutGaps (cs : List Char) : List Char :=
  ((cs.dropWhile isGap).reverse.dropWhile isGap).reverse

/-- Reads the code of a character in braces, behind the opening brace. -/
def readCode (isDigitOf : Char → Bool) (value : List Char → Nat) (cs : List Char) :
    Option (Char × List Char) :=
  match readTo '\x7d' cs with
  | none => none
  | some (text, rest) =>
    let digits := withoutGaps text
    if digits ≠ [] && digits.all isDigitOf then (scalar? (value digits)).map (·, rest) else none

/-- The number that a run of octal digits spells. -/
def octalValue (digits : List Char) : Nat :=
  digits.foldl (fun value c => 8 * value + digitValue c) 0

/-- Reads a character by its hexadecimal code: in braces, or as one or two digits. -/
def readHex : List Char → Option (Char × List Char)
  | '\x7b' :: cs => readCode (fun c => (hexValue? c).isSome) hexValue cs
  | cs =>
    let digits := (cs.take 2).takeWhile fun c => (hexValue? c).isSome
    if digits = [] then none else some (Char.ofNat (hexValue digits), cs.drop digits.length)

/-- Reads a character by its octal code of up to three digits. -/
def readOctal (cs : List Char) : Char × List Char :=
  let digits := (cs.take 3).takeWhile isOctalDigit
  (Char.ofNat (octalValue digits), cs.drop digits.length)

/-- Reads a control character behind its letter `c`; its code differs from that of the letter in
upper case by one bit. -/
def readControl : List Char → Option (Char × List Char)
  | c :: cs =>
    if ' ' ≤ c && c ≤ '~' then
      let upper := if 'a' ≤ c && c ≤ 'z' then c.toNat - 32 else c.toNat
      some (Char.ofNat (upper ^^^ 64), cs)
    else none
  | [] => none

/-- What an escape stands for. -/
inductive Escape where
  | char (c : Char)
  /-- A set of characters, with its part in the size of the compiled pattern. -/
  | set (size : Nat)
  /-- Some characters, of which there may be more than one. -/
  | several (high : Option Nat)
  /-- A place between characters. -/
  | place
  | reference (target : Reference)
  deriving DecidableEq, Repr

/-- A character with what follows it, as an escape. -/
def asChar (read : Char × List Char) : Escape × List Char := (.char read.1, read.2)

/-- Reads an escape that means the same inside a class and outside. -/
def readCommon (c : Char) (cs : List Char) : Option (Escape × List Char) :=
  match c with
  | 'd' | 'D' | 's' | 'S' | 'w' | 'W' | 'v' | 'V' | 'h' | 'H' => some (.set 1, cs)
  | 'a' => some (.char '\x07', cs)
  | 'e' => some (.char '\x1b', cs)
  | 'f' => some (.char '\x0c', cs)
  | 'n' => some (.char '\n', cs)
  | 'r' => some (.char '\r', cs)
  | 't' => some (.char '\t', cs)
  | 'c' => (readControl cs).map asChar
  | 'o' =>
    match cs with
    | '\x7b' :: cs => (readCode isOctalDigit octalValue cs).map asChar
    | _ => none
  | 'x' => (readHex cs).map asChar
  | 'p' | 'P' =>
    match readPropertyText cs with
    | some (text, rest) => if isProperty text then some (.set 3, rest) else none
    | none => none
  | c =>
    if isLetter c then none
    else if isOctalDigit c then some (asChar (readOctal (c :: cs)))
    else some (.char c, cs)

/-- Reads the name of a group up to the mark `stop`. -/
def readName (stop : Char) (cs : List Char) : Option (List Char × List Char) :=
  match readTo stop cs with
  | some (name, rest) => if isGroupName name then some (name, rest) else none
  | none => none

/-- Reads a reference by name behind its letter `k`. -/
def readNamed : List Char → Option (Escape × List Char)
  | '<' :: cs => (readName '>' cs).map fun (name, rest) => (.reference (.name name), rest)
  | '\'' :: cs => (readName '\'' cs).map fun (name, rest) => (.reference (.name name), rest)
  | '\x7b' :: cs =>
    match readTo '\x7d' cs with
    | some (text, rest) =>
      let name := withoutGaps text
      if isGroupName name then some (.reference (.name name), rest) else none
    | none => none
  | _ => none

/-- The greatest number that may be one of a group. -/
def maxNumber : Nat := 214748363

/-- Reads an escape outside a class, behind its backslash.  A number below ten, one that begins with
`8` or `9`, and one of a group that has been opened refer to groups; any other is octal. -/
def readEscape (groups : Nat) : List Char → Option (Escape × List Char)
  | [] => none
  | c :: cs =>
    match c with
    | 'A' | 'B' | 'G' | 'K' | 'Z' | 'b' | 'z' => some (.place, cs)
    | 'C' | 'N' => some (.set 1, cs)
    | 'R' => some (.several (some 2), cs)
    | 'X' => some (.several none, cs)
    | 'k' => readNamed cs
    | c =>
      let (digits, rest) := readDigits (c :: cs)
      let number := Decimal.digitsValue digits
      if digits ≠ [] && c != '0' && number ≤ maxNumber &&
          (number < 10 || '8' ≤ c || number ≤ groups) then
        some (.reference (.number number), rest)
      else readCommon c cs

/-- Reads an escape inside a class, behind its backslash. -/
def readClassEscape : List Char → Option (Escape × List Char)
  | [] => none
  | 'b' :: cs => some (.char '\x08', cs)
  | 'k' :: cs => some (.char 'k', cs)
  | c :: cs => readCommon c cs

end ChartScript.Regex.Backtracking
