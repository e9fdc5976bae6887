/-!
# Text/CharClass — the character classes of expressions

Which characters are layout, which begin and continue an identifier, and which are digits.  Layout
is `isWhitespace` or `isLineTerminator`; these two differ from the class `isBlank` of Text/Trim,
which selectors use.

Identifiers follow Unicode, which adds characters with every version.  What the properties of one
version are is left open here: `Xid` says what all of them have in common.
-/

namespace ChartScript.Text

/-- The characters that end a line: line feed, carriage return, and the line and paragraph
separators. -/
def isLineTerminator (c : Char) : Bool :=
  c == '\n' || c == '\r' || c == '\u2028' || c == '\u2029'

/-- The characters that separate tokens and do not end a line. -/
def isWhitespace (c : Char) : Bool :=
  c == '\t' || c == '\x0b' || c == '\x0c' || c == ' ' || c == '\u00a0' || c == '\u1680' ||
  c == '\u180e' || ('\u2000' ≤ c && c ≤ '\u200a') || c == '\u202f' || c == '\u205f' ||
  c == '\u3000' || c == '\ufeff'

/-- Layout between tokens. -/
def isLayout (c : Char) : Bool := isWhitespace c || isLineTerminator c

/-- The letters `A` to `Z` in either case. -/
def isLetter (c : Char) : Bool := ('a' ≤ c && c ≤ 'z') || ('A' ≤ c && c ≤ 'Z')

/-- The digits `0` to `7`. -/
def isOctalDigit (c : Char) : Bool := '0' ≤ c && c ≤ '7'

/-- The digits `0` to `9`. -/
def isDigit (c : Char) : Bool := '0' ≤ c && c ≤ '9'

/-- **The identifier characters of a version of Unicode**: the properties `XID_Start` and
`XID_Continue`. -/
class Xid where
  /-- The property `XID_Start`: characters that may begin an identifier. -/
  isStart : Char → Bool
  /-- The property `XID_Continue`: characters that may continue an identifier. -/
  isContinue : Char → Bool
  isContinue_of_isStart {c : Char} : isStart c = true → isContinue c = true
  /-- The first 128 characters never change. -/
  isStart_eq {c : Char} : c.toNat < 0x80 → isStart c = isLetter c
  isContinue_eq {c : Char} : c.toNat < 0x80 → isContinue c = (isLetter c || isDigit c || c == '_')
  /-- No version has layout in an identifier. -/
  isContinue_of_isLayout {c : Char} : isLayout c = true → isContinue c = false

/-- The characters that begin an identifier; a backslash begins an escaped one. -/
def isIdentifierStart [Xid] (c : Char) : Bool :=
  c == '$' || c == '_' || c == '\\' || Xid.isStart c

/-- The characters that continue an identifier: besides those of `XID_Continue` the dollar sign,
the backslash of an escaped one, and the two zero-width joiners. -/
def isIdentifierPart [Xid] (c : Char) : Bool :=
  c == '$' || c == '\\' || c == '\u200c' || c == '\u200d' || Xid.isContinue c

/-- The value of a decimal digit; its distance from `0`. -/
def digitValue (c : Char) : Nat := c.toNat - '0'.toNat

/-- The value of a hexadecimal digit, in either case. -/
def hexValue? (c : Char) : Option Nat :=
  if '0' ≤ c && c ≤ '9' then some (c.toNat - '0'.toNat)
  else if 'a' ≤ c && c ≤ 'f' then some (c.toNat - 'a'.toNat + 10)
  else if 'A' ≤ c && c ≤ 'F' then some (c.toNat - 'A'.toNat + 10)
  else none

/-- The greatest code point. -/
def maxCodePoint : Nat := 0x10FFFF

/-- The character with scalar value `n`, unless `n` is a surrogate or above `10FFFF`. -/
def scalar? (n : Nat) : Option Char :=
  if n.isValidChar then some (Char.ofNat n) else none

end ChartScript.Text
