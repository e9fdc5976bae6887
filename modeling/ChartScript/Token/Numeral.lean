import ChartScript.Decimal.Basic
import ChartScript.Token.Scan

/-!
# Token/Numeral — number literals

A number is decimal, hexadecimal behind `0x`, or legacy octal behind `0`.  A decimal literal is read
as an exact decimal number and rounded once; the digits of the other two forms are accumulated, with
a rounding at each step.  No number is followed by an identifier start.
-/

namespace ChartScript.Scan

open Text

/-- The value of the text of a decimal literal. -/
def decimalValue (text : List Char) : Float :=
  ((Decimal.read? (Decimal.complete text)).map Decimal.toFloat).getD (0 / 0)

/-- Reads hexadecimal digits behind the value read so far. -/
def hexValue (value : Float) : List Char → Float × List Char
  | [] => (value, [])
  | c :: cs =>
    match hexValue? c with
    | some digit => hexValue (value * 16 + Float.ofNat digit) cs
    | none => (value, c :: cs)

/-- Reads octal digits behind the value read so far. -/
def octalValue (value : Float) : List Char → Float × List Char
  | [] => (value, [])
  | c :: cs =>
    if isOctalDigit c then octalValue (value * 8 + Float.ofNat (digitValue c)) cs
    else (value, c :: cs)

/-- What follows a point and the digits behind it, or all of it when there is no point. -/
def skipFraction : List Char → List Char
  | '.' :: cs => cs.dropWhile isDigit
  | cs => cs

/-- What follows a sign, or all of it when there is none. -/
def skipSign : List Char → List Char
  | '+' :: cs => cs
  | '-' :: cs => cs
  | cs => cs

/-- Reads an exponent if one begins here; an exponent has at least one digit. -/
def exponent : List Char → Scan Unit
  | [] => .ok ((), [])
  | c :: cs =>
    if c == 'e' || c == 'E' then
      if (skipSign cs).head?.any isDigit then .ok ((), (skipSign cs).dropWhile isDigit)
      else illegal (skipSign cs)
    else .ok ((), c :: cs)

theorem hexValue_suffix (value : Float) (cs : List Char) : (hexValue value cs).2 <:+ cs := by
  induction cs generalizing value with
  | nil => exact List.suffix_refl []
  | cons c cs ih =>
    unfold hexValue
    split
    · exact (ih _).trans (List.suffix_cons c cs)
    · exact List.suffix_refl _

theorem octalValue_suffix (value : Float) (cs : List Char) : (octalValue value cs).2 <:+ cs := by
  induction cs generalizing value with
  | nil => exact List.suffix_refl []
  | cons c cs ih =>
    unfold octalValue
    split
    · exact (ih _).trans (List.suffix_cons c cs)
    · exact List.suffix_refl _

theorem skipFraction_suffix (cs : List Char) : skipFraction cs <:+ cs := by
  unfold skipFraction
  split
  · next cs => exact (List.dropWhile_suffix _).trans (List.suffix_cons _ cs)
  · exact List.suffix_refl _

theorem skipSign_suffix (cs : List Char) : skipSign cs <:+ cs := by
  unfold skipSign
  split
  · exact List.suffix_cons _ _
  · exact List.suffix_cons _ _
  · exact List.suffix_refl _

theorem within_exponent (cs : List Char) : Within cs (exponent cs) := by
  unfold exponent
  split
  · exact List.suffix_refl []
  · next c cs =>
    split
    · have hs : skipSign cs <:+ c :: cs := (skipSign_suffix cs).trans (List.suffix_cons c cs)
      split
      · exact (List.dropWhile_suffix _).trans hs
      · exact hs
    · exact List.suffix_refl _

variable [Xid]

/-- A number, provided that what follows may follow a number. -/
def numberEnd (value : Float) (octal : Bool) (rest : List Char) : Scan Lexeme :=
  if rest.head?.any isIdentifierStart then illegal rest else .ok (.number value octal, rest)

/-- Reads a hexadecimal literal behind its `0x`; it has at least one digit. -/
def hexLiteral (cs : List Char) : Scan Lexeme :=
  if cs.head?.any fun c => (hexValue? c).isSome then
    numberEnd (hexValue 0 cs).1 false (hexValue 0 cs).2
  else illegal cs

/-- Reads a legacy octal literal behind its first zero; no other digit follows it. -/
def octalLiteral (cs : List Char) : Scan Lexeme :=
  if (octalValue 0 cs).2.head?.any isDigit then illegal (octalValue 0 cs).2
  else numberEnd (octalValue 0 cs).1 true (octalValue 0 cs).2

/-- Reads a decimal literal. -/
def decimalLiteral (cs : List Char) : Scan Lexeme :=
  (exponent (skipFraction (cs.dropWhile isDigit))).andThen fun _ rest =>
    numberEnd (decimalValue (cs.take (cs.length - rest.length))) false rest

/-- Reads a number literal.  A zero that another digit follows begins a legacy octal literal, so
that digit is an octal one. -/
def number : List Char → Scan Lexeme
  | '0' :: c :: cs =>
    if c == 'x' || c == 'X' then hexLiteral cs
    else if isOctalDigit c then octalLiteral (c :: cs)
    else if isDigit c then illegal (c :: cs)
    else decimalLiteral ('0' :: c :: cs)
  | cs => decimalLiteral cs

/-- What follows a number was left over by it. -/
theorem within_numberEnd (value : Float) (octal : Bool) {cs rest : List Char} (h : rest <:+ cs) :
    Within cs (numberEnd value octal rest) := by
  unfold numberEnd
  split
  · exact h
  · exact h

theorem within_hexLiteral (cs : List Char) : Within cs (hexLiteral cs) := by
  unfold hexLiteral
  split
  · exact within_numberEnd _ _ (hexValue_suffix 0 cs)
  · exact List.suffix_refl cs

theorem within_octalLiteral (cs : List Char) : Within cs (octalLiteral cs) := by
  unfold octalLiteral
  split
  · exact octalValue_suffix 0 cs
  · exact within_numberEnd _ _ (octalValue_suffix 0 cs)

/-- A decimal literal that begins with a digit or a point takes that character. -/
theorem within_decimalLiteral {c : Char} (cs : List Char) (hc : isDigit c = true ∨ c = '.') :
    Within cs (decimalLiteral (c :: cs)) := by
  have hs : skipFraction ((c :: cs).dropWhile isDigit) <:+ cs := by
    rcases hc with hc | rfl
    · rw [List.dropWhile_cons_of_pos hc]
      exact (skipFraction_suffix _).trans (List.dropWhile_suffix _)
    · rw [List.dropWhile_cons_of_neg (by decide)]
      exact List.dropWhile_suffix _
  exact ((within_exponent _).mono hs).andThen fun _ rest hr => within_numberEnd _ _ hr

/-- **A number takes at least one character.** -/
theorem within_number {c : Char} (cs : List Char) (hc : isDigit c = true ∨ c = '.') :
    Within cs (number (c :: cs)) := by
  unfold number
  split
  · next d ds heq =>
    cases heq
    split
    · exact (within_hexLiteral ds).mono (List.suffix_cons d ds)
    · split
      · exact within_octalLiteral _
      · split
        · exact List.suffix_refl _
        · exact within_decimalLiteral _ (.inl (by decide))
  · exact within_decimalLiteral cs hc

end ChartScript.Scan
