import ChartScript.Text.CharClass
import ChartScript.Token.Scan

/-!
# Token/Escape — escapes by number

Identifiers and strings name characters by their hexadecimal code: `hexDigits` reads a fixed number
of digits, and `codePoint` reads any number of them up to a closing brace.  However many these are,
their value is kept in 32 bits; one that does not fit stays at the greatest that does.
-/

namespace ChartScript.Scan

open Text

/-- Reads `count` hexadecimal digits behind the value read so far. -/
def hexDigits (count value : Nat) (cs : List Char) : Scan Nat :=
  match count with
  | 0 => .ok (value, cs)
  | count + 1 =>
    match cs with
    | [] => illegal []
    | c :: rest =>
      match hexValue? c with
      | some digit => hexDigits count (16 * value + digit) rest
      | none => illegal cs

/-- A number in 32 bits; one that does not fit becomes the greatest that does. -/
def saturate (n : Nat) : UInt32 := UInt32.ofNat (min n (UInt32.size - 1))

/-- The value with one more hexadecimal digit behind it. -/
def pushDigit (value : UInt32) (digit : Nat) : UInt32 :=
  saturate ((saturate (16 * value.toNat)).toNat + digit)

@[simp] theorem toNat_saturate (n : Nat) : (saturate n).toNat = min n (UInt32.size - 1) :=
  UInt32.toNat_ofNat_of_lt' (by simp only [UInt32.size]; omega)

/-- **A further digit is exact or keeps the greatest value**: the two steps saturate as one. -/
@[simp] theorem toNat_pushDigit (value : UInt32) (digit : Nat) :
    (pushDigit value digit).toNat = min (16 * value.toNat + digit) (UInt32.size - 1) := by
  simp only [pushDigit, toNat_saturate]
  omega

/-- Reads hexadecimal digits behind the value read so far, and the character that ends them.  The
answer is the value, whether the character was a closing brace, and the rest. -/
def braceDigits (value : UInt32) : List Char → UInt32 × Bool × List Char
  | [] => (value, false, [])
  | c :: cs =>
    match hexValue? c with
    | some digit => braceDigits (pushDigit value digit) cs
    | none => (value, c == '\x7d', cs)

/-- Reads a code point behind an opening brace: at least one digit, and the closing brace. -/
def codePoint (cs : List Char) : Scan Nat :=
  if cs.head? = some '\x7d' then illegal cs
  else
    let (value, closed, rest) := braceDigits 0 cs
    if value.toNat ≤ maxCodePoint && closed then .ok (value.toNat, rest) else illegal rest

/-- Reads the number of an escape behind its letter: in braces, or as `count` digits. -/
def escapeCode (count : Nat) : List Char → Scan Nat
  | '\x7b' :: cs => codePoint cs
  | cs => hexDigits count 0 cs

theorem within_hexDigits (count value : Nat) (cs : List Char) :
    Within cs (hexDigits count value cs) := by
  induction count generalizing value cs with
  | zero => exact List.suffix_refl cs
  | succ count ih =>
    unfold hexDigits
    split
    · exact List.suffix_refl []
    · next c rest =>
      split
      · exact (ih _ rest).mono (List.suffix_cons c rest)
      · exact List.suffix_refl _

theorem braceDigits_suffix (value : UInt32) (cs : List Char) : (braceDigits value cs).2.2 <:+ cs := by
  induction cs generalizing value with
  | nil => exact List.suffix_refl []
  | cons c cs ih =>
    unfold braceDigits
    split
    · exact (ih _).trans (List.suffix_cons c cs)
    · exact List.suffix_cons c cs

theorem within_codePoint (cs : List Char) : Within cs (codePoint cs) := by
  unfold codePoint
  split
  · exact List.suffix_refl cs
  · simp only
    split
    · exact braceDigits_suffix 0 cs
    · exact braceDigits_suffix 0 cs

theorem within_escapeCode (count : Nat) (cs : List Char) : Within cs (escapeCode count cs) := by
  unfold escapeCode
  split
  · next cs => exact (within_codePoint cs).mono (List.suffix_cons _ cs)
  · exact within_hexDigits _ _ _

end ChartScript.Scan
