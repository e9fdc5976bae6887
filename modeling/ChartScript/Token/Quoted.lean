import ChartScript.Text.Utf16
import ChartScript.Token.Escape

/-!
# Token/Quoted — string literals

A string is read as a sequence of code units, to which plain characters, escapes and line
continuations contribute; the units are decoded when the closing quote is reached.  An octal escape
other than a lone `\0` marks the string as octal.
-/

namespace ChartScript.Scan

open Text

/-- What a piece of a string contributes: its code units, and whether it is an octal escape. -/
structure Piece where
  units : List Nat
  octal : Bool
  deriving DecidableEq, Repr

/-- A piece that is no octal escape. -/
def Piece.plain (units : List Nat) : Piece := ⟨units, false⟩

/-- The contributions of two pieces that follow each other. -/
def Piece.append (p q : Piece) : Piece := ⟨p.units ++ q.units, p.octal || q.octal⟩

/-- Reads an octal escape behind its first digit: one more digit, or two behind `0` to `3`. -/
def octalEscape (first : Char) (cs : List Char) : Piece × List Char :=
  let one := digitValue first
  match cs with
  | [] => (⟨[one], one != 0⟩, [])
  | d :: rest =>
    if isOctalDigit d then
      let two := 8 * one + digitValue d
      match rest with
      | [] => (⟨[two], true⟩, [])
      | e :: more =>
        if one < 4 && isOctalDigit e then (⟨[8 * two + digitValue e], true⟩, more)
        else (⟨[two], true⟩, e :: more)
    else (⟨[one], one != 0⟩, d :: rest)

/-- Drops the line feed that belongs to a carriage return. -/
def skipLineFeed : List Char → List Char
  | '\n' :: cs => cs
  | cs => cs

/-- The control character that an escaped letter stands for. -/
def controlEscape? : Char → Option Nat
  | 'n' => some 0x0A
  | 'r' => some 0x0D
  | 't' => some 0x09
  | 'b' => some 0x08
  | 'f' => some 0x0C
  | 'v' => some 0x0B
  | _ => none

/-- Reads an escape of a string behind its backslash and the character `e`.  An escaped line
terminator continues the line and contributes nothing. -/
def stringEscape (e : Char) (cs : List Char) : Scan Piece :=
  if isLineTerminator e then .ok (.plain [], if e == '\r' then skipLineFeed cs else cs)
  else if e == 'u' then (escapeCode 4 cs).mapValue fun code => .plain (codePointUnits code)
  else if e == 'x' then (escapeCode 2 cs).mapValue fun code => .plain (codePointUnits code)
  else
    match controlEscape? e with
    | some unit => .ok (.plain [unit], cs)
    | none => if isOctalDigit e then .ok (octalEscape e cs) else .ok (.plain (units e), cs)

theorem octalEscape_suffix (first : Char) (cs : List Char) : (octalEscape first cs).2 <:+ cs := by
  unfold octalEscape
  simp only
  split
  · exact List.suffix_refl []
  · next d rest =>
    split
    · split
      · exact List.suffix_cons d []
      · next e more =>
        split
        · exact (List.suffix_cons e more).trans (List.suffix_cons d _)
        · exact List.suffix_cons d _
    · exact List.suffix_refl _

theorem skipLineFeed_suffix (cs : List Char) : skipLineFeed cs <:+ cs := by
  unfold skipLineFeed
  split
  · exact List.suffix_cons _ _
  · exact List.suffix_refl _

theorem within_stringEscape (e : Char) (cs : List Char) : Within cs (stringEscape e cs) := by
  unfold stringEscape
  split
  · show (if _ then _ else _) <:+ cs
    split
    · exact skipLineFeed_suffix cs
    · exact List.suffix_refl cs
  · split
    · exact (within_escapeCode 4 cs).mapValue _
    · split
      · exact (within_escapeCode 2 cs).mapValue _
      · split
        · exact List.suffix_refl cs
        · split
          · exact octalEscape_suffix e cs
          · exact List.suffix_refl cs

/-- Reads a string behind its opening quote.  It stops behind a line terminator that is not escaped,
and at the end of the text. -/
def quoted (quote : Char) : List Char → Scan Piece
  | [] => .error ⟨.unterminatedString quote, []⟩
  | c :: cs =>
    if c == quote then .ok (.plain [], cs)
    else if c == '\\' then
      match cs with
      | [] => .error ⟨.unterminatedString quote, []⟩
      | e :: more =>
        match _h : stringEscape e more with
        | .error stop => .error stop
        | .ok (piece, rest) => (quoted quote rest).mapValue piece.append
    else if isLineTerminator c then .error ⟨.unterminatedString quote, cs⟩
    else (quoted quote cs).mapValue (Piece.plain (units c)).append
  termination_by cs => cs.length
  decreasing_by
    · have := (within_stringEscape e more).length_le _h
      simp only [List.length_cons]; omega
    · simp

/-- Reads a string literal behind its opening quote. -/
def stringLiteral (quote : Char) (cs : List Char) : Scan Lexeme :=
  (quoted quote cs).mapValue fun piece =>
    .string (String.ofList (decodeUnits piece.units)) piece.octal

theorem within_quoted (quote : Char) (cs : List Char) : Within cs (quoted quote cs) := by
  fun_induction quoted quote cs with
  | case1 => exact List.suffix_refl []
  | case2 c cs => exact List.suffix_cons c cs
  | case3 c => exact List.suffix_cons c []
  | case4 c _ _ e more stop h =>
    have := within_stringEscape e more
    rw [h] at this
    exact List.IsSuffix.trans this ((List.suffix_cons e more).trans (List.suffix_cons c _))
  | case5 c _ _ e more piece rest h ih =>
    have := within_stringEscape e more
    rw [h] at this
    exact (ih.mono (List.IsSuffix.trans this
      ((List.suffix_cons e more).trans (List.suffix_cons c _)))).mapValue _
  | case6 c cs => exact List.suffix_cons c cs
  | case7 c cs _ _ _ ih => exact (ih.mono (List.suffix_cons c cs)).mapValue _

theorem within_stringLiteral (quote : Char) (cs : List Char) :
    Within cs (stringLiteral quote cs) :=
  (within_quoted quote cs).mapValue _

end ChartScript.Scan
