import ChartScript.Text.Span
import ChartScript.Token.Numeral
import ChartScript.Token.Punctuator
import ChartScript.Token.Quoted
import ChartScript.Token.RegexLiteral
import ChartScript.Token.Word

/-!
# Token/Cursor — reading the tokens of a text

A `Cursor` is a place in a text.  `Cursor.next` skips layout and reads one token, and
`Cursor.nextRegex` reads a regular-expression literal instead: the two differ because a slash may
also divide, and only a parser knows which one is meant.  `Cursor.tokens` reads to the end.
-/

namespace ChartScript

open Text

namespace Scan

variable [Xid]

/-- Reads the lexeme at the front of a text that begins with no layout. -/
def lexeme : List Char → Scan Lexeme
  | [] => .ok (.endOfInput, [])
  | c :: cs =>
    if isIdentifierStart c then word (c :: cs)
    else if c == '\'' || c == '"' then stringLiteral c cs
    else if isDigit c || (c == '.' && cs.head?.any isDigit) then number (c :: cs)
    else punctuator (c :: cs)

theorem within_lexeme (cs : List Char) : Within cs (lexeme cs) := by
  unfold lexeme
  split
  · exact List.suffix_refl []
  · next c cs =>
    split
    · exact (within_word c cs).mono (List.suffix_cons c cs)
    · split
      · exact (within_stringLiteral c cs).mono (List.suffix_cons c cs)
      · split
        · next h =>
          refine (within_number cs ?_).mono (List.suffix_cons c cs)
          simp only [Bool.or_eq_true, Bool.and_eq_true, beq_iff_eq] at h
          exact h.imp_right And.left
        · exact within_punctuator _

/-- **A lexeme takes at least one character**, unless the text is at its end. -/
theorem length_lexeme {c : Char} {cs rest : List Char} {l : Lexeme}
    (h : lexeme (c :: cs) = .ok (l, rest)) : rest.length < (c :: cs).length := by
  simp only [lexeme] at h
  rw [List.length_cons, Nat.lt_succ_iff]
  split at h
  · exact (within_word c cs).length_le h
  · split at h
    · exact (within_stringLiteral c cs).length_le h
    · split at h
      · next hc =>
        refine (within_number cs ?_).length_le h
        simp only [Bool.or_eq_true, Bool.and_eq_true, beq_iff_eq] at hc
        exact hc.imp_right And.left
      · exact Nat.lt_succ_iff.1 (length_punctuator h (List.cons_ne_nil c cs))

/-- What a lexeme leaves is shorter than the text, unless the lexeme is the end. -/
theorem length_lexeme_of_not_isEnd {cs rest : List Char} {l : Lexeme}
    (h : lexeme cs = .ok (l, rest)) (hl : l.isEnd = false) : rest.length < cs.length := by
  cases cs with
  | nil => cases h; cases hl
  | cons c cs => exact length_lexeme h

end Scan

/-- A place in a text: the bytes before it, and the characters behind it. -/
structure Cursor where
  offset : Nat
  chars : List Char
  deriving DecidableEq, Repr, Inhabited

/-- A lexical error, and the place at which scanning stopped. -/
structure LexicalFailure where
  error : LexicalError
  cursor : Cursor
  deriving DecidableEq, Repr

namespace Cursor

/-- The beginning of a text. -/
def start (source : List Char) : Cursor := ⟨0, source⟩

/-- The place in front of `rest`, which is an end of the characters behind the cursor. -/
def moveTo (c : Cursor) (rest : List Char) : Cursor :=
  ⟨c.offset + (byteSize c.chars - byteSize rest), rest⟩

/-- The place behind any layout. -/
def skipLayout (c : Cursor) : Cursor := c.moveTo (c.chars.dropWhile isLayout)

/-- The place at byte `offset`, or the end of the text when the text ends before that. -/
def seek (source : List Char) (offset : Nat) : Cursor :=
  let offset := min offset (byteSize source)
  ⟨offset, (dropBytes offset source).getD []⟩

/-- The error of a fault at which scanning from the cursor stopped. -/
def errorAt (c : Cursor) (stop : Stop) : LexicalError :=
  let place := (c.moveTo stop.rest).offset
  match stop.fault with
  | .illegal => ⟨.illegal, place, place⟩
  | fault => ⟨fault, c.offset, place⟩

/-- The token that was scanned from the cursor on, and the place behind it. -/
def settle (c : Cursor) : Scan Lexeme → Except LexicalFailure (Token × Cursor)
  | .ok (lexeme, rest) => .ok (⟨lexeme, c.offset, (c.moveTo rest).offset⟩, c.moveTo rest)
  | .error stop => .error ⟨c.errorAt stop, c.moveTo stop.rest⟩

theorem length_skipLayout (c : Cursor) : c.skipLayout.chars.length ≤ c.chars.length :=
  (List.dropWhile_suffix _).length_le

section

variable [Xid]

/-- **The next token**, and the place behind it. -/
def next (c : Cursor) : Except LexicalFailure (Token × Cursor) :=
  c.skipLayout.settle (Scan.lexeme c.skipLayout.chars)

theorem length_next {c d : Cursor} {token : Token} (h : c.next = .ok (token, d))
    (ht : token.lexeme.isEnd = false) : d.chars.length < c.chars.length := by
  unfold next at h
  generalize hs : Scan.lexeme c.skipLayout.chars = s at h
  match s with
  | .ok (lexeme, rest) =>
    cases h
    exact Nat.lt_of_lt_of_le (Scan.length_lexeme_of_not_isEnd hs ht) c.length_skipLayout
  | .error _ => cases h

/-- **The tokens from the cursor on**, up to the end or to an error. -/
def tokens (c : Cursor) : List Token × Option LexicalFailure :=
  match _h : c.next with
  | .error failure => ([], some failure)
  | .ok (token, d) =>
    if _ht : token.lexeme.isEnd then ([token], none)
    else
      let (later, failure) := d.tokens
      (token :: later, failure)
  termination_by c.chars.length
  decreasing_by exact length_next _h (by simpa using _ht)

/-- A token in front of the end is followed by the tokens behind it. -/
theorem tokens_eq_of_next {c d : Cursor} {token : Token} (hn : c.next = .ok (token, d))
    (ht : token.lexeme.isEnd = false) : c.tokens = (token :: d.tokens.1, d.tokens.2) := by
  rw [tokens]
  split
  · next h => rw [hn] at h; cases h
  · next h =>
    rw [hn] at h
    cases h
    rw [dif_neg (by simpa using ht)]

/-- The end is the last token. -/
theorem tokens_eq_of_isEnd {c d : Cursor} {token : Token} (hn : c.next = .ok (token, d))
    (ht : token.lexeme.isEnd = true) : c.tokens = ([token], none) := by
  rw [tokens]
  split
  · next h => rw [hn] at h; cases h
  · next h =>
    rw [hn] at h
    cases h
    rw [dif_pos ht]

end

/-- The regular-expression literal that comes next, and the place behind it. -/
def nextRegex [Externals] (c : Cursor) : Except LexicalFailure (Token × Cursor) :=
  c.skipLayout.settle <|
    (Scan.regexLiteral c.skipLayout.chars).mapValue fun (pattern, flags) => .regex pattern flags

/-- What one may do with a cursor. -/
inductive Step where
  /-- Read the next token. -/
  | next
  /-- Read the next token and stay. -/
  | peek
  /-- Read a regular-expression literal. -/
  | regex
  /-- Go to a byte of the text. -/
  | seek (offset : Nat)
  deriving DecidableEq, Repr

/-- The answer to a step, where it has one, and the place of the cursor behind it.  A failing step
leaves the cursor where scanning stopped. -/
def step [Externals] (source : List Char) (c : Cursor) :
    Step → Option (Except LexicalError Token) × Cursor
  | .next => report c.next
  | .peek => ((report c.next).1, c)
  | .regex => report c.nextRegex
  | .seek offset => (none, seek source offset)
where
  /-- The answer and the place of a result. -/
  report : Except LexicalFailure (Token × Cursor) → Option (Except LexicalError Token) × Cursor
    | .ok (token, d) => (some (.ok token), d)
    | .error failure => (some (.error failure.error), failure.cursor)

end Cursor

end ChartScript
