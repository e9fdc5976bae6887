import ChartScript.Text.Span

/-!
# Text/Trim — slices of a text, and cutting blanks off them

A `Slice` is a piece of a text that remembers the byte at which it begins, so that a fault can say
where its fragment lies.  `Slice.trim` cuts characters of the property `White_Space` off both ends.
-/

namespace ChartScript.Text

/-- The property `White_Space`. -/
def isBlank (c : Char) : Bool :=
  ('\x09' ≤ c && c ≤ '\x0d') || c == ' ' || c == '\u0085' || c == '\u00a0' || c == '\u1680' ||
  ('\u2000' ≤ c && c ≤ '\u200a') || c == '\u2028' || c == '\u2029' || c == '\u202f' ||
  c == '\u205f' || c == '\u3000'

/-- `cs` without the characters of class `p` at its end. -/
def dropEndWhile (p : Char → Bool) (cs : List Char) : List Char := (cs.reverse.dropWhile p).reverse

/-- `cs` without the blanks at its ends. -/
def trim (cs : List Char) : List Char := dropEndWhile isBlank (cs.dropWhile isBlank)

/-- A piece of a text and the byte at which it begins. -/
structure Slice where
  offset : Nat
  chars : List Char
  deriving DecidableEq, Repr, Inhabited

namespace Slice

/-- The byte just past a slice. -/
def stop (s : Slice) : Nat := s.offset + byteSize s.chars

/-- The text of a slice. -/
def text (s : Slice) : String := String.ofList s.chars

/-- The slice that is left of `s` after the characters `front`, which it begins with. -/
def after (s : Slice) (front rest : List Char) : Slice := ⟨s.offset + byteSize front, rest⟩

/-- The part of a slice from byte `start` to byte `stop`, counted from where it begins; both lie
between characters. -/
def cut (s : Slice) (start stop : Nat) : Slice :=
  ⟨s.offset + start, ((dropBytes start s.chars).bind (takeBytes (stop - start))).getD []⟩

/-- `s` without the blanks at its ends.  A slice of blanks only becomes empty at its start. -/
def trim (s : Slice) : Slice :=
  match s.chars.dropWhile isBlank with
  | [] => ⟨s.offset, []⟩
  | kept => ⟨s.offset + byteSize (s.chars.takeWhile isBlank), dropEndWhile isBlank kept⟩

/-- Trimming a slice trims its text. -/
theorem chars_trim (s : Slice) : s.trim.chars = Text.trim s.chars := by
  unfold trim Text.trim
  split
  · next h => rw [h]; rfl
  · rfl

end Slice

end ChartScript.Text
