/-!
# Text/Span — byte positions in a text

A text is a list of characters, and a position in it counts the bytes that its characters take in
UTF-8.  `byteSize` measures, `utf8` gives the bytes themselves, `dropBytes` and `takeBytes` cut at a
position when it lies between two characters, and `Span.label` is the stretch of text that a
diagnostic underlines.
-/

namespace ChartScript.Text

/-- The number of bytes that `cs` takes in UTF-8. -/
def byteSize : List Char → Nat
  | [] => 0
  | c :: cs => c.utf8Size + byteSize cs

@[simp] theorem byteSize_nil : byteSize [] = 0 := rfl

@[simp] theorem byteSize_cons (c : Char) (cs : List Char) :
    byteSize (c :: cs) = c.utf8Size + byteSize cs := rfl

theorem byteSize_append (as bs : List Char) :
    byteSize (as ++ bs) = byteSize as + byteSize bs := by
  induction as with
  | nil => simp
  | cons c as ih => simp [ih, Nat.add_assoc]

/-- The bytes of `cs` in UTF-8. -/
def utf8 (cs : List Char) : List UInt8 := cs.flatMap String.utf8EncodeChar

@[simp] theorem utf8_nil : utf8 [] = [] := rfl

theorem utf8_cons (c : Char) (cs : List Char) :
    utf8 (c :: cs) = String.utf8EncodeChar c ++ utf8 cs := rfl

theorem utf8_append (as bs : List Char) : utf8 (as ++ bs) = utf8 as ++ utf8 bs :=
  List.flatMap_append

@[simp] theorem length_utf8 (cs : List Char) : (utf8 cs).length = byteSize cs := by
  induction cs with
  | nil => rfl
  | cons c cs ih => rw [utf8_cons, List.length_append, String.length_utf8EncodeChar, ih, byteSize]

/-- The characters from byte `n` on, or `none` when `n` falls inside a character or past the end. -/
def dropBytes : Nat → List Char → Option (List Char)
  | 0, cs => some cs
  | _ + 1, [] => none
  | n + 1, c :: cs => if c.utf8Size ≤ n + 1 then dropBytes (n + 1 - c.utf8Size) cs else none

/-- The characters before byte `n`, or `none` when `n` falls inside a character or past the end. -/
def takeBytes : Nat → List Char → Option (List Char)
  | 0, _ => some []
  | _ + 1, [] => none
  | n + 1, c :: cs =>
    if c.utf8Size ≤ n + 1 then (takeBytes (n + 1 - c.utf8Size) cs).map (c :: ·) else none

/-- The first part ends at its own size: cutting there gives the second part back. -/
theorem dropBytes_append (as bs : List Char) : dropBytes (byteSize as) (as ++ bs) = some bs := by
  induction as with
  | nil => cases bs <;> rfl
  | cons c as ih =>
    have hc : 0 < c.utf8Size := Char.utf8Size_pos c
    obtain ⟨k, hk⟩ : ∃ k, c.utf8Size + byteSize as = k + 1 :=
      ⟨c.utf8Size + byteSize as - 1, by omega⟩
    have hle : c.utf8Size ≤ k + 1 := by omega
    have hsub : k + 1 - c.utf8Size = byteSize as := by omega
    simp [hk, dropBytes, hle, hsub, ih]

/-- The first part ends at its own size: cutting there gives the first part back. -/
theorem takeBytes_append (as bs : List Char) : takeBytes (byteSize as) (as ++ bs) = some as := by
  induction as with
  | nil => cases bs <;> rfl
  | cons c as ih =>
    have hc : 0 < c.utf8Size := Char.utf8Size_pos c
    obtain ⟨k, hk⟩ : ∃ k, c.utf8Size + byteSize as = k + 1 :=
      ⟨c.utf8Size + byteSize as - 1, by omega⟩
    have hle : c.utf8Size ≤ k + 1 := by omega
    have hsub : k + 1 - c.utf8Size = byteSize as := by omega
    simp [hk, takeBytes, hle, hsub, ih]

end ChartScript.Text

namespace ChartScript

/-- A stretch of text: `length` bytes from byte `start` on. -/
structure Span where
  start : Nat
  length : Nat
  deriving DecidableEq, Repr, Inhabited

namespace Span

open Text

/-- The span of the single character at byte `pos`.  At the end of the text it is the last
character, and in an empty text it is empty. -/
def point (source : List Char) (pos : Nat) : Span :=
  match dropBytes pos source with
  | some (c :: _) => ⟨pos, c.utf8Size⟩
  | _ =>
    match (takeBytes pos source).bind List.getLast? with
    | some c => ⟨pos - c.utf8Size, c.utf8Size⟩
    | none => ⟨pos, 0⟩

/-- The stretch that a diagnostic about bytes `start` to `stop` underlines: those bytes, or a
single character when there are none between the two. -/
def label (source : List Char) (start stop : Nat) : Span :=
  if start < stop then ⟨start, stop - start⟩ else point source start

end Span

end ChartScript
