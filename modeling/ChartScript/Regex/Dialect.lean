import ChartScript.Regex.Rejection
import ChartScript.Text.CharClass

/-!
# Regex/Dialect — from the literal dialect to the dialect of the engines

A pattern is read item by item: an escape, a class boundary, a group opener, a quantifier or a
plain character.  `Item.read` reads one item and writes it in the engines' dialect, and `translate`
does so for a whole pattern.  Three forms are replaced — the empty class, the full class and a lone
brace — and an escaped letter without a meaning stands for itself.  Forms that only the engines know
are refused.
-/

namespace ChartScript.Regex

open Text

/-- Escaped letters and digits with a meaning of their own outside a class. -/
def escapeLetters : List Char := "bBdDsSwWfnrtvcxuk0".toList

/-- Escaped letters and digits with a meaning of their own inside a class. -/
def classEscapeLetters : List Char := "bdDsSwWfnrtvcxu0".toList

/-- What follows the opening `(?` of a group: a non-capturing group, looking ahead and behind, and a
named group. -/
def groupOpeners : List (List Char) :=
  [[':'], ['='], ['!'], ['<', '='], ['<', '!'], ['<']]

/-- What a pattern stands at while it is read: whether inside a class, and whether just behind a
quantifier. -/
structure Mode where
  inClass : Bool
  quantified : Bool
  deriving DecidableEq, Repr, Inhabited

/-- An item of a pattern: its text in the engines' dialect, the mode behind it, and the rest of the
pattern. -/
structure Item where
  text : List Char
  mode : Mode
  rest : List Char
  deriving Repr, Inhabited

/-- A quantifier `{n}`, `{n,}` or `{n,m}` at the front, with what follows it. -/
def braceQuantifier? : List Char → Option (List Char × List Char)
  | '\x7b' :: cs =>
    let body := cs.takeWhile (· != '\x7d')
    let low := body.takeWhile (· != ',')
    let high := (body.dropWhile (· != ',')).drop 1
    match cs.dropWhile (· != '\x7d') with
    | _ :: rest =>
      if low ≠ [] && low.all isDigit && high.all isDigit then
        some ('\x7b' :: body ++ ['\x7d'], rest)
      else none
    | [] => none
  | _ => none

/-- The name of a property escape, braces included, with what follows it; without both braces there
is none. -/
def propertyName (cs : List Char) : List Char × List Char :=
  match cs with
  | '\x7b' :: _ =>
    match cs.dropWhile (· != '\x7d') with
    | close :: rest => (cs.takeWhile (· != '\x7d') ++ [close], rest)
    | [] => ([], cs)
  | _ => ([], cs)

namespace Item

/-- A plain item: it is no quantifier and leaves the class as it is. -/
def plain (inClass : Bool) (text rest : List Char) : Item := ⟨text, ⟨inClass, false⟩, rest⟩

/-- Whether the escape of `e` keeps its backslash: only letters and digits can lose it. -/
def isKnownEscape (inClass : Bool) (e : Char) : Bool :=
  !isLetter e || (if inClass then classEscapeLetters else escapeLetters).contains e

/-- The item after a backslash and the character `e`. -/
def escaped (unicode inClass : Bool) (e : Char) (cs : List Char) : Except Rejection Item :=
  if unicode && (e == 'p' || e == 'P') then
    .ok (plain inClass ('\\' :: e :: (propertyName cs).1) (propertyName cs).2)
  else if isKnownEscape inClass e then .ok (plain inClass ['\\', e] cs)
  else if unicode then .error (.invalidEscape e)
  else .ok (plain inClass [e] cs)

/-- The item of a quantifier with text `text`; a question mark behind it makes it lazy. -/
def quantifier (mode : Mode) (text rest : List Char) : Except Rejection Item :=
  if mode.quantified then .error .nothingToRepeat
  else
    match rest with
    | '?' :: rest => .ok ⟨text ++ ['?'], ⟨false, true⟩, rest⟩
    | _ => .ok ⟨text, ⟨false, true⟩, rest⟩

/-- The item of a group that begins with `(?`. -/
def group (cs : List Char) : Except Rejection Item :=
  match groupOpeners.find? (·.isPrefixOf cs) with
  | some opener => .ok (plain false ('(' :: '?' :: opener) (cs.drop opener.length))
  | none => .error .invalidGroup

/-- Reads the first item of the pattern `c :: cs` outside a class. -/
def readOutside (mode : Mode) (c : Char) (cs : List Char) : Except Rejection Item :=
  match c, cs with
  | '[', ']' :: rest => .ok (plain false ['(', '?', '!', ')'] rest)
  | '[', '^' :: ']' :: rest => .ok (plain false ['[', '\\', 's', '\\', 'S', ']'] rest)
  | '[', rest => .ok (plain true ['['] rest)
  | '(', '?' :: rest => group rest
  | '*', rest => quantifier mode ['*'] rest
  | '+', rest => quantifier mode ['+'] rest
  | '?', rest => quantifier mode ['?'] rest
  | '\x7b', rest =>
    match braceQuantifier? ('\x7b' :: rest) with
    | some (text, rest) => quantifier mode text rest
    | none => .ok (plain false ['\\', '\x7b'] rest)
  | c, rest => .ok (plain false [c] rest)

/-- Reads the first item of the pattern `c :: cs`. -/
def read (unicode : Bool) (mode : Mode) (c : Char) (cs : List Char) : Except Rejection Item :=
  if c == '\\' then
    match cs with
    | [] => .error .trailingBackslash
    | e :: rest => escaped unicode mode.inClass e rest
  else if mode.inClass then .ok (plain (c != ']') [c] cs)
  else readOutside mode c cs

end Item

theorem braceQuantifier?_length {cs text rest : List Char}
    (h : braceQuantifier? cs = some (text, rest)) : rest.length < cs.length := by
  unfold braceQuantifier? at h
  split at h
  · next cs =>
    simp only at h
    split at h
    · next c rest' hc =>
      split at h
      · simp only [Option.some.injEq, Prod.mk.injEq] at h
        have := (List.dropWhile_sublist (l := cs) (· != '\x7d')).length_le
        rw [hc] at this
        simp only [List.length_cons] at this ⊢
        rw [← h.2]; omega
      · simp at h
    · simp at h
  · simp at h

theorem propertyName_length (cs : List Char) : (propertyName cs).2.length ≤ cs.length := by
  unfold propertyName
  split
  · next cs =>
    split
    · next h =>
      have := (List.dropWhile_sublist (l := '\x7b' :: cs) (· != '\x7d')).length_le
      rw [h] at this
      simp only [List.length_cons] at this ⊢
      omega
    · exact Nat.le_refl _
  · exact Nat.le_refl _

namespace Item

theorem length_quantifier {mode : Mode} {text rest : List Char} {item : Item}
    (h : quantifier mode text rest = .ok item) : item.rest.length ≤ rest.length := by
  unfold quantifier at h
  split at h
  · cases h
  · split at h <;> cases h <;> simp

theorem length_group {cs : List Char} {item : Item} (h : group cs = .ok item) :
    item.rest.length ≤ cs.length := by
  unfold group at h
  split at h <;> cases h
  simp [plain]

/-- **An item takes at least one character**, so that reading items ends. -/
theorem length_read {unicode : Bool} {mode : Mode} {c : Char} {cs : List Char} {item : Item}
    (h : read unicode mode c cs = .ok item) : item.rest.length ≤ cs.length := by
  unfold read at h
  split at h
  · split at h
    · cases h
    · next e rest =>
      unfold escaped at h
      split at h
      · cases h
        have := propertyName_length rest
        simp only [plain, List.length_cons]
        omega
      · split at h
        · cases h; simp [plain]
        · split at h
          · cases h
          · cases h; simp [plain]
  · split at h
    · cases h; simp [plain]
    · unfold readOutside at h
      split at h
      · cases h; simp [plain]
      · cases h; simp [plain]; omega
      · cases h; simp [plain]
      · have := length_group h
        simp only [List.length_cons]; omega
      · exact length_quantifier h
      · exact length_quantifier h
      · exact length_quantifier h
      · split at h
        · next hq =>
          have := length_quantifier h
          have := braceQuantifier?_length hq
          simp only [List.length_cons] at this; omega
        · cases h; simp [plain]
      · cases h; simp [plain]

end Item

/-- Writes a pattern in the engines' dialect, reading on from `mode`. -/
def translateFrom (unicode : Bool) (mode : Mode) : List Char → Except Rejection (List Char)
  | [] => .ok []
  | c :: cs =>
    match _h : Item.read unicode mode c cs with
    | .error reason => .error reason
    | .ok item => (translateFrom unicode item.mode item.rest).map (item.text ++ ·)
  termination_by cs => cs.length
  decreasing_by
    have := Item.length_read _h
    simp only [List.length_cons]; omega

/-- **A pattern in the engines' dialect**, or the reason why it is refused.  Under the flag `u`
escaped letters without a meaning are refused too, and property escapes are known. -/
def translate (unicode : Bool) (pattern : List Char) : Except Rejection (List Char) :=
  translateFrom unicode ⟨false, false⟩ pattern

end ChartScript.Regex
