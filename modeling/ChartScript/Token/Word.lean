import ChartScript.Token.Escape

/-!
# Token/Word — identifiers and reserved words

A word is an identifier start and any number of identifier parts, each written plainly or as an
escape.  `Scan.name` reads one, and `Lexeme.ofName` sorts it by its decoded name, so that a spelling
with escapes means the same as a plain one.
-/

namespace ChartScript

open Text

/-- The reserved words of the language. -/
def keywords : List String :=
  ["if", "in", "do", "var", "for", "new", "try", "let", "this", "else", "case", "void", "with",
   "enum", "while", "break", "catch", "throw", "const", "yield", "class", "super", "return",
   "typeof", "delete", "switch", "export", "import", "public", "static", "default", "finally",
   "extends", "package", "private", "function", "continue", "debugger", "interface",
   "protected", "instanceof", "implements"]

/-- Whether a name is reserved. -/
def isReservedWord (name : String) : Bool := keywords.contains name

/-- The lexeme of a name. -/
def Lexeme.ofName (name : String) : Lexeme :=
  if isReservedWord name then .keyword name
  else if name = "null" then .null
  else if name = "true" then .boolean true
  else if name = "false" then .boolean false
  else .identifier name

namespace Scan

/-- The character with a given code, when a name may hold it at a place of class `valid`. -/
def nameChar? (valid : Char → Bool) (code : Nat) : Option Char :=
  (scalar? code).filter fun c => c != '\\' && valid c

/-- Reads an escaped character of a name behind its backslash. -/
def nameEscape (valid : Char → Bool) : List Char → Scan Char
  | 'u' :: cs =>
    (escapeCode 4 cs).andThen fun code rest =>
      match nameChar? valid code with
      | some c => .ok (c, rest)
      | none => illegal rest
  | cs => illegal cs

theorem within_nameEscape (valid : Char → Bool) (cs : List Char) :
    Within cs (nameEscape valid cs) := by
  unfold nameEscape
  split
  · next cs =>
    refine ((within_escapeCode 4 cs).mono (List.suffix_cons _ cs)).andThen fun code rest hr => ?_
    split
    · exact hr
    · exact hr
  · exact List.suffix_refl _

variable [Xid]

/-- Reads identifier parts, plain and escaped. -/
def nameParts : List Char → Scan (List Char)
  | [] => .ok ([], [])
  | c :: cs =>
    if c == '\\' then
      match _h : nameEscape isIdentifierPart cs with
      | .error stop => .error stop
      | .ok (part, rest) => (nameParts rest).mapValue (part :: ·)
    else if isIdentifierPart c then (nameParts cs).mapValue (c :: ·)
    else .ok ([], c :: cs)
  termination_by cs => cs.length
  decreasing_by
    · have := (within_nameEscape isIdentifierPart cs).length_le _h
      simp only [List.length_cons]; omega
    · simp

/-- Reads a name, the first character of which is an identifier start. -/
def name : List Char → Scan (List Char)
  | [] => illegal []
  | c :: cs =>
    if c == '\\' then
      (nameEscape isIdentifierStart cs).andThen fun first rest =>
        (nameParts rest).mapValue (first :: ·)
    else (nameParts cs).mapValue (c :: ·)

/-- Reads a word. -/
def word (cs : List Char) : Scan Lexeme :=
  (name cs).mapValue fun chars => Lexeme.ofName (String.ofList chars)

theorem within_nameParts (cs : List Char) : Within cs (nameParts cs) := by
  fun_induction nameParts cs with
  | case1 => exact List.suffix_refl []
  | case2 c cs hc stop h =>
    have := within_nameEscape isIdentifierPart cs
    rw [h] at this
    exact List.IsSuffix.trans this (List.suffix_cons c cs)
  | case3 c cs hc part rest h ih =>
    have := within_nameEscape isIdentifierPart cs
    rw [h] at this
    exact (ih.mono (List.IsSuffix.trans this (List.suffix_cons c cs))).mapValue _
  | case4 c cs _ _ ih => exact (ih.mono (List.suffix_cons c cs)).mapValue _
  | case5 => exact List.suffix_refl _

/-- **A name takes at least one character.** -/
theorem within_name (c : Char) (cs : List Char) : Within cs (name (c :: cs)) := by
  simp only [name]
  split
  · exact (within_nameEscape _ cs).andThen fun first rest hr =>
      ((within_nameParts rest).mono hr).mapValue _
  · exact (within_nameParts cs).mapValue _

theorem within_word (c : Char) (cs : List Char) : Within cs (word (c :: cs)) :=
  (within_name c cs).mapValue _

end Scan

end ChartScript
