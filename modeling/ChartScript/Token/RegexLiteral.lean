import ChartScript.Externals
import ChartScript.Token.Scan

/-!
# Token/RegexLiteral — regular-expression literals

A literal is a pattern between slashes and a run of flags.  A slash that is escaped or inside a
class does not end the pattern.  The flags and the pattern are checked once the literal has been
read.
-/

namespace ChartScript.Scan

open Text

/-- Reads a pattern up to its closing slash, which it takes.  A line terminator ends the search,
escaped or not. -/
def regexBody (inClass : Bool) : List Char → Scan (List Char)
  | [] => .error ⟨.unterminatedRegex, []⟩
  | ['\\'] => .error ⟨.unterminatedRegex, []⟩
  | '\\' :: c :: cs =>
    if isLineTerminator c then .error ⟨.unterminatedRegex, cs⟩
    else (regexBody inClass cs).mapValue fun pattern => '\\' :: c :: pattern
  | c :: cs =>
    if isLineTerminator c then .error ⟨.unterminatedRegex, cs⟩
    else if inClass then (regexBody (c != ']') cs).mapValue (c :: ·)
    else if c == '/' then .ok ([], cs)
    else (regexBody (c == '[') cs).mapValue (c :: ·)

/-- Reads a run of flags; a backslash among them must end the text. -/
def regexFlags [Xid] : List Char → Scan (List Char)
  | [] => .ok ([], [])
  | c :: cs =>
    if isIdentifierPart c then
      if c == '\\' && cs != [] then illegal cs else (regexFlags cs).mapValue (c :: ·)
    else .ok ([], c :: cs)

/-- The flags that a literal may have. -/
def knownFlags : List Char := ['g', 'i', 'm', 'u', 'y']

/-- A literal with its flags and pattern checked. -/
def checkRegex [Regex.Engines] (pattern flags rest : List Char) : Scan (String × String) :=
  if flags.all knownFlags.contains then
    match Regex.validateLiteral pattern flags with
    | .ok () => .ok ((String.ofList pattern, String.ofList flags), rest)
    | .error reason => .error ⟨.invalidRegex reason, rest⟩
  else .error ⟨.invalidRegexFlags (String.ofList flags), rest⟩

/-- Reads a regular-expression literal: its pattern and its flags. -/
def regexLiteral [Externals] : List Char → Scan (String × String)
  | '/' :: cs =>
    (regexBody false cs).andThen fun pattern rest =>
      (regexFlags rest).andThen fun flags rest => checkRegex pattern flags rest
  | cs => illegal cs

theorem within_regexBody (inClass : Bool) (cs : List Char) : Within cs (regexBody inClass cs) := by
  fun_induction regexBody inClass cs with
  | case1 => exact List.suffix_refl []
  | case2 => exact List.suffix_cons _ []
  | case3 _ c cs => exact (List.suffix_cons c cs).trans (List.suffix_cons _ _)
  | case4 _ c cs _ ih =>
    exact (ih.mono ((List.suffix_cons c cs).trans (List.suffix_cons _ _))).mapValue _
  | case5 => exact List.suffix_cons _ _
  | case6 => rename_i ih; exact (ih.mono (List.suffix_cons _ _)).mapValue _
  | case7 => exact List.suffix_cons _ _
  | case8 => rename_i ih; exact (ih.mono (List.suffix_cons _ _)).mapValue _

theorem within_regexFlags [Xid] (cs : List Char) : Within cs (regexFlags cs) := by
  induction cs with
  | nil => exact List.suffix_refl []
  | cons c cs ih =>
    unfold regexFlags
    split
    · split
      · exact List.suffix_cons c cs
      · exact (ih.mono (List.suffix_cons c cs)).mapValue _
    · exact List.suffix_refl _

theorem within_checkRegex [Regex.Engines] (pattern flags : List Char) {cs rest : List Char}
    (h : rest <:+ cs) :
    Within cs (checkRegex pattern flags rest) := by
  unfold checkRegex
  split
  · split
    · exact h
    · exact h
  · exact h

theorem within_regexLiteral_slash [Externals] (cs : List Char) :
    Within cs (regexLiteral ('/' :: cs)) :=
  (within_regexBody false cs).andThen fun _ rest hr =>
    ((within_regexFlags rest).mono hr).andThen fun _ _ hr => within_checkRegex _ _ hr

theorem within_regexLiteral [Externals] (cs : List Char) : Within cs (regexLiteral cs) := by
  unfold regexLiteral
  split
  · next cs => exact (within_regexLiteral_slash cs).mono (List.suffix_cons _ cs)
  · exact List.suffix_refl _

/-- **A literal takes at least its first slash.** -/
theorem length_regexLiteral [Externals] {cs rest : List Char} {parts : String × String}
    (h : regexLiteral cs = .ok (parts, rest)) : rest.length < cs.length := by
  have hw := within_regexLiteral_slash cs.tail
  unfold regexLiteral at h
  split at h
  · next cs => exact Nat.lt_succ_of_le (hw.length_le h)
  · cases h

end ChartScript.Scan
