/-!
# Regex/Rejection — why a pattern is refused

The reasons for which the body of a regular-expression literal is invalid, and their wording.
-/

namespace ChartScript.Regex

/-- Why a pattern is refused. -/
inductive Rejection where
  /-- The pattern ends in a backslash. -/
  | trailingBackslash
  /-- A letter is escaped that has no escaped meaning. -/
  | invalidEscape (letter : Char)
  /-- A group opener of another dialect. -/
  | invalidGroup
  /-- A quantifier follows a quantifier. -/
  | nothingToRepeat
  /-- A code point escape, given by its digits, names no code point. -/
  | codePointRange (digits : List Char)
  /-- No engine compiles the pattern. -/
  | engine
  deriving DecidableEq, Repr

/-- The wording of a reason. -/
def Rejection.message : Rejection → String
  | .trailingBackslash => "\\ at end of pattern"
  | .invalidEscape letter => "invalid escape \\" ++ String.ofList [letter]
  | .invalidGroup => "invalid group"
  | .nothingToRepeat => "nothing to repeat"
  | .codePointRange digits =>
    "code point escape \\u\x7b" ++ String.ofList digits ++ "\x7d is out of range"
  | .engine => "engine"

end ChartScript.Regex
