import ChartScript.Regex.CodePoint
import ChartScript.Regex.Dialect

/-!
# Regex/Validity — when a pattern is valid

A pattern is valid when an engine accepts its text in the engines' dialect: a linear-time engine, or
a backtracking one where a pattern looks around or refers to groups.  What the engines accept is
left open (`Engines`).  The pattern of a literal with the flag `u` goes through `placeholders`
first.
-/

namespace ChartScript.Regex

/-- **The two engines** that patterns are compiled by: which texts in their dialect each accepts. -/
class Engines where
  /-- The linear-time engine, which is asked first. -/
  linear : List Char → Bool
  backtracking : List Char → Bool

variable [Engines]

/-- Whether one of the engines accepts a pattern in their dialect. -/
def isAccepted (pattern : List Char) : Bool :=
  Engines.linear pattern || Engines.backtracking pattern

/-- The engines accept a group with nothing in it. -/
def AcceptsEmptyGroup : Prop := isAccepted "(?:)".toList = true

/-- The engines accept a single letter; `placeholders` puts one in the place of an escape. -/
def AcceptsPlaceholder : Prop := isAccepted ['x'] = true

/-- Whether a pattern is valid, or why not. -/
def validate (unicode : Bool) (pattern : List Char) : Except Rejection Unit := do
  let text ← translate unicode pattern
  if isAccepted text then pure () else throw .engine

/-- Whether the pattern of a literal with these flags is valid, or why not. -/
def validateLiteral (pattern flags : List Char) : Except Rejection Unit := do
  if flags.contains 'u' then validate true (← placeholders pattern) else validate false pattern

end ChartScript.Regex
