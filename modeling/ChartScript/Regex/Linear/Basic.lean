import ChartScript.Decimal.Basic
import ChartScript.Regex.Linear.Bound
import ChartScript.Regex.Linear.Class
import ChartScript.Regex.Outline
import ChartScript.Text.Category

/-!
# Regex/Linear/Basic — the notation of a linear-time engine

An engine that matches in linear time knows no references and does not look around.
-/

namespace ChartScript.Regex.Linear

open Text

/-- Whether a text names a group. -/
def isGroupName : List Char → Bool
  | [] => false
  | c :: cs =>
    (c == '_' || isAlphabetic c) &&
    cs.all fun c =>
      c == '_' || c == '.' || c == '[' || c == ']' || isAlphabetic c || isNumeric c

/-- Reads the counts of a quantifier behind its opening brace. -/
def readCounts (cs : List Char) : Option ((Nat × Option Nat) × List Char) :=
  match readDigits cs with
  | ([], _) => none
  | (low, '\x7d' :: rest) =>
    let low := Decimal.digitsValue low
    some ((low, some low), rest)
  | (low, ',' :: more) =>
    match readDigits more with
    | ([], '\x7d' :: rest) => some ((Decimal.digitsValue low, none), rest)
    | (high, '\x7d' :: rest) =>
      some ((Decimal.digitsValue low, some (Decimal.digitsValue high)), rest)
    | _ => none
  | _ => none

/-- A quantifier with what follows it; a question mark behind it makes it lazy. -/
def quantifier (low : Nat) (high : Option Nat) : List Char → Part × List Char
  | '?' :: cs => (.quantifier low high, cs)
  | cs => (.quantifier low high, cs)

/-- A set of characters of the given size, as a part. -/
def one (size : Nat) : Part := .piece (.one size 0) true

/-- Reads the first part of a text. -/
def read (_groups : Nat) : List Char → Option (Part × List Char)
  | [] => none
  | '\\' :: cs =>
    match readEscape cs with
    | some (.char c, rest) => some (one (charSize c), rest)
    | some (.set size, rest) => some (one size, rest)
    | some (.place, rest) => some (.piece .place true, rest)
    | none => none
  | '[' :: cs => (readClass cs).map fun (piece, rest) => (.piece piece true, rest)
  | '(' :: '?' :: ':' :: cs => some (.opening .plain, cs)
  | '(' :: '?' :: '<' :: cs =>
    match readTo '>' cs with
    | some (name, rest) => if isGroupName name then some (.capture (some name), rest) else none
    | none => none
  | '(' :: '?' :: _ => none
  | '(' :: cs => some (.capture none, cs)
  | ')' :: cs => some (.closing, cs)
  | '|' :: cs => some (.bar, cs)
  | '*' :: cs => some (quantifier 0 none cs)
  | '+' :: cs => some (quantifier 1 none cs)
  | '?' :: cs => some (quantifier 0 (some 1) cs)
  | '\x7b' :: cs => (readCounts cs).map fun ((low, high), rest) => quantifier low high rest
  | '^' :: cs => some (.piece .place true, cs)
  | '$' :: cs => some (.piece .place true, cs)
  | '.' :: cs => some (one wideSize, cs)
  | c :: cs => some (one (charSize c), cs)

/-- The parts of a pattern; counts take 32 bits. -/
def reader : Reader := ⟨read, (1 <<< 32) - 1, true⟩

/-- **Whether a linear-time engine accepts a pattern.** -/
def accepts (pattern : List Char) : Bool :=
  (reader.outline? pattern).any fun outline => isWithinBounds outline.pattern

end ChartScript.Regex.Linear
