import ChartScript.Regex.Backtracking.Class
import ChartScript.Regex.Backtracking.Group
import ChartScript.Regex.Backtracking.Lookbehind
import ChartScript.Regex.Backtracking.Size

/-!
# Regex/Backtracking/Basic — the notation of a backtracking engine

An engine that backtracks knows references to groups, looks around, and takes verbs.  Places between
characters may not be repeated.
-/

namespace ChartScript.Regex.Backtracking

open Text

/-- Drops the blanks at the front. -/
def dropGaps (cs : List Char) : List Char := cs.dropWhile isGap

/-- Reads the counts of a quantifier behind its opening brace. -/
def readCounts (cs : List Char) : Option ((Nat × Option Nat) × List Char) :=
  let (low, rest) := readDigits (dropGaps cs)
  match low, dropGaps rest with
  | [], ',' :: more =>
    let (high, rest) := readDigits (dropGaps more)
    match high, dropGaps rest with
    | _ :: _, '\x7d' :: rest => some ((0, some (Decimal.digitsValue high)), rest)
    | _, _ => none
  | _ :: _, '\x7d' :: rest =>
    let low := Decimal.digitsValue low
    some ((low, some low), rest)
  | _ :: _, ',' :: more =>
    let (high, rest) := readDigits (dropGaps more)
    match high, dropGaps rest with
    | [], '\x7d' :: rest => some ((Decimal.digitsValue low, none), rest)
    | _ :: _, '\x7d' :: rest =>
      some ((Decimal.digitsValue low, some (Decimal.digitsValue high)), rest)
    | _, _ => none
  | _, _ => none

/-- A quantifier with what follows it; a mark behind it makes it lazy or possessive. -/
def quantifier (low : Nat) (high : Option Nat) : List Char → Part × List Char
  | '?' :: cs => (.quantifier low high, cs)
  | '+' :: cs => (.quantifier low high, cs)
  | cs => (.quantifier low high, cs)

/-- A set of characters of the given size, as a part. -/
def one (size : Nat) : Part := .piece (.one size 0) true

/-- The part that an escape stands for. -/
def Escape.part : Escape → Part
  | .char c => one (charSize c)
  | .set size => one size
  | .several high => .piece (.repeated (.one 1 0) 1 high) true
  | .place => .piece .place false
  | .reference target => .piece (.reference target) true

/-- The beginning of a word, and its end: a place that is followed or preceded by a word
character. -/
def wordEdge? : List Char → Option (Part × List Char)
  | ':' :: '<' :: ':' :: ']' :: ']' :: cs => some (.piece (.group .lookahead (.one 1 0)) true, cs)
  | ':' :: '>' :: ':' :: ']' :: ']' :: cs => some (.piece (.group .lookbehind (.one 1 0)) true, cs)
  | _ => none

/-- Reads a class behind its opening bracket, or one of the two edges of a word; a named class does
not stand alone. -/
def readBracket (cs : List Char) : Option (Part × List Char) :=
  match cs with
  | '[' :: more => wordEdge? more <|> (readClass cs).map (one classSize, ·)
  | _ => if (posix? cs).isSome then none else (readClass cs).map (one classSize, ·)

/-- Reads the first part of a text, `groups` groups being opened before. -/
def read (groups : Nat) : List Char → Option (Part × List Char)
  | [] => none
  | '\\' :: cs => (readEscape groups cs).map fun (escape, rest) => (escape.part, rest)
  | '[' :: cs => readBracket cs
  | '(' :: cs => readParenthesis groups cs
  | ')' :: cs => some (.closing, cs)
  | '|' :: cs => some (.bar, cs)
  | '*' :: cs => some (quantifier 0 none cs)
  | '+' :: cs => some (quantifier 1 none cs)
  | '?' :: cs => some (quantifier 0 (some 1) cs)
  | '\x7b' :: cs =>
    match readCounts cs with
    | some ((low, high), rest) => some (quantifier low high rest)
    | none => some (one (charSize '\x7b'), cs)
  | '^' :: cs => some (.piece .place false, cs)
  | '$' :: cs => some (.piece .place false, cs)
  | '.' :: cs => some (one 1, cs)
  | c :: cs => some (one (charSize c), cs)

/-- The parts of a pattern; counts take 16 bits. -/
def reader : Reader := ⟨read, 65535, false⟩

/-- How deep groups nest at most. -/
def maxGroupDepth : Nat := 250

/-- Whether the parts of a pattern go together: groups nest within bounds, references have their
groups, what is looked behind for is bounded, and the compiled pattern is not too large. -/
def isCompilable (o : Outline) : Bool :=
  o.pattern.groupDepth ≤ maxGroupDepth &&
  o.pattern.references.all (fun target => (o.group? target).isSome) &&
  hasBoundedLookbehinds o &&
  size o.pattern + overhead ≤ maxSize

/-- The settings that may stand at the beginning of a pattern. -/
def settings : List String :=
  ["UTF", "UTF8", "UCP", "NOTEMPTY", "NOTEMPTY_ATSTART", "NO_AUTO_POSSESS", "NO_DOTSTAR_ANCHOR",
   "NO_JIT", "NO_START_OPT", "CASELESS_RESTRICT", "TURKISH_CASING", "CR", "LF", "CRLF", "ANY",
   "NUL", "ANYCRLF", "BSR_ANYCRLF", "BSR_UNICODE"]

/-- The settings that take a number. -/
def numberSettings : List String := ["LIMIT_HEAP", "LIMIT_MATCH", "LIMIT_DEPTH", "LIMIT_RECURSION"]

/-- The greatest number of a setting. -/
def maxSetting : Nat := 4294967289

/-- Reads a setting at the beginning of a pattern, if there is one. -/
def readSetting : List Char → Option (String × List Char)
  | '(' :: '*' :: cs =>
    match readTo ')' cs with
    | none => none
    | some (setting, rest) =>
      let name := String.ofList (setting.takeWhile (· != '='))
      match setting.dropWhile (· != '=') with
      | [] => if settings.contains name then some (name, rest) else none
      | _ :: digits =>
        if numberSettings.contains name && digits ≠ [] && digits.all isDigit &&
            Decimal.digitsValue digits ≤ maxSetting then
          some (name, rest)
        else none
  | _ => none

/-- Reads all settings at the beginning of a pattern. -/
def readSettings (cs : List Char) : List String × List Char :=
  match readSetting cs with
  | none => ([], cs)
  | some (name, rest) =>
    if rest.length < cs.length then
      let (names, text) := readSettings rest
      (name :: names, text)
    else ([], cs)
  termination_by cs.length

/-- Whether settings go together: two that change how case is ignored do not. -/
def areCompatible (names : List String) : Bool :=
  !(names.contains "CASELESS_RESTRICT" && names.contains "TURKISH_CASING")

/-- **Whether a backtracking engine accepts a pattern.** -/
def accepts (pattern : List Char) : Bool :=
  let (names, text) := readSettings pattern
  areCompatible names && (reader.outline? text).any isCompilable

end ChartScript.Regex.Backtracking
