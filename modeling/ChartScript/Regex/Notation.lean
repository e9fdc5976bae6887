import ChartScript.Text.CharClass

/-!
# Regex/Notation — what the notations for patterns share

Reading up to a mark (`readTo`), reading step by step (`readUntil`), and the names of character
classes in brackets and colons.
-/

namespace ChartScript.Regex

/-- Repeats `step` from the state `s` on until the state is finished.  A step takes at least one
character. -/
def readUntil {σ : Type} (isFinished : σ → Bool) (step : σ → List Char → Option (σ × List Char))
    (s : σ) (cs : List Char) : Option (σ × List Char) :=
  if isFinished s then some (s, cs)
  else
    match step s cs with
    | none => none
    | some (s, rest) =>
      if rest.length < cs.length then readUntil isFinished step s rest else none
  termination_by cs.length

/-- Reads up to the mark `stop`, which it takes; the answer is what stands before and behind it. -/
def readTo (stop : Char) (cs : List Char) : Option (List Char × List Char) :=
  match cs.dropWhile (· != stop) with
  | [] => none
  | _ :: rest => some (cs.takeWhile (· != stop), rest)

/-- Splits the digits off the front. -/
def readDigits (cs : List Char) : List Char × List Char :=
  (cs.takeWhile Text.isDigit, cs.dropWhile Text.isDigit)

/-- The text of a property escape behind its letter: one character, or what stands in braces. -/
def readPropertyText : List Char → Option (List Char × List Char)
  | '\x7b' :: cs => readTo '\x7d' cs
  | c :: cs => some ([c], cs)
  | [] => none

/-- The named classes in brackets and colons. -/
def posixNames : List String :=
  ["alnum", "alpha", "ascii", "blank", "cntrl", "digit", "graph", "lower", "print", "punct",
   "space", "upper", "word", "xdigit"]

/-- Whether a text names a class, perhaps the complement of one. -/
def isPosixName (name : List Char) : Bool :=
  match name with
  | '^' :: name => posixNames.contains (String.ofList name)
  | name => posixNames.contains (String.ofList name)

end ChartScript.Regex
