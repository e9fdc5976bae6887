import ChartScript.Regex.Property

/-!
# Regex/Backtracking/Property — the properties that a backtracking engine knows

A property is named alone, or as a script or a class of writing direction.  General categories go by
their short names only.  A circumflex in front stands for the complement.
-/

namespace ChartScript.Regex.Backtracking

/-- Sets of characters that are no properties of the character set. -/
def ownSets : List String := ["any", "l&", "xan", "xps", "xsp", "xuc", "xwd"]

/-- General categories that only this engine knows, and scripts that no character is written in. -/
def ownCodes : List String := ["cs", "unknown", "zzzz"]

/-- Binary properties that only this engine knows. -/
def ownNames : List String := ["ascii", "incb"]

/-- The classes of writing direction. -/
def directions : List String :=
  ["al", "an", "b", "bn", "cs", "en", "es", "et", "fsi", "l", "lre", "lri", "lro", "nsm", "on",
   "pdf", "pdi", "r", "rle", "rli", "rlo", "s", "ws"]

/-- Whether a name is one of a property; a class of writing direction stands behind `bidi`. -/
def isName (name : String) : Bool :=
  ownSets.contains name || ownCodes.contains name || ownNames.contains name ||
  categoryCodes.contains name || isScript name || binaryNames.contains name ||
  (directions.map ("bidi" ++ ·)).contains name

/-- Whether a property with many values has this value. -/
def isValue (property value : String) : Bool :=
  if ["bc", "bidiclass"].contains property then isName ("bidi" ++ value)
  else if ["sc", "script", "scx", "scriptextensions"].contains property then
    isScript value || ["unknown", "zzzz"].contains value
  else false

/-- The text of a property as it is compared: without what does not count and without the sign of a
complement. -/
def looseText (text : List Char) : List Char :=
  let text := (text.filter fun c => !isFiller c && !('\t' ≤ c && c ≤ '\r')).map lowerCase
  match text with
  | '^' :: rest => rest
  | _ => text

/-- **Whether a text names a property**: `name`, `name:value` or `name=value`. -/
def isProperty (text : List Char) : Bool :=
  let text := looseText text
  let isMark (c : Char) : Bool := c == '=' || c == ':'
  match text.dropWhile (!isMark ·) with
  | [] => isName (String.ofList text)
  | _ :: value => isValue (String.ofList (text.takeWhile (!isMark ·))) (String.ofList value)

end ChartScript.Regex.Backtracking
