import ChartScript.Regex.Notation
import ChartScript.Regex.Property

/-!
# Regex/Linear/Property — the properties that a linear-time engine knows

A property is named alone, or as a value of one of the properties that have many values.  A name may
begin with `is`, which does not count.
-/

namespace ChartScript.Regex.Linear

/-- Whether a name begins with `is`, in either case. -/
def beginsWithIs : List Char → Bool
  | c :: d :: _ => lowerCase c == 'i' && lowerCase d == 's'
  | _ => false

/-- A name as it is compared.  The name `isc` is no `c` behind `is`. -/
def looseName (name : List Char) : String :=
  let body := if beginsWithIs name then name.drop 2 else name
  let body := (body.filter fun c => !isFiller c && c.toNat < 128).map lowerCase
  if beginsWithIs name && body == ['c'] then "isc" else String.ofList body

/-- Whether a name is one of a general category, or of a set of them. -/
def isCategory (name : String) : Bool :=
  categoryCodes.contains name || categoryNames.contains name ||
  ["any", "assigned", "ascii"].contains name

/-- Properties that only help to derive others, and the hyphens. -/
def contributoryNames : List String :=
  ["hyphen", "oalpha", "odi", "ogrext", "oidc", "oids", "olower", "omath", "otheralphabetic",
   "otherdefaultignorablecodepoint", "othergraphemeextend", "otheridcontinue", "otheridstart",
   "otherlowercase", "othermath", "otheruppercase", "oupper"]

/-- The versions of the character set. -/
def ages : List String :=
  ["1.1", "2.0", "2.1", "3.0", "3.1", "3.2", "4.0", "4.1", "5.0", "5.1", "5.2", "6.0", "6.1",
   "6.2", "6.3", "7.0", "8.0", "9.0", "10.0", "11.0", "12.0", "12.1", "13.0", "14.0", "15.0",
   "15.1", "16.0", "17.0"]

/-- The versions of the character set in their other spelling. -/
def agesWithoutPoint : List String :=
  ["v11", "v20", "v21", "v30", "v31", "v32", "v40", "v41", "v50", "v51", "v52", "v60", "v61",
   "v62", "v63", "v70", "v80", "v90", "v100", "v110", "v120", "v121", "v130", "v140", "v150",
   "v151", "v160", "v170"]

/-- The values of `Grapheme_Cluster_Break`. -/
def graphemeBreaks : List String :=
  ["cn", "control", "cr", "ex", "extend", "l", "lf", "lv", "lvt", "pp", "prepend",
   "regionalindicator", "ri", "sm", "spacingmark", "t", "v", "zwj"]

/-- The values of `Word_Break`. -/
def wordBreaks : List String :=
  ["aletter", "cr", "doublequote", "dq", "ex", "extend", "extendnumlet", "fo", "format",
   "hebrewletter", "hl", "ka", "katakana", "le", "lf", "mb", "midletter", "midnum", "midnumlet",
   "ml", "mn", "newline", "nl", "nu", "numeric", "regionalindicator", "ri", "singlequote", "sq",
   "wsegspace", "zwj"]

/-- The values of `Sentence_Break`. -/
def sentenceBreaks : List String :=
  ["at", "aterm", "cl", "close", "cr", "ex", "extend", "fo", "format", "le", "lf", "lo", "lower",
   "nu", "numeric", "oletter", "sc", "scontinue", "se", "sep", "sp", "st", "sterm", "up", "upper"]

/-- The scripts that only this engine knows. -/
def newScripts : List String :=
  ["berf", "beriaerfe", "sidetic", "sidt", "taiyo", "tayo", "tolongsiki", "tols"]

/-- Whether a name is one of a script. -/
def isKnownScript (name : String) : Bool := isScript name || newScripts.contains name

/-- The properties with many values, each by its names. -/
def valuedProperties : List (List String × (String → Bool)) :=
  [(["gc", "generalcategory"], isCategory),
   (["sc", "script", "scx", "scriptextensions"], isKnownScript),
   (["age"], fun value => ages.contains value || agesWithoutPoint.contains value),
   (["gcb", "graphemeclusterbreak"], graphemeBreaks.contains),
   (["wb", "wordbreak"], wordBreaks.contains),
   (["sb", "sentencebreak"], sentenceBreaks.contains)]

/-- Whether a property with many values has this value. -/
def isValue (property value : List Char) : Bool :=
  match valuedProperties.find? (·.1.contains (looseName property)) with
  | some (_, isOne) => isOne (looseName value)
  | none => false

/-- Splits a text at the first `!=`, if there is one. -/
def splitAtUnequal? : List Char → Option (List Char × List Char)
  | '!' :: '=' :: rest => some ([], rest)
  | c :: cs => (splitAtUnequal? cs).map fun (front, rest) => (c :: front, rest)
  | [] => none

/-- **Whether a text names a property**: `name`, `name!=value`, `name:value` or `name=value`. -/
def isProperty (text : List Char) : Bool :=
  match splitAtUnequal? text <|> readTo ':' text <|> readTo '=' text with
  | some (property, value) => isValue property value
  | none =>
    let name := looseName text
    binaryNames.contains name || contributoryNames.contains name || isCategory name ||
    isKnownScript name

end ChartScript.Regex.Linear
