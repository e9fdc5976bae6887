import ChartScript.Regex.Script

/-!
# Regex/Property — the names of character properties

The general categories and the properties that a character has or has not, by their short and long
names as they are compared: in lower case and without blanks, hyphens and low lines.
-/

namespace ChartScript.Regex

/-- The general categories and their groups by short names. -/
def categoryCodes : List String :=
  ["c", "cc", "cf", "cn", "co", "l", "lc", "ll", "lm", "lo", "lt", "lu", "m", "mc", "me", "mn",
   "n", "nd", "nl", "no", "p", "pc", "pd", "pe", "pf", "pi", "po", "ps", "s", "sc", "sk", "sm",
   "so", "z", "zl", "zp", "zs"]

/-- The general categories and their groups by long names. -/
def categoryNames : List String :=
  ["other", "control", "cntrl", "format", "unassigned", "privateuse", "letter", "casedletter",
   "lowercaseletter", "modifierletter", "otherletter", "titlecaseletter", "uppercaseletter",
   "mark", "combiningmark", "spacingmark", "enclosingmark", "nonspacingmark", "number",
   "decimalnumber", "digit", "letternumber", "othernumber", "punctuation", "punct",
   "connectorpunctuation", "dashpunctuation", "closepunctuation", "finalpunctuation",
   "initialpunctuation", "otherpunctuation", "openpunctuation", "symbol", "currencysymbol",
   "modifiersymbol", "mathsymbol", "othersymbol", "separator", "lineseparator",
   "paragraphseparator", "spaceseparator"]

/-- The properties that a character has or has not. -/
def binaryNames : List String :=
  ["ahex", "asciihexdigit", "alpha", "alphabetic", "bidic", "bidicontrol", "bidim",
   "bidimirrored", "cased", "caseignorable", "changeswhencasefolded", "changeswhencasemapped",
   "changeswhenlowercased", "changeswhentitlecased", "changeswhenuppercased", "ci", "cwcf",
   "cwcm", "cwl", "cwt", "cwu", "dash", "defaultignorablecodepoint", "dep", "deprecated", "di",
   "dia", "diacritic", "ebase", "ecomp", "emod", "emoji", "emojicomponent", "emojimodifier",
   "emojimodifierbase", "emojipresentation", "epres", "ext", "extendedpictographic", "extender",
   "extpict", "graphemebase", "graphemeextend", "graphemelink", "grbase", "grext", "grlink",
   "hex", "hexdigit", "idc", "idcompatmathcontinue", "idcompatmathstart", "idcontinue", "ideo",
   "ideographic", "ids", "idsb", "idsbinaryoperator", "idst", "idstart", "idstrinaryoperator",
   "idsu", "idsunaryoperator", "joinc", "joincontrol", "loe", "logicalorderexception", "lower",
   "lowercase", "math", "mcm", "modifiercombiningmark", "nchar", "noncharactercodepoint",
   "patsyn", "patternsyntax", "patternwhitespace", "patws", "pcm", "prependedconcatenationmark",
   "qmark", "quotationmark", "radical", "regionalindicator", "ri", "sd", "sentenceterminal",
   "softdotted", "space", "sterm", "term", "terminalpunctuation", "uideo", "unifiedideograph",
   "upper", "uppercase", "variationselector", "vs", "whitespace", "wspace", "xidc", "xidcontinue",
   "xids", "xidstart"]

/-- A letter in lower case. -/
def lowerCase (c : Char) : Char :=
  if 'A' ≤ c && c ≤ 'Z' then Char.ofNat (c.toNat + 32) else c

/-- Blanks, hyphens and low lines do not count in a name. -/
def isFiller (c : Char) : Bool := c == ' ' || c == '_' || c == '-'

end ChartScript.Regex
