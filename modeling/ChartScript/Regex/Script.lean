/-!
# Regex/Script — the names of scripts

A script has a long name and a code of four letters.  Both are written here as they are compared:
in lower case and without blanks, hyphens and low lines.
-/

namespace ChartScript.Regex

/-- Scripts by their long names. -/
def scriptNames : List String :=
  ["adlam", "ahom", "anatolianhieroglyphs", "arabic", "armenian", "avestan", "balinese", "bamum",
   "bassavah", "batak", "bengali", "bhaiksuki", "bopomofo", "brahmi", "braille", "buginese",
   "buhid", "canadianaboriginal", "carian", "caucasianalbanian", "chakma", "cham", "cherokee",
   "chorasmian", "common", "coptic", "cuneiform", "cypriot", "cyprominoan", "cyrillic",
   "deseret", "devanagari", "divesakuru", "dogra", "duployan", "egyptianhieroglyphs", "elbasan",
   "elymaic", "ethiopic", "garay", "georgian", "glagolitic", "gothic", "grantha", "greek",
   "gujarati", "gunjalagondi", "gurmukhi", "gurungkhema", "han", "hangul", "hanifirohingya",
   "hanunoo", "hatran", "hebrew", "hiragana", "imperialaramaic", "inherited",
   "inscriptionalpahlavi", "inscriptionalparthian", "javanese", "kaithi", "kannada", "katakana",
   "kawi", "kayahli", "kharoshthi", "khitansmallscript", "khmer", "khojki", "khudawadi",
   "kiratrai", "lao", "latin", "lepcha", "limbu", "lineara", "linearb", "lisu", "lycian",
   "lydian", "mahajani", "makasar", "malayalam", "mandaic", "manichaean", "marchen",
   "masaramgondi", "medefaidrin", "meeteimayek", "mendekikakui", "meroiticcursive",
   "meroitichieroglyphs", "miao", "modi", "mongolian", "mro", "multani", "myanmar", "nabataean",
   "nagmundari", "nandinagari", "newa", "newtailue", "nko", "nushu", "nyiakengpuachuehmong",
   "ogham", "olchiki", "oldhungarian", "olditalic", "oldnortharabian", "oldpermic", "oldpersian",
   "oldsogdian", "oldsoutharabian", "oldturkic", "olduyghur", "olonal", "oriya", "osage",
   "osmanya", "pahawhhmong", "palmyrene", "paucinhau", "phagspa", "phoenician", "psalterpahlavi",
   "rejang", "runic", "samaritan", "saurashtra", "sharada", "shavian", "siddham", "signwriting",
   "sinhala", "sogdian", "sorasompeng", "soyombo", "sundanese", "sunuwar", "sylotinagri",
   "syriac", "tagalog", "tagbanwa", "taile", "taitham", "taiviet", "takri", "tamil", "tangsa",
   "tangut", "telugu", "thaana", "thai", "tibetan", "tifinagh", "tirhuta", "todhri", "toto",
   "tulutigalari", "ugaritic", "vai", "vithkuqi", "wancho", "warangciti", "yezidi", "yi",
   "zanabazarsquare"]

/-- Scripts by their codes; two have an older code beside. -/
def scriptCodes : List String :=
  ["adlm", "aghb", "ahom", "arab", "armi", "armn", "avst", "bali", "bamu", "bass", "batk",
   "beng", "bhks", "bopo", "brah", "brai", "bugi", "buhd", "cakm", "cans", "cari", "cham",
   "cher", "chrs", "copt", "cpmn", "cprt", "cyrl", "deva", "diak", "dogr", "dsrt", "dupl",
   "egyp", "elba", "elym", "ethi", "gara", "geor", "glag", "gong", "gonm", "goth", "gran",
   "grek", "gujr", "gukh", "guru", "hang", "hani", "hano", "hatr", "hebr", "hira", "hluw",
   "hmng", "hmnp", "hung", "ital", "java", "kali", "kana", "kawi", "khar", "khmr", "khoj",
   "kits", "knda", "krai", "kthi", "lana", "laoo", "latn", "lepc", "limb", "lina", "linb",
   "lisu", "lyci", "lydi", "mahj", "maka", "mand", "mani", "marc", "medf", "mend", "merc",
   "mero", "mlym", "modi", "mong", "mroo", "mtei", "mult", "mymr", "nagm", "nand", "narb",
   "nbat", "newa", "nkoo", "nshu", "ogam", "olck", "onao", "orkh", "orya", "osge", "osma",
   "ougr", "palm", "pauc", "perm", "phag", "phli", "phlp", "phnx", "plrd", "prti", "qaac",
   "qaai", "rjng", "rohg", "runr", "samr", "sarb", "saur", "sgnw", "shaw", "shrd", "sidd",
   "sind", "sinh", "sogd", "sogo", "sora", "soyo", "sund", "sunu", "sylo", "syrc", "tagb",
   "takr", "tale", "talu", "taml", "tang", "tavt", "telu", "tfng", "tglg", "thaa", "thai",
   "tibt", "tirh", "tnsa", "todr", "toto", "tutg", "ugar", "vaii", "vith", "wara", "wcho",
   "xpeo", "xsux", "yezi", "yiii", "zanb", "zinh", "zyyy"]

/-- Whether a text names a script. -/
def isScript (name : String) : Bool := scriptNames.contains name || scriptCodes.contains name

end ChartScript.Regex
