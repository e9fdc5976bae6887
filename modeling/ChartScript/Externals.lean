import ChartScript.Regex.Validity

/-!
# Externals — what is taken from outside

Two things are not settled by the language of expressions: which characters Unicode allows in
identifiers, and which patterns the engines of regular expressions accept.  Whatever these are, the
language is defined for them; the programs run with those of `Runtime`.
-/

namespace ChartScript

/-- **What the language takes from outside**: a version of Unicode and the engines of regular
expressions. -/
class Externals extends Text.Xid, Regex.Engines

end ChartScript
