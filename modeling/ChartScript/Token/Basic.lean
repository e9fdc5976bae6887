import ChartScript.Regex.Rejection

/-!
# Token/Basic — the tokens of an expression

A `Lexeme` is what a piece of text says, and a `Token` is a lexeme with the bytes it takes.  Numbers
and strings remember whether they are written with a legacy octal form, which the grammar refuses.
-/

namespace ChartScript

/-- What a token says. -/
inductive Lexeme where
  /-- The end of the text. -/
  | endOfInput
  | identifier (name : String)
  | keyword (word : String)
  | boolean (value : Bool)
  | null
  | number (value : Float) (octal : Bool)
  | string (value : String) (octal : Bool)
  | punctuator (mark : String)
  | regex (pattern flags : String)

namespace Lexeme

/-- The name of the kind of a lexeme. -/
def kind : Lexeme → String
  | endOfInput => "<end>"
  | identifier _ => "Identifier"
  | keyword _ => "Keyword"
  | boolean _ => "Boolean"
  | null => "Null"
  | number _ _ => "Numeric"
  | string _ _ => "String"
  | punctuator _ => "Punctuator"
  | regex _ _ => "RegularExpression"

/-- The name, mark or decoded value of a lexeme; numbers, regular expressions and the end have no
text. -/
def text : Lexeme → String
  | identifier name => name
  | keyword word => word
  | boolean value => if value then "true" else "false"
  | null => "null"
  | string value _ => value
  | punctuator mark => mark
  | _ => ""

/-- Whether a lexeme is written with a legacy octal form. -/
def isOctal : Lexeme → Bool
  | number _ octal => octal
  | string _ octal => octal
  | _ => false

/-- Whether a lexeme may name a member: identifiers and all reserved words. -/
def isName : Lexeme → Bool
  | identifier _ | keyword _ | boolean _ | null => true
  | _ => false

/-- Whether a lexeme is the end of the text. -/
def isEnd : Lexeme → Bool
  | endOfInput => true
  | _ => false

/-- Whether a lexeme is the punctuator `mark`. -/
def isPunctuator (mark : String) : Lexeme → Bool
  | punctuator m => m == mark
  | _ => false

end Lexeme

/-- A lexeme and the bytes that it takes. -/
structure Token where
  lexeme : Lexeme
  /-- The byte at which the token begins. -/
  start : Nat
  /-- The byte just past the token. -/
  stop : Nat

/-- Why a text has no next token. -/
inductive LexicalFault where
  | illegal
  | unterminatedString (quote : Char)
  | unterminatedRegex
  | invalidRegex (reason : Regex.Rejection)
  | invalidRegexFlags (flags : String)
  deriving DecidableEq, Repr

/-- A fault and the bytes that it concerns: a point for an illegal character, and the text of the
broken literal otherwise. -/
structure LexicalError where
  fault : LexicalFault
  start : Nat
  stop : Nat
  deriving DecidableEq, Repr

end ChartScript
