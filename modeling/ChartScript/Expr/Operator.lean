/-!
# Expr/Operator — the operators of expressions

Three families: operators between two values, the two logical ones, which need not evaluate both
sides, and operators in front of a value.  Each family lists its members, and `ofSymbol?` finds the
one with a given spelling.
-/

namespace ChartScript

/-- An operator between two values. -/
inductive BinaryOperator where
  | bitOr | bitXor | bitAnd
  | eq | notEq | strictEq | strictNotEq
  | lt | gt | ltEq | gtEq | isIn | instanceof
  | shl | shr | uShr
  | add | sub | mul | div | rem
  deriving DecidableEq, Repr, Inhabited

namespace BinaryOperator

/-- Every operator between two values. -/
def all : List BinaryOperator :=
  [bitOr, bitXor, bitAnd, eq, notEq, strictEq, strictNotEq, lt, gt, ltEq, gtEq, isIn, instanceof,
   shl, shr, uShr, add, sub, mul, div, rem]

/-- The spelling of an operator. -/
def symbol : BinaryOperator → String
  | bitOr => "|"
  | bitXor => "^"
  | bitAnd => "&"
  | eq => "=="
  | notEq => "!="
  | strictEq => "==="
  | strictNotEq => "!=="
  | lt => "<"
  | gt => ">"
  | ltEq => "<="
  | gtEq => ">="
  | isIn => "in"
  | instanceof => "instanceof"
  | shl => "<<"
  | shr => ">>"
  | uShr => ">>>"
  | add => "+"
  | sub => "-"
  | mul => "*"
  | div => "/"
  | rem => "%"

/-- The name of an operator in a printed tree. -/
def name : BinaryOperator → String
  | bitOr => "BitOr"
  | bitXor => "BitXor"
  | bitAnd => "BitAnd"
  | eq => "Eq"
  | notEq => "NotEq"
  | strictEq => "StrictEq"
  | strictNotEq => "StrictNotEq"
  | lt => "Lt"
  | gt => "Gt"
  | ltEq => "LtEq"
  | gtEq => "GtEq"
  | isIn => "In"
  | instanceof => "Instanceof"
  | shl => "Shl"
  | shr => "Shr"
  | uShr => "UShr"
  | add => "Add"
  | sub => "Sub"
  | mul => "Mul"
  | div => "Div"
  | rem => "Rem"

/-- Whether an operator is spelled as a word, which blanks have to set off. -/
def isWord : BinaryOperator → Bool
  | isIn | instanceof => true
  | _ => false

/-- The operator with a given spelling. -/
def ofSymbol? (text : String) : Option BinaryOperator := all.find? (·.symbol == text)

/-- Reading the spelling of an operator gives the operator back. -/
theorem ofSymbol?_symbol (op : BinaryOperator) : ofSymbol? op.symbol = some op := by
  cases op <;> decide

end BinaryOperator

/-- A logical operator. -/
inductive LogicalOperator where
  | or | and
  deriving DecidableEq, Repr, Inhabited

namespace LogicalOperator

/-- The spelling of an operator. -/
def symbol : LogicalOperator → String
  | or => "||"
  | and => "&&"

/-- The name of an operator in a printed tree. -/
def name : LogicalOperator → String
  | or => "Or"
  | and => "And"

/-- The operator with a given spelling. -/
def ofSymbol? (text : String) : Option LogicalOperator := [or, and].find? (·.symbol == text)

/-- Reading the spelling of an operator gives the operator back. -/
theorem ofSymbol?_symbol (op : LogicalOperator) : ofSymbol? op.symbol = some op := by
  cases op <;> decide

end LogicalOperator

/-- An operator in front of a value. -/
inductive UnaryOperator where
  | plus | minus | bitNot | not
  deriving DecidableEq, Repr, Inhabited

namespace UnaryOperator

/-- The spelling of an operator. -/
def symbol : UnaryOperator → String
  | plus => "+"
  | minus => "-"
  | bitNot => "~"
  | not => "!"

/-- The name of an operator in a printed tree. -/
def name : UnaryOperator → String
  | plus => "Plus"
  | minus => "Minus"
  | bitNot => "BitNot"
  | not => "Not"

/-- The operator with a given spelling. -/
def ofSymbol? (text : String) : Option UnaryOperator :=
  [plus, minus, bitNot, not].find? (·.symbol == text)

/-- Reading the spelling of an operator gives the operator back. -/
theorem ofSymbol?_symbol (op : UnaryOperator) : ofSymbol? op.symbol = some op := by
  cases op <;> decide

end UnaryOperator

end ChartScript
