import ChartScript.Expr.Parser.Operand

/-!
# Expr/Parser/Operation — operators and their operands

Operators in front of an operand are collected first and applied from the inside out.  Operators
between operands are resolved with a stack: an operator on the stack takes its right operand as soon
as an operator comes that binds no more tightly, so operators of equal precedence group to the left.
-/

namespace ChartScript

/-- An operator between two operands. -/
inductive Connective where
  | binary (operator : BinaryOperator)
  | logical (operator : LogicalOperator)
  deriving DecidableEq, Repr

namespace Connective

/-- How tightly an operator binds. -/
def precedence : Connective → Nat
  | logical .or => 1
  | logical .and => 2
  | binary .bitOr => 3
  | binary .bitXor => 4
  | binary .bitAnd => 5
  | binary .eq | binary .notEq | binary .strictEq | binary .strictNotEq => 6
  | binary .lt | binary .gt | binary .ltEq | binary .gtEq | binary .instanceof | binary .isIn => 7
  | binary .shl | binary .shr | binary .uShr => 8
  | binary .add | binary .sub => 9
  | binary .mul | binary .div | binary .rem => 11

/-- The spelling of an operator. -/
def symbol : Connective → String
  | binary operator => operator.symbol
  | logical operator => operator.symbol

/-- The operator with a given spelling. -/
def ofSymbol? (text : String) : Option Connective :=
  match LogicalOperator.ofSymbol? text with
  | some operator => some (logical operator)
  | none => (BinaryOperator.ofSymbol? text).map binary

/-- The operator that a lexeme is, between two operands. -/
def ofLexeme? : Lexeme → Option Connective
  | .punctuator mark => ofSymbol? mark
  | .keyword word => ofSymbol? word
  | _ => none

/-- The tree of an operator with its operands. -/
def apply (connective : Connective) (left right : Expr) : Expr :=
  match connective with
  | binary operator => .binary operator left right
  | logical operator => .logical operator left right

/-- Reading the spelling of an operator gives the operator back. -/
theorem ofSymbol?_symbol (connective : Connective) :
    ofSymbol? connective.symbol = some connective := by
  rcases connective with op | op <;> cases op <;> decide

theorem isEnd_of_ofLexeme? {l : Lexeme} {connective : Connective}
    (h : ofLexeme? l = some connective) : l.isEnd = false := by
  cases l <;> first | rfl | cases h

end Connective

namespace Parser

/-- The words in front of an operand that are not supported. -/
def disabledWords : List String := ["delete", "void", "typeof"]

/-- Whether a lexeme is an operator in front of an operand that is not supported. -/
def isDisabledOperator : Lexeme → Bool
  | .punctuator mark => mark == "++" || mark == "--"
  | .keyword word => disabledWords.contains word
  | _ => false

/-- The operator that a lexeme is, in front of an operand. -/
def leadingOperator? : Lexeme → Option UnaryOperator
  | .punctuator mark => UnaryOperator.ofSymbol? mark
  | _ => none

theorem isEnd_of_leadingOperator? {l : Lexeme} {operator : UnaryOperator}
    (h : leadingOperator? l = some operator) : l.isEnd = false := by
  cases l <;> first | rfl | cases h

variable [Externals]

/-- Reads the operators in front of an operand, behind `count` that were read before. -/
def leadingOperators (limits : Limits) (count : Nat) (s : State) :
    Parse (Reached (s.size + 1) (List UnaryOperator)) := do
  if isDisabledOperator s.lexeme then throw (s.disabled (.operator s.lexeme.text))
  match h : leadingOperator? s.lexeme with
  | some operator =>
    if limits.height ≤ count then throw (s.fault (.tooDeep limits.height))
    let t ← s.consume (isEnd_of_leadingOperator? h) ()
    have := t.below
    let later ← leadingOperators limits (count + 1) t.state
    pure ((later.map (operator :: ·)).weaken (by omega))
  | none => pure ⟨[], s, Nat.lt_succ_self _⟩
  termination_by s.size

/-- Reads an operand with the operators in front of it. -/
def unary (limits : Limits) (inner : Nonterminal) (s : State) : Parse (Reached s.size Node) := do
  let operators ← leadingOperators limits 0 s
  let r ← operand limits inner operators.state
  let node ← operators.value.foldrM
    (fun operator node => limits.node r.state (.unary operator node.expr) node.height) r.value
  have := operators.below
  pure ((r.map fun _ => node).weaken (by omega))

/-- An operator that waits for its right operand. -/
structure Pending where
  left : Node
  connective : Connective

/-- The node of a pending operator with its right operand; `s` is where the parser stands. -/
def Pending.complete (limits : Limits) (s : State) (p : Pending) (right : Node) : Parse Node :=
  limits.node s (p.connective.apply p.left.expr right.expr) (max p.left.height right.height)

/-- Completes the pending operators from the top of the stack on that bind at least as tightly as
`binding`; the answer is the rest of the stack and the operand completed last. -/
def reduce (limits : Limits) (s : State) (binding : Nat) :
    List Pending → Node → Parse (List Pending × Node)
  | [], current => pure ([], current)
  | p :: stack, current =>
    if p.connective.precedence < binding then pure (p :: stack, current)
    else do
      let node ← p.complete limits s current
      reduce limits s binding stack node

/-- Reads operators and operands behind the operand `current`, with a stack of pending operators. -/
def operations (limits : Limits) (inner : Nonterminal) (stack : List Pending) (current : Node)
    (s : State) : Parse (Reached (s.size + 1) Node) := do
  match h : Connective.ofLexeme? s.lexeme with
  | some connective =>
    let reduced ← reduce limits s connective.precedence stack current
    let t ← s.consume (Connective.isEnd_of_ofLexeme? h) ()
    let right ← unary limits inner t.state
    have := t.below
    have := right.below
    let r ← operations limits inner (⟨reduced.2, connective⟩ :: reduced.1) right.value right.state
    pure (r.weaken (by omega))
  | none =>
    let reduced ← reduce limits s 0 stack current
    pure ⟨reduced.2, s, Nat.lt_succ_self _⟩
  termination_by s.size

/-- Reads operands with operators between them. -/
def operation (limits : Limits) (inner : Nonterminal) (s : State) :
    Parse (Reached s.size Node) := do
  let first ← unary limits inner s
  let r ← operations limits inner [] first.value first.state
  pure (r.weaken (by have := first.below; omega))

end Parser

end ChartScript
