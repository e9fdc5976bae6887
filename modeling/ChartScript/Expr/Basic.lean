import ChartScript.Expr.Operator

/-!
# Expr/Basic — expression trees

`Expr` is the tree of an expression.  Literals keep the text they were written as, because that text
is what code generation emits.  An array has slots, and a slot without an element is a hole.
-/

namespace ChartScript

/-- The value of a literal. -/
inductive Literal where
  | number (value : Float)
  | string (value : String)
  | boolean (value : Bool)
  | null
  | regex (pattern flags : String)

/-- An expression. -/
inductive Expr where
  /-- A literal and the text it is written as. -/
  | literal (value : Literal) (raw : String)
  | identifier (name : String)
  /-- Slots; one without an element is a hole. -/
  | array (slots : List (Option Expr))
  /-- Properties, in the order they are written. -/
  | object (properties : List Expr)
  | property (key value : Expr)
  | call (callee : Expr) (arguments : List Expr)
  /-- Member access: by `name` as it stands, or by its value when `computed`. -/
  | member (receiver name : Expr) (computed : Bool)
  | binary (operator : BinaryOperator) (left right : Expr)
  | logical (operator : LogicalOperator) (left right : Expr)
  | unary (operator : UnaryOperator) (argument : Expr)
  | conditional (test consequent alternate : Expr)
  /-- Target code that is emitted as it stands. -/
  | rawCode (code : String)
  deriving Inhabited

namespace Expr

/-- The name of the kind of a node. -/
def kind : Expr → String
  | literal _ _ => "Literal"
  | identifier _ => "Identifier"
  | array _ => "ArrayExpression"
  | object _ => "ObjectExpression"
  | property _ _ => "Property"
  | call _ _ => "CallExpression"
  | member _ _ _ => "MemberExpression"
  | binary _ _ _ => "BinaryExpression"
  | logical _ _ _ => "LogicalExpression"
  | unary _ _ => "UnaryExpression"
  | conditional _ _ _ => "ConditionalExpression"
  | rawCode _ => "RawCode"

/-- The direct children of a node in the order they are written; holes are left out. -/
def children : Expr → List Expr
  | literal .. | identifier _ | rawCode _ => []
  | array slots => slots.filterMap id
  | object properties => properties
  | property key value => [key, value]
  | call callee arguments => callee :: arguments
  | member receiver name _ => [receiver, name]
  | binary _ left right => [left, right]
  | logical _ left right => [left, right]
  | unary _ argument => [argument]
  | conditional test consequent alternate => [test, consequent, alternate]

end Expr

/-- The deepest tree that the parser builds and that code is generated for, and the deepest nesting
that the parsers follow. -/
def maxDepth : Nat := 256

end ChartScript
