import ChartScript.Expr.Parser.Operation

/-!
# Expr/Parser/Basic — reading a whole expression

`Parser.conditional` closes the recursion: it reads operations and the two branches of a conditional
expression, and what they nest is read with one level of nesting less.  `Expr.parse` reads a text
that is exactly one expression.
-/

namespace ChartScript

variable [Externals]

namespace Parser

/-- Reads a conditional expression, what it nests by means of `inner`. -/
def conditionalOver (limits : Limits) (inner : Nonterminal) (s : State) :
    Parse (Reached s.size Node) := do
  let test ← operation limits inner s
  if test.state.at? "?" then
    let question ← test.state.expect "?"
    let consequent ← inner question.state
    let colon ← consequent.state.expect ":"
    let alternate ← inner colon.state
    let node ← limits.node alternate.state
      (.conditional test.value.expr consequent.value.expr alternate.value.expr)
      (max (max test.value.height consequent.value.height) alternate.value.height)
    pure ((alternate.map fun _ => node).weaken (by
      have := test.below
      have := question.below
      have := consequent.below
      have := colon.below
      omega))
  else pure test

/-- Reads a conditional expression within a number of levels of nesting. -/
def conditional (limits : Limits) : Nat → Nonterminal
  | 0, s => throw (s.fault (.tooDeep limits.nesting))
  | levels + 1, s => conditionalOver limits (conditional limits levels) s

/-- Reads a text that is exactly one expression, within some limits. -/
def parse (limits : Limits) (source : List Char) : Parse Node := do
  let first ← State.ofCursor (Cursor.start source)
  let r ← expression (conditional limits limits.nesting) first.1
  if r.state.lexeme.isEnd then pure r.value else throw (r.state.fault .trailingInput)

end Parser

/-- **Reads a text that is exactly one expression.** -/
def Expr.parse (source : String) : Except ParseError Expr := do
  let node ← Parser.parse .standard source.toList
  pure node.expr

end ChartScript
