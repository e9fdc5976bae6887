import ChartScript.Decimal.Shortest
import ChartScript.Expr.Parser.State

/-!
# Expr/Parser/Operand — the operands of expressions

An operand is a literal, a name, an array, an object or an expression in parentheses, followed by
any number of member accesses and calls.  Expressions nest through one point only, the parameter
`inner`, which reads a nested conditional expression; so each function here is an ordinary recursion
on the size of the state, and the nesting is bounded where `inner` is defined.
-/

namespace ChartScript

/-- The name of a property key, by which the keys of an object are told apart. -/
def Expr.keyName : Expr → String
  | identifier name => name
  | literal (.string value) _ => value
  | literal (.number value) _ => Decimal.Layout.plain.write value
  | literal _ raw => raw
  | e => e.kind

namespace Parser

/-- A part of the parser that consumes at least one token. -/
abbrev Nonterminal := (s : State) → Parse (Reached s.size Node)

/-- The reserved words that may stand as names. -/
def nameKeywords : List String := ["if", "this"]

theorem isEnd_of_isName {l : Lexeme} (h : l.isName = true) : l.isEnd = false := by
  cases l <;> first | rfl | cases h

variable [Externals]

/-- Reads an expression that no comma follows. -/
def expression (inner : Nonterminal) (s : State) : Parse (Reached s.size Node) := do
  let r ← inner s
  if r.state.at? "," then throw (r.state.disabled .comma)
  pure r

/-- Reads an expression in parentheses. -/
def group (inner : Nonterminal) (s : State) : Parse (Reached s.size Node) := do
  let opening ← s.expect "("
  let e ← expression inner opening.state
  let closing ← e.state.expect ")"
  have := opening.below
  have := e.below
  pure ((closing.map fun _ => e.value).weaken (by omega))

/-- Reads the comma behind an element, unless the bracket `close` ends the elements. -/
def separator (close : String) (s : State) : Parse (Reached (s.size + 1) Unit) := do
  if s.at? close then pure ⟨(), s, Nat.lt_succ_self _⟩
  else
    let comma ← s.expect ","
    pure (comma.weaken (Nat.le_succ _))

/-- Reads the slots of an array and its closing bracket.  The answer holds the greatest height of an
element too. -/
def slots (inner : Nonterminal) (s : State) :
    Parse (Reached s.size (List (Option Expr) × Nat)) := do
  if s.at? "]" then
    let closing ← s.expect "]"
    pure (closing.map fun _ => ([], 0))
  else if s.at? "," then
    let comma ← s.expect ","
    let later ← slots inner comma.state
    have := comma.below
    pure ((later.map fun (es, height) => (none :: es, height)).weaken (by omega))
  else
    let e ← inner s
    let comma ← separator "]" e.state
    have := e.below
    have := comma.below
    let later ← slots inner comma.state
    pure ((later.map fun (es, height) =>
      (some e.value.expr :: es, max e.value.height height)).weaken (by omega))
  termination_by s.size
  decreasing_by
    · exact comma.below
    · omega

/-- Reads an array. -/
def array (limits : Limits) (inner : Nonterminal) (s : State) : Parse (Reached s.size Node) := do
  let opening ← s.expect "["
  let r ← slots inner opening.state
  let node ← limits.node r.state (.array r.value.1) r.value.2
  have := opening.below
  pure ((r.map fun _ => node).weaken (by omega))

/-- The key that the lookahead token spells: a literal for a string or a number, and a name for any
word. -/
def State.key (s : State) : Expr :=
  match s.lexeme with
  | .string value _ => .literal (.string value) s.text
  | .number value _ => .literal (.number value) s.text
  | lexeme => .identifier lexeme.text

/-- Whether a lexeme may be the key of a property. -/
def canBeKey : Lexeme → Bool
  | .endOfInput => false
  | .punctuator _ => false
  | _ => true

omit [Externals] in
theorem isEnd_of_canBeKey {l : Lexeme} (h : canBeKey l = true) : l.isEnd = false := by
  cases l <;> first | rfl | cases h

/-- Reads a property: a key, a colon and a value.  The answer holds the key too. -/
def property (limits : Limits) (inner : Nonterminal) (s : State) :
    Parse (Reached s.size (Expr × Node)) := do
  if h : canBeKey s.lexeme then
    let t ← s.next
    have : t.1.size < s.size := Nat.lt_of_le_of_lt t.2 (s.advances (isEnd_of_canBeKey h))
    if s.lexeme.isOctal then throw (s.fault .strictOctal)
    let colon ← t.1.expect ":"
    have := colon.below
    let value ← inner colon.state
    let node ← limits.node value.state (.property s.key value.value.expr) value.value.height
    pure ((value.map fun _ => (s.key, node)).weaken (by omega))
  else throw s.unexpected

/-- Reads the properties of an object and its closing brace.  Their keys are told apart by name from
each other and from those `seen` before.  The answer holds the greatest height of a property too. -/
def properties (limits : Limits) (inner : Nonterminal) (seen : List String) (s : State) :
    Parse (Reached s.size (List Expr × Nat)) := do
  if s.at? "\x7d" then
    let closing ← s.expect "\x7d"
    pure (closing.map fun _ => ([], 0))
  else
    let p ← property limits inner s
    let name := p.value.1.keyName
    if seen.contains name then throw (s.fault (.duplicateProperty name))
    let comma ← separator "\x7d" p.state
    have := p.below
    have := comma.below
    let later ← properties limits inner (name :: seen) comma.state
    pure ((later.map fun (es, height) =>
      (p.value.2.expr :: es, max p.value.2.height height)).weaken (by omega))
  termination_by s.size

/-- Reads an object. -/
def object (limits : Limits) (inner : Nonterminal) (s : State) : Parse (Reached s.size Node) := do
  let opening ← s.expect "\x7b"
  let r ← properties limits inner [] opening.state
  let node ← limits.node r.state (.object r.value.1) r.value.2
  have := opening.below
  pure ((r.map fun _ => node).weaken (by omega))

/-- Reads a regular-expression literal that begins where the lookahead token does. -/
def regex (s : State) : Parse (Reached s.size Node) :=
  match h : Scan.regexLiteral s.before.chars with
  | .error stop => throw (.lexical (s.before.errorAt stop))
  | .ok ((pattern, flags), rest) => do
    let t ← State.ofCursor (s.before.moveTo rest)
    let raw := s.before.chars.take (s.before.chars.length - rest.length)
    pure ⟨.leaf (.literal (.regex pattern flags) (String.ofList raw)), t.1,
      Nat.lt_of_le_of_lt t.2 (Scan.length_regexLiteral h)⟩

/-- Reads a word or a literal. -/
def word (s : State) : Parse (Reached s.size Node) :=
  match h : s.lexeme with
  | .identifier name => s.consume (by rw [h]; rfl) (.leaf (.identifier name))
  | .keyword word =>
    if nameKeywords.contains word then s.consume (by rw [h]; rfl) (.leaf (.identifier word))
    else throw (s.disabled (.reservedWord word))
  | .string value octal =>
    if octal then throw (s.fault .strictOctal)
    else s.consume (by rw [h]; rfl) (.leaf (.literal (.string value) s.text))
  | .number value octal =>
    if octal then throw (s.fault .strictOctal)
    else s.consume (by rw [h]; rfl) (.leaf (.literal (.number value) s.text))
  | .boolean value => s.consume (by rw [h]; rfl) (.leaf (.literal (.boolean value) s.text))
  | .null => s.consume (by rw [h]; rfl) (.leaf (.literal .null s.text))
  | _ => do
    let _ ← s.next
    throw s.unexpected

/-- Reads an operand without what may follow it. -/
def primary (limits : Limits) (inner : Nonterminal) (s : State) : Parse (Reached s.size Node) :=
  if s.at? "(" then group inner s
  else if s.at? "[" then array limits inner s
  else if s.at? "\x7b" then object limits inner s
  else if s.at? "/" || s.at? "/=" then regex s
  else word s

/-- Reads the name behind a point; any word will do. -/
def memberName (s : State) : Parse (Reached s.size Expr) := do
  let t ← s.next
  if h : s.lexeme.isName then
    pure ⟨.identifier s.lexeme.text, t.1, Nat.lt_of_le_of_lt t.2 (s.advances (isEnd_of_isName h))⟩
  else throw s.unexpected

/-- Reads one or more arguments and the closing parenthesis.  The answer holds the greatest height
of an argument too. -/
def argumentList (inner : Nonterminal) (s : State) :
    Parse (Reached s.size (List Expr × Nat)) := do
  let e ← inner s
  have := e.below
  if e.state.at? ")" then
    let closing ← e.state.expect ")"
    pure ((closing.map fun _ => ([e.value.expr], e.value.height)).weaken (by omega))
  else
    let comma ← e.state.expect ","
    have := comma.below
    let later ← argumentList inner comma.state
    pure ((later.map fun (es, height) =>
      (e.value.expr :: es, max e.value.height height)).weaken (by omega))
  termination_by s.size

/-- Reads arguments in parentheses. -/
def arguments (inner : Nonterminal) (s : State) : Parse (Reached s.size (List Expr × Nat)) := do
  let opening ← s.expect "("
  have := opening.below
  if opening.state.at? ")" then
    let closing ← opening.state.expect ")"
    pure ((closing.map fun _ => ([], 0)).weaken (by omega))
  else
    let r ← argumentList inner opening.state
    pure (r.weaken (by omega))

/-- Reads the member accesses and the calls behind an operand. -/
def accesses (limits : Limits) (inner : Nonterminal) (node : Node) (s : State) :
    Parse (Reached (s.size + 1) Node) := do
  if s.at? "." then
    let dot ← s.expect "."
    let name ← memberName dot.state
    have := dot.below
    have := name.below
    let node ← limits.node name.state (.member node.expr name.value false) node.height
    let r ← accesses limits inner node name.state
    pure (r.weaken (by omega))
  else if s.at? "(" then
    let args ← arguments inner s
    have := args.below
    let node ← limits.node args.state (.call node.expr args.value.1) (max node.height args.value.2)
    let r ← accesses limits inner node args.state
    pure (r.weaken (by omega))
  else if s.at? "[" then
    let opening ← s.expect "["
    let e ← expression inner opening.state
    let closing ← e.state.expect "]"
    have := opening.below
    have := e.below
    have := closing.below
    let node ← limits.node closing.state (.member node.expr e.value.expr true)
      (max node.height e.value.height)
    let r ← accesses limits inner node closing.state
    pure (r.weaken (by omega))
  else pure ⟨node, s, Nat.lt_succ_self _⟩
  termination_by s.size

/-- Reads an operand; no increment or decrement follows it. -/
def operand (limits : Limits) (inner : Nonterminal) (s : State) :
    Parse (Reached s.size Node) := do
  let first ← primary limits inner s
  let r ← accesses limits inner first.value first.state
  have := first.below
  if r.state.at? "++" || r.state.at? "--" then
    throw (r.state.disabled (.operator r.state.lexeme.text))
  pure (r.weaken (by omega))

end Parser

end ChartScript
