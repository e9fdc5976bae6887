import ChartScript.Expr.Basic
import ChartScript.Token.Cursor

/-!
# Expr/Parser/State — a lookahead token and its surroundings

The parser looks one token ahead.  A `State` holds that token between the places before and behind
it; its `size` is the number of characters from the token on, and consuming a token makes it
smaller.  `Reached n α` is what a part of the parser answers: a value, and a state of a size below
`n`.  A part that starts from `s` and consumes a token answers below `s.size`, and one that may
consume nothing answers below `s.size + 1`; so a loop in the parser ends because its states shrink.
-/

namespace ChartScript

/-- What expressions may not use. -/
inductive Construct where
  /-- An operator that changes or deletes something, or asks for a type. -/
  | operator (mark : String)
  /-- A word that the language reserves. -/
  | reservedWord (word : String)
  /-- A sequence of expressions. -/
  | comma
  deriving DecidableEq, Repr

/-- Why tokens form no expression. -/
inductive SyntaxFault where
  | unexpectedEnd
  | unexpectedNumber
  | unexpectedString
  | unexpectedIdentifier
  | unexpectedReserved
  | unexpectedToken (text : String)
  | disabled (construct : Construct)
  | trailingInput
  | strictOctal
  | duplicateProperty (key : String)
  | tooDeep (limit : Nat)
  deriving DecidableEq, Repr

/-- A fault and the bytes of the token that it concerns. -/
structure SyntaxError where
  fault : SyntaxFault
  start : Nat
  stop : Nat
  deriving DecidableEq, Repr

/-- Why a text is no expression. -/
inductive ParseError where
  | lexical (error : LexicalError)
  | grammar (error : SyntaxError)
  deriving DecidableEq, Repr

namespace Parser

/-- What a part of the parser computes, unless the text is no expression. -/
abbrev Parse := Except ParseError

/-- A lookahead token with the places before and behind it. -/
structure State where
  lexeme : Lexeme
  before : Cursor
  after : Cursor
  /-- Only the end of the text takes no character. -/
  advances : lexeme.isEnd = false → after.chars.length < before.chars.length

namespace State

/-- The number of characters from the lookahead token on. -/
def size (s : State) : Nat := s.before.chars.length

/-- The text of the lookahead token. -/
def text (s : State) : String :=
  String.ofList (s.before.chars.take (s.before.chars.length - s.after.chars.length))

/-- Whether the lookahead token is the punctuator `mark`. -/
def at? (s : State) (mark : String) : Bool := s.lexeme.isPunctuator mark

/-- The error of a fault at the lookahead token. -/
def fault (s : State) (fault : SyntaxFault) : ParseError :=
  .grammar ⟨fault, s.before.offset, s.after.offset⟩

/-- The error of a lookahead token that may not stand where it stands. -/
def unexpected (s : State) : ParseError :=
  s.fault <|
    match s.lexeme with
    | .endOfInput => .unexpectedEnd
    | .number .. => .unexpectedNumber
    | .string .. => .unexpectedString
    | .identifier _ => .unexpectedIdentifier
    | .keyword _ => .unexpectedReserved
    | _ => .unexpectedToken s.text

/-- The error of a construct that begins at the lookahead token and is not supported. -/
def disabled (s : State) (construct : Construct) : ParseError := s.fault (.disabled construct)

/-- The state whose lookahead is the token at the cursor; it is no larger than what lies behind the
cursor. -/
def ofCursor [Text.Xid] (c : Cursor) : Parse { s : State // s.size ≤ c.chars.length } :=
  let before := c.skipLayout
  match h : Scan.lexeme before.chars with
  | .error stop => .error (.lexical (before.errorAt stop))
  | .ok (lexeme, rest) =>
    .ok ⟨⟨lexeme, before, before.moveTo rest, Scan.length_lexeme_of_not_isEnd h⟩,
      c.length_skipLayout⟩

/-- The state behind the lookahead token. -/
def next [Text.Xid] (s : State) : Parse { t : State // t.size ≤ s.after.chars.length } :=
  ofCursor s.after

theorem isEnd_of_isPunctuator {l : Lexeme} {mark : String} (h : l.isPunctuator mark = true) :
    l.isEnd = false := by
  cases l <;> first | rfl | cases h

end State

/-- A value, and a state of a size below `n`. -/
structure Reached (n : Nat) (α : Type) where
  value : α
  state : State
  below : state.size < n

namespace Reached

variable {α β : Type} {m n : Nat}

/-- The same answer under a larger bound. -/
def weaken (r : Reached m α) (h : m ≤ n) : Reached n α :=
  ⟨r.value, r.state, Nat.lt_of_lt_of_le r.below h⟩

/-- The same answer with its value changed. -/
def map (f : α → β) (r : Reached n α) : Reached n β := ⟨f r.value, r.state, r.below⟩

end Reached

namespace State

/-- Consumes the lookahead token, which is not the end, for the value `a`. -/
def consume [Text.Xid] {α : Type} (s : State) (h : s.lexeme.isEnd = false) (a : α) :
    Parse (Reached s.size α) := do
  let t ← s.next
  pure ⟨a, t.1, Nat.lt_of_le_of_lt t.2 (s.advances h)⟩

/-- Consumes the punctuator `mark`.  The token behind it is read before the lookahead is checked, so
a lexical error there comes first. -/
def expect [Text.Xid] (s : State) (mark : String) : Parse (Reached s.size Unit) := do
  let t ← s.next
  if h : s.at? mark then
    pure ⟨(), t.1, Nat.lt_of_le_of_lt t.2 (s.advances (isEnd_of_isPunctuator h))⟩
  else throw s.unexpected

end State

/-- A tree and its height, as it is known while the tree is built. -/
structure Node where
  expr : Expr
  height : Nat

/-- How deep expressions may go. -/
structure Limits where
  /-- The number of conditional expressions that may be open at once. -/
  nesting : Nat
  /-- The height of a tree. -/
  height : Nat

/-- The limits in use. -/
def Limits.standard : Limits := ⟨maxDepth, maxDepth⟩

/-- The node for a tree without children. -/
def Node.leaf (expr : Expr) : Node := ⟨expr, 1⟩

/-- The node for a tree whose highest child has height `below`, unless it is too high; `s` is where
the parser stands by then. -/
def Limits.node (limits : Limits) (s : State) (expr : Expr) (below : Nat) :
    Parse Node :=
  if limits.height < below + 1 then throw (s.fault (.tooDeep limits.height))
  else pure ⟨expr, below + 1⟩

end Parser

end ChartScript
