import ChartScript.Proofs.Expr.Height

/-!
# Proofs/Grammar/Basic — the grammar of expressions

    Conditional ::= Binary | Binary ? Conditional : Conditional
    Binary      ::= left-associative levels over the operators between two operands
    Unary       ::= Postfix | + Unary | - Unary | ~ Unary | ! Unary
    Postfix     ::= Chain, not followed by ++ or --
    Chain       ::= Primary | Chain . Name | Chain ( arguments ) | Chain [ Conditional ]
    Primary     ::= Word | regular expression | ( Conditional ) | [ slots ] | { entries }

A nonterminal relates two places of a text and a tree: the text between the places derives the
tree.  The terminals are the tokens that `Cursor.next` reads, and a regular-expression literal
where an operand is due and the next token is a slash or `/=`.  Nesting goes through one point, the
nonterminal `inner`, so `Conditional levels` says how many conditional expressions are open at once.
-/

namespace ChartScript

variable [Externals]

namespace Cursor

/-- The token at `c` is `lexeme`, and `d` is the place behind it. -/
def Reads (c : Cursor) (lexeme : Lexeme) (d : Cursor) : Prop :=
  ∃ start stop, c.next = .ok (⟨lexeme, start, stop⟩, d)

/-- A regular-expression literal comes next at `c`, and `d` is the place behind it. -/
def ReadsRegex (c : Cursor) (pattern flags : String) (d : Cursor) : Prop :=
  ∃ start stop, c.nextRegex = .ok (⟨.regex pattern flags, start, stop⟩, d)

/-- Behind layout, the text from `c` to `d` is `raw`. -/
def Spells (c : Cursor) (raw : String) (d : Cursor) : Prop :=
  c.skipLayout.chars = raw.toList ++ d.chars

/-- A token is a lexeme at the front of what lies behind layout. -/
theorem reads_iff {c d : Cursor} {l : Lexeme} :
    c.Reads l d ↔ ∃ rest, Scan.lexeme c.skipLayout.chars = .ok (l, rest) ∧
      c.skipLayout.moveTo rest = d := by
  unfold Reads next
  constructor
  · rintro ⟨start, stop, h⟩
    generalize hs : Scan.lexeme c.skipLayout.chars = s at h
    match s with
    | .ok (l', rest) =>
      cases h
      exact ⟨rest, rfl, rfl⟩
    | .error _ => cases h
  · rintro ⟨rest, h, rfl⟩
    exact ⟨_, _, congrArg c.skipLayout.settle h⟩

/-- **A place has one token.** -/
theorem Reads.unique {c d d' : Cursor} {l l' : Lexeme} (h : c.Reads l d) (h' : c.Reads l' d') :
    l = l' ∧ d = d' := by
  obtain ⟨_, _, h⟩ := h
  obtain ⟨_, _, h'⟩ := h'
  rw [h] at h'
  cases h'
  exact ⟨rfl, rfl⟩

theorem Reads.lexeme_eq {c d d' : Cursor} {l l' : Lexeme} (h : c.Reads l d) (h' : c.Reads l' d') :
    l = l' := (h.unique h').1

theorem Reads.place_eq {c d d' : Cursor} {l l' : Lexeme} (h : c.Reads l d) (h' : c.Reads l' d') :
    d = d' := (h.unique h').2

/-- A regular-expression literal is one at the front of what lies behind layout. -/
theorem readsRegex_iff {c d : Cursor} {pattern flags : String} :
    c.ReadsRegex pattern flags d ↔
      ∃ rest, Scan.regexLiteral c.skipLayout.chars = .ok ((pattern, flags), rest) ∧
        c.skipLayout.moveTo rest = d := by
  unfold ReadsRegex nextRegex
  constructor
  · rintro ⟨start, stop, h⟩
    generalize hs : Scan.regexLiteral c.skipLayout.chars = s at h
    match s with
    | .ok ((pattern', flags'), rest) =>
      cases h
      exact ⟨rest, rfl, rfl⟩
    | .error _ => cases h
  · rintro ⟨rest, h, rfl⟩
    rw [h]
    exact ⟨_, _, rfl⟩

omit [Externals] in
theorem spells_moveTo {c : Cursor} {rest : List Char} (h : rest <:+ c.skipLayout.chars) :
    c.Spells (String.ofList (c.skipLayout.chars.take (c.skipLayout.chars.length - rest.length)))
      (c.skipLayout.moveTo rest) := by
  obtain ⟨taken, ht⟩ := h
  unfold Spells
  rw [String.toList_ofList]
  simp [moveTo, ← ht]

omit [Externals] in
theorem Spells.unique {c d : Cursor} {raw raw' : String} (h : c.Spells raw d)
    (h' : c.Spells raw' d) : raw = raw' := by
  unfold Spells at h h'
  exact String.toList_inj.1 (List.append_cancel_right (h.symm.trans h'))

end Cursor

namespace Grammar

/-- A nonterminal: the trees it derives, each from the text between two places. -/
abbrev Phrase := Cursor → Expr → Cursor → Prop

/-- A name or a literal, written as one token. -/
inductive Word : Phrase where
  | name {c d : Cursor} {name : String} (h : c.Reads (.identifier name) d) :
    Word c (.identifier name) d
  | keyword {c d : Cursor} {word : String} (h : c.Reads (.keyword word) d)
    (hw : word = "if" ∨ word = "this") : Word c (.identifier word) d
  | number {c d : Cursor} {value : Float} {raw : String} (h : c.Reads (.number value false) d)
    (hr : c.Spells raw d) : Word c (.literal (.number value) raw) d
  | string {c d : Cursor} {value raw : String} (h : c.Reads (.string value false) d)
    (hr : c.Spells raw d) : Word c (.literal (.string value) raw) d
  | boolean {c d : Cursor} {value : Bool} {raw : String} (h : c.Reads (.boolean value) d)
    (hr : c.Spells raw d) : Word c (.literal (.boolean value) raw) d
  | null {c d : Cursor} {raw : String} (h : c.Reads .null d) (hr : c.Spells raw d) :
    Word c (.literal .null raw) d

/-- The key of a property. -/
inductive Key : Phrase where
  | name {c d : Cursor} {l : Lexeme} (h : c.Reads l d) (hl : l.isName = true) :
    Key c (.identifier l.text) d
  | number {c d : Cursor} {value : Float} {raw : String} (h : c.Reads (.number value false) d)
    (hr : c.Spells raw d) : Key c (.literal (.number value) raw) d
  | string {c d : Cursor} {value raw : String} (h : c.Reads (.string value false) d)
    (hr : c.Spells raw d) : Key c (.literal (.string value) raw) d

section Nested

variable (inner : Phrase)

/-- The slots of an array and its closing bracket: a comma without an element is a hole, and the
last element may be followed by a comma. -/
inductive Slots : Cursor → List (Option Expr) → Cursor → Prop where
  | close {c d : Cursor} (h : c.Reads (.punctuator "]") d) : Slots c [] d
  | hole {a b d : Cursor} {slots : List (Option Expr)} (h : a.Reads (.punctuator ",") b)
    (later : Slots b slots d) : Slots a (none :: slots) d
  | last {a b d : Cursor} {e : Expr} (element : inner a e b) (h : b.Reads (.punctuator "]") d) :
    Slots a [some e] d
  | more {a b c d : Cursor} {e : Expr} {slots : List (Option Expr)} (element : inner a e b)
    (h : b.Reads (.punctuator ",") c) (later : Slots c slots d) : Slots a (some e :: slots) d

/-- A key, a colon and a value. -/
inductive Entry : Cursor → Expr × Expr → Cursor → Prop where
  | mk {a b c d : Cursor} {key value : Expr} (hk : Key a key b) (h : b.Reads (.punctuator ":") c)
    (hv : inner c value d) : Entry a (key, value) d

/-- The entries of an object and its closing brace; the last one may be followed by a comma. -/
inductive Entries : Cursor → List (Expr × Expr) → Cursor → Prop where
  | close {c d : Cursor} (h : c.Reads (.punctuator "\x7d") d) : Entries c [] d
  | last {a b d : Cursor} {entry : Expr × Expr} (first : Entry inner a entry b)
    (h : b.Reads (.punctuator "\x7d") d) : Entries a [entry] d
  | more {a b c d : Cursor} {entry : Expr × Expr} {entries : List (Expr × Expr)}
    (first : Entry inner a entry b) (h : b.Reads (.punctuator ",") c)
    (later : Entries c entries d) : Entries a (entry :: entries) d

/-- One or more arguments and the closing parenthesis. -/
inductive ArgumentList : Cursor → List Expr → Cursor → Prop where
  | last {a b d : Cursor} {e : Expr} (first : inner a e b) (h : b.Reads (.punctuator ")") d) :
    ArgumentList a [e] d
  | more {a b c d : Cursor} {e : Expr} {es : List Expr} (first : inner a e b)
    (h : b.Reads (.punctuator ",") c) (later : ArgumentList c es d) : ArgumentList a (e :: es) d

/-- Arguments in parentheses. -/
inductive Arguments : Cursor → List Expr → Cursor → Prop where
  | none {a b d : Cursor} (h : a.Reads (.punctuator "(") b) (hd : b.Reads (.punctuator ")") d) :
    Arguments a [] d
  | some {a b d : Cursor} {es : List Expr} (h : a.Reads (.punctuator "(") b)
    (args : ArgumentList inner b es d) : Arguments a es d

/-- An object's properties, from its entries. -/
def properties (entries : List (Expr × Expr)) : List Expr :=
  entries.map fun entry => .property entry.1 entry.2

/-- An operand without what may follow it. -/
inductive Primary : Phrase where
  | word {c d : Cursor} {e : Expr} (h : Word c e d) : Primary c e d
  | regex {a b d : Cursor} {mark pattern flags raw : String} (h : a.Reads (.punctuator mark) b)
    (hm : mark = "/" ∨ mark = "/=") (hx : a.ReadsRegex pattern flags d) (hr : a.Spells raw d) :
    Primary a (.literal (.regex pattern flags) raw) d
  | group {a b c d : Cursor} {e : Expr} (ho : a.Reads (.punctuator "(") b) (he : inner b e c)
    (hc : c.Reads (.punctuator ")") d) : Primary a e d
  | array {a b d : Cursor} {slots : List (Option Expr)} (ho : a.Reads (.punctuator "[") b)
    (hs : Slots inner b slots d) : Primary a (.array slots) d
  | object {a b d : Cursor} {entries : List (Expr × Expr)} (ho : a.Reads (.punctuator "\x7b") b)
    (hs : Entries inner b entries d) (hk : (entries.map fun entry => entry.1.keyName).Nodup) :
    Primary a (.object (properties entries)) d

/-- An operand with the member accesses and the calls behind it. -/
inductive Chain : Phrase where
  | primary {c d : Cursor} {e : Expr} (h : Primary inner c e d) : Chain c e d
  | named {a b c d : Cursor} {e : Expr} {l : Lexeme} (he : Chain a e b)
    (hp : b.Reads (.punctuator ".") c) (h : c.Reads l d) (hl : l.isName = true) :
    Chain a (.member e (.identifier l.text) false) d
  | computed {a b c d f : Cursor} {e p : Expr} (he : Chain a e b) (ho : b.Reads (.punctuator "[") c)
    (hp : inner c p d) (hc : d.Reads (.punctuator "]") f) : Chain a (.member e p true) f
  | call {a b d : Cursor} {e : Expr} {args : List Expr} (he : Chain a e b)
    (ha : Arguments inner b args d) : Chain a (.call e args) d

/-- An operand that no increment or decrement follows. -/
inductive Postfix : Phrase where
  | mk {c d : Cursor} {e : Expr} (h : Chain inner c e d)
    (hi : ∀ f, ¬ d.Reads (.punctuator "++") f) (hd : ∀ f, ¬ d.Reads (.punctuator "--") f) :
    Postfix c e d

/-- An operand with the operators in front of it. -/
inductive Unary : Phrase where
  | operand {c d : Cursor} {e : Expr} (h : Postfix inner c e d) : Unary c e d
  | operator {a b d : Cursor} {op : UnaryOperator} {e : Expr}
    (h : a.Reads (.punctuator op.symbol) b) (he : Unary b e d) : Unary a (.unary op e) d

/-- The token at `c` is the operator `op` between two operands; two of these are words. -/
def Operator (op : Connective) (c d : Cursor) : Prop :=
  c.Reads (.punctuator op.symbol) d ∨ c.Reads (.keyword op.symbol) d

/-- Operands with operators between them that bind at least as tightly as `level`.  The left
operand of an operator is of its own level, and the right operand of the next one. -/
inductive Binary : Nat → Phrase where
  /-- No operator is of level 12. -/
  | unary {c d : Cursor} {e : Expr} (h : Unary inner c e d) : Binary 12 c e d
  | tighter {level : Nat} {c d : Cursor} {e : Expr} (h : Binary (level + 1) c e d) :
    Binary level c e d
  | operation {a b c d : Cursor} {op : Connective} {l r : Expr}
    (hl : Binary op.precedence a l b) (h : Operator op b c)
    (hr : Binary (op.precedence + 1) c r d) : Binary op.precedence a (op.apply l r) d

/-- An operation, or a choice between two conditional expressions. -/
inductive ConditionalOver : Phrase where
  | operation {c d : Cursor} {e : Expr} (h : Binary inner 1 c e d) : ConditionalOver c e d
  | choice {a b c d f g : Cursor} {test consequent alternate : Expr} (ht : Binary inner 1 a test b)
    (hq : b.Reads (.punctuator "?") c) (hc : inner c consequent d)
    (hn : d.Reads (.punctuator ":") f) (ha : inner f alternate g) :
    ConditionalOver a (.conditional test consequent alternate) g

end Nested

/-- A conditional expression in which at most `levels` conditional expressions are open at once, it
being one of them. -/
def Conditional : Nat → Phrase
  | 0 => fun _ _ _ => False
  | levels + 1 => ConditionalOver (Conditional levels)

/-- **The whole text derives the tree**, with at most `levels` conditional expressions open at
once. -/
def Derives (levels : Nat) (source : String) (e : Expr) : Prop :=
  ∃ d f, Conditional levels (Cursor.start source.toList) e d ∧ d.Reads .endOfInput f

theorem Key.height_eq {c d : Cursor} {key : Expr} (h : Key c key d) : key.height = 1 := by
  cases h <;> simp

/-- A property is one higher than its value, since a key has no children. -/
theorem Key.height_property {c d : Cursor} {key : Expr} (h : Key c key d) (value : Expr) :
    (Expr.property key value).height = value.height + 1 := by
  have := value.height_pos
  rw [Expr.height_property, h.height_eq]
  omega

end Grammar

end ChartScript
