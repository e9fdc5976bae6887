import ChartScript.Expr.Parser.Operand
import ChartScript.Proofs.Expr.Nodes
import ChartScript.Proofs.Token.LocalLexeme

/-!
# Proofs/Expr/WellFormed — trees that a text can say

No type keeps a property out of an operand, or the name of a member from being a call.  A tree is
`Expr.WellFormed` when properties are where they belong, names are names, literals say what they are
written as, and no code stands in it that was not read.
-/

namespace ChartScript

open Text

variable [Externals]

/-- **A literal's text is one token by itself, and it says the value**; an octal form never does. -/
def Literal.Spelled (raw : String) : Literal → Prop
  | .number value => Scan.lexeme raw.toList = .ok (.number value false, [])
  | .string value => Scan.lexeme raw.toList = .ok (.string value false, [])
  | .boolean value => Scan.lexeme raw.toList = .ok (.boolean value, [])
  | .null => Scan.lexeme raw.toList = .ok (.null, [])
  | .regex pattern flags => Scan.regexLiteral raw.toList = .ok ((pattern, flags), [])

/-- A name that may stand by itself: no reserved word but two, and no literal. -/
def IsReference (name : String) : Prop :=
  IsName name ∧ (isReservedWord name = false ∧ name ≠ "null" ∧ name ≠ "true" ∧ name ≠ "false" ∨
    name = "if" ∨ name = "this")

/-- Names of characters among the first 128 that may stand by themselves. -/
def isPlainReference (name : String) : Bool :=
  isPlainName name && (decide (isReservedWord name = false ∧ name ≠ "null" ∧ name ≠ "true" ∧
    name ≠ "false" ∨ name = "if" ∨ name = "this"))

theorem isReference_of_plain {name : String} (h : isPlainReference name = true) :
    IsReference name := by
  rw [isPlainReference, Bool.and_eq_true, decide_eq_true_eq] at h
  exact ⟨isName_of_plain h.1, h.2⟩

namespace Expr

/-- The key of a property: a name, or a string or a number as it is written. -/
inductive IsKey : Expr → Prop where
  | name {name : String} (h : IsName name) : IsKey (.identifier name)
  | string {value raw : String} (h : (Literal.string value).Spelled raw) :
    IsKey (.literal (.string value) raw)
  | number {value : Float} {raw : String} (h : (Literal.number value).Spelled raw) :
    IsKey (.literal (.number value) raw)

/-- **The well-formed trees.** -/
inductive WellFormed : Expr → Prop where
  | literal {value : Literal} {raw : String} (h : value.Spelled raw) :
    WellFormed (.literal value raw)
  | identifier {name : String} (h : IsReference name) : WellFormed (.identifier name)
  | array {slots : List (Option Expr)} (h : ∀ e, some e ∈ slots → WellFormed e) :
    WellFormed (.array slots)
  /-- The elements of an object are properties, the names of their keys differ, and properties are
  nowhere else. -/
  | object {entries : List (Expr × Expr)} (hk : ∀ entry ∈ entries, IsKey entry.1)
    (hv : ∀ entry ∈ entries, WellFormed entry.2)
    (hn : (entries.map fun entry => entry.1.keyName).Nodup) :
    WellFormed (.object (entries.map fun entry => .property entry.1 entry.2))
  | call {callee : Expr} {arguments : List Expr} (hc : WellFormed callee)
    (ha : ∀ e ∈ arguments, WellFormed e) : WellFormed (.call callee arguments)
  /-- The name of a member is a name, and any name will do. -/
  | named {receiver : Expr} {name : String} (hr : WellFormed receiver) (hn : IsName name) :
    WellFormed (.member receiver (.identifier name) false)
  | computed {receiver name : Expr} (hr : WellFormed receiver) (hn : WellFormed name) :
    WellFormed (.member receiver name true)
  | binary {operator : BinaryOperator} {left right : Expr} (hl : WellFormed left)
    (hr : WellFormed right) : WellFormed (.binary operator left right)
  | logical {operator : LogicalOperator} {left right : Expr} (hl : WellFormed left)
    (hr : WellFormed right) : WellFormed (.logical operator left right)
  | unary {operator : UnaryOperator} {argument : Expr} (ha : WellFormed argument) :
    WellFormed (.unary operator argument)
  | conditional {test consequent alternate : Expr} (ht : WellFormed test)
    (hc : WellFormed consequent) (ha : WellFormed alternate) :
    WellFormed (.conditional test consequent alternate)

/-- The nodes of well-formed trees: well-formed trees, and the properties of objects with their
keys. -/
inductive IsPart : Expr → Prop where
  | tree {e : Expr} (h : WellFormed e) : IsPart e
  | key {e : Expr} (h : IsKey e) : IsPart e
  | property {key value : Expr} (hk : IsKey key) (hv : WellFormed value) :
    IsPart (.property key value)

variable {e child node : Expr}

theorem WellFormed.isPart_of_mem_children (h : e.WellFormed) (hc : child ∈ e.children) :
    child.IsPart := by
  cases h with
  | literal _ | identifier _ => cases hc
  | array h =>
    obtain ⟨slot, hslot, rfl⟩ := List.mem_filterMap.1 hc
    exact .tree (h child hslot)
  | object hk hv _ =>
    obtain ⟨entry, hentry, rfl⟩ := List.mem_map.1 hc
    exact .property (hk entry hentry) (hv entry hentry)
  | call hf ha =>
    rcases List.mem_cons.1 hc with rfl | hc
    · exact .tree hf
    · exact .tree (ha child hc)
  | named hr hn =>
    rcases List.mem_cons.1 hc with rfl | hc
    · exact .tree hr
    · obtain rfl := List.mem_singleton.1 hc
      exact .key (.name hn)
  | computed hl hr | binary hl hr | logical hl hr =>
    rcases List.mem_cons.1 hc with rfl | hc
    · exact .tree hl
    · obtain rfl := List.mem_singleton.1 hc
      exact .tree hr
  | unary ha =>
    obtain rfl := List.mem_singleton.1 hc
    exact .tree ha
  | conditional ht hc' ha =>
    rcases List.mem_cons.1 hc with rfl | hc
    · exact .tree ht
    · rcases List.mem_cons.1 hc with rfl | hc
      · exact .tree hc'
      · obtain rfl := List.mem_singleton.1 hc
        exact .tree ha

theorem IsPart.of_mem_children (h : e.IsPart) (hc : child ∈ e.children) : child.IsPart := by
  cases h with
  | tree h => exact h.isPart_of_mem_children hc
  | key h => cases h <;> cases hc
  | property hk hv =>
    rcases List.mem_cons.1 hc with rfl | hc
    · exact .key hk
    · obtain rfl := List.mem_singleton.1 hc
      exact .tree hv

theorem IsPart.of_mem_preorder (h : e.IsPart) (hn : node ∈ e.preorder) : node.IsPart := by
  induction e using induction_children with
  | step e ih =>
    rcases mem_preorder_iff.1 hn with rfl | ⟨child, hc, hn⟩
    · exact h
    · exact ih child hc (h.of_mem_children hc) hn

/-- **Every name in a well-formed tree is a name.** -/
theorem WellFormed.isName (h : e.WellFormed) {name : String} (hm : e.Mentions name) :
    IsName name := by
  cases (IsPart.tree h).of_mem_preorder hm with
  | tree h => cases h with | identifier h => exact h.1
  | key h => cases h with | name h => exact h

/-- **Every literal in a well-formed tree says what it is written as**, keys included. -/
theorem WellFormed.spelled (h : e.WellFormed) {value : Literal} {raw : String}
    (hm : .literal value raw ∈ e.preorder) : value.Spelled raw := by
  cases (IsPart.tree h).of_mem_preorder hm with
  | tree h => cases h with | literal h => exact h
  | key h =>
    cases h with
    | string h => exact h
    | number h => exact h

end Expr

end ChartScript
