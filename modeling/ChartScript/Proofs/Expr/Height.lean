import ChartScript.Expr.Parser.Operation
import ChartScript.Proofs.Expr.Nodes

/-!
# Proofs/Expr/Height — the height of each kind of node

`Expr.height` is a fold.  Here it is read off node by node: a node is one higher than the `tallest`
of its children, and a tree without children has height one.
-/

namespace ChartScript

namespace Expr

/-- The greatest height among some trees. -/
def tallest (es : List Expr) : Nat := (es.map height).foldl max 0

/-- A maximum that begins with another number is at least that. -/
theorem foldl_max_eq (a : Nat) (ns : List Nat) : ns.foldl max a = max a (ns.foldl max 0) := by
  induction ns generalizing a with
  | nil => simp
  | cons n ns ih => rw [List.foldl_cons, List.foldl_cons, ih, ih (max 0 n)]; omega

@[simp] theorem tallest_nil : tallest [] = 0 := rfl

@[simp] theorem tallest_cons (e : Expr) (es : List Expr) :
    tallest (e :: es) = max e.height (tallest es) := by
  rw [tallest, List.map_cons, List.foldl_cons, foldl_max_eq, Nat.zero_max, tallest]

/-- A tree is no higher than the tallest of those it is among. -/
theorem height_le_tallest {e : Expr} {es : List Expr} (h : e ∈ es) : e.height ≤ tallest es := by
  induction es with
  | nil => cases h
  | cons a es ih =>
    rw [tallest_cons]
    rcases List.mem_cons.1 h with rfl | h
    · exact Nat.le_max_left _ _
    · exact Nat.le_trans (ih h) (Nat.le_max_right _ _)

/-- **A node is one higher than the tallest of its children.** -/
theorem height_eq_tallest (e : Expr) : e.height = tallest e.children + 1 := by
  rw [height_eq, tallest, Nat.add_comm]

/-- No tree has height 0. -/
theorem height_pos (e : Expr) : 0 < e.height := by rw [height_eq_tallest]; exact Nat.succ_pos _

/-- No node of a tree is higher than the tree. -/
theorem height_le_of_mem_preorder {e node : Expr} (h : node ∈ e.preorder) :
    node.height ≤ e.height := by
  induction e using induction_children with
  | step e ih =>
    rcases mem_preorder_iff.1 h with rfl | ⟨child, hc, hn⟩
    · exact Nat.le_refl _
    · rw [e.height_eq_tallest]
      exact Nat.le_succ_of_le (Nat.le_trans (ih child hc hn) (height_le_tallest hc))

@[simp] theorem height_literal (value : Literal) (raw : String) :
    (literal value raw).height = 1 := height_eq_tallest _

@[simp] theorem height_identifier (name : String) : (identifier name).height = 1 :=
  height_eq_tallest _

@[simp] theorem height_array (slots : List (Option Expr)) :
    (array slots).height = tallest (slots.filterMap id) + 1 := height_eq_tallest _

/-- Holes count for nothing. -/
theorem tallest_slots_some (e : Expr) (slots : List (Option Expr)) :
    tallest ((some e :: slots).filterMap id) = max e.height (tallest (slots.filterMap id)) :=
  tallest_cons e _

@[simp] theorem height_object (properties : List Expr) :
    (object properties).height = tallest properties + 1 := height_eq_tallest _

@[simp] theorem height_property (key value : Expr) :
    (property key value).height = max key.height value.height + 1 := by
  rw [height_eq_tallest]; simp [children]

@[simp] theorem height_call (callee : Expr) (arguments : List Expr) :
    (call callee arguments).height = max callee.height (tallest arguments) + 1 := by
  rw [height_eq_tallest]; simp [children]

@[simp] theorem height_member (receiver name : Expr) (computed : Bool) :
    (member receiver name computed).height = max receiver.height name.height + 1 := by
  rw [height_eq_tallest]; simp [children]

@[simp] theorem height_binary (operator : BinaryOperator) (left right : Expr) :
    (binary operator left right).height = max left.height right.height + 1 := by
  rw [height_eq_tallest]; simp [children]

@[simp] theorem height_logical (operator : LogicalOperator) (left right : Expr) :
    (logical operator left right).height = max left.height right.height + 1 := by
  rw [height_eq_tallest]; simp [children]

@[simp] theorem height_unary (operator : UnaryOperator) (argument : Expr) :
    (unary operator argument).height = argument.height + 1 := by
  rw [height_eq_tallest]; simp [children]

@[simp] theorem height_conditional (test consequent alternate : Expr) :
    (conditional test consequent alternate).height
      = max (max test.height consequent.height) alternate.height + 1 := by
  rw [height_eq_tallest]; simp [children, Nat.max_assoc]

end Expr

@[simp] theorem Connective.height_apply (connective : Connective) (left right : Expr) :
    (connective.apply left right).height = max left.height right.height + 1 := by
  cases connective <;> simp [apply]

end ChartScript
