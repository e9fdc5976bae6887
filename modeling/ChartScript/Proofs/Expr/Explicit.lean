import ChartScript.Proofs.Expr.Height
import ChartScript.Proofs.Expr.Nodes
import ChartScript.Sandbox.Compile

/-!
# Proofs/Expr/Explicit — trees without empty patterns

Code cannot say a regular expression with an empty pattern, because two slashes begin a comment, and
says one with an empty group instead.  `Expr.explicit` makes the same change in a tree.
-/

namespace ChartScript

/-- A literal with an empty group for an empty pattern. -/
def Literal.explicit : Literal → Literal
  | .regex pattern flags => .regex (if pattern.isEmpty then "(?:)" else pattern) flags
  | value => value

namespace Expr

mutual

/-- **A tree with an empty group for each empty pattern**, in the value and in the text of the
literal. -/
def explicit : Expr → Expr
  | .literal value raw => .literal value.explicit (value.code raw)
  | .identifier name => .identifier name
  | .array slots => .array (explicitSlots slots)
  | .object properties => .object (explicitAll properties)
  | .property key value => .property key.explicit value.explicit
  | .call callee arguments => .call callee.explicit (explicitAll arguments)
  | .member receiver name computed => .member receiver.explicit name.explicit computed
  | .binary operator left right => .binary operator left.explicit right.explicit
  | .logical operator left right => .logical operator left.explicit right.explicit
  | .unary operator argument => .unary operator argument.explicit
  | .conditional test consequent alternate =>
    .conditional test.explicit consequent.explicit alternate.explicit
  | .rawCode code => .rawCode code

/-- Some trees with an empty group for each empty pattern. -/
def explicitAll : List Expr → List Expr
  | [] => []
  | e :: es => e.explicit :: explicitAll es

/-- Some slots with an empty group for each empty pattern in their trees. -/
def explicitSlots : List (Option Expr) → List (Option Expr)
  | [] => []
  | none :: slots => none :: explicitSlots slots
  | some e :: slots => some e.explicit :: explicitSlots slots

end

theorem explicitAll_eq_map (es : List Expr) : explicitAll es = es.map explicit := by
  induction es with
  | nil => rfl
  | cons e es ih => rw [explicitAll, ih, List.map_cons]

theorem explicitSlots_eq_map (slots : List (Option Expr)) :
    explicitSlots slots = slots.map (Option.map explicit) := by
  induction slots with
  | nil => rfl
  | cons slot slots ih => cases slot <;> rw [explicitSlots, ih, List.map_cons] <;> rfl

/-- The children of a tree with empty groups are the children with empty groups. -/
theorem children_explicit (e : Expr) : e.explicit.children = e.children.map explicit := by
  cases e with
  | array slots =>
    rw [explicit, children, children, explicitSlots_eq_map, List.filterMap_map, List.map_filterMap]
    rfl
  | object properties => rw [explicit, children, children, explicitAll_eq_map]
  | call callee arguments => rw [explicit, children, children, explicitAll_eq_map, List.map_cons]
  | _ => rfl

/-- An empty group is no higher than an empty pattern. -/
theorem height_explicit (e : Expr) : e.explicit.height = e.height := by
  induction e using induction_children with
  | step e ih =>
    have hchildren : (e.children.map explicit).map height = e.children.map height := by
      rw [List.map_map]
      exact List.map_congr_left ih
    rw [height_eq, height_eq, children_explicit, hchildren]

end Expr

end ChartScript
