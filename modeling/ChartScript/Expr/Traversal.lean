import ChartScript.Expr.Basic

/-!
# Expr/Traversal — folding a tree and walking it

`Expr.fold` computes a value for each node from those of its children, and `height`, `size` and
`preorder` are folds.  `Expr.visit` walks a tree with a list of pending nodes and stops where a
predicate holds; the predicate may carry a state from node to node.
-/

namespace ChartScript.Expr

variable {α σ : Type}

mutual

/-- The value of a tree under `f`, which is given each node with the values of its children. -/
def fold (f : Expr → List α → α) : Expr → α
  | literal value raw => f (literal value raw) []
  | identifier name => f (identifier name) []
  | array slots => f (array slots) (foldSlots f slots)
  | object properties => f (object properties) (foldAll f properties)
  | property key value => f (property key value) [fold f key, fold f value]
  | call callee arguments => f (call callee arguments) (fold f callee :: foldAll f arguments)
  | member receiver name computed =>
    f (member receiver name computed) [fold f receiver, fold f name]
  | binary operator left right => f (binary operator left right) [fold f left, fold f right]
  | logical operator left right => f (logical operator left right) [fold f left, fold f right]
  | unary operator argument => f (unary operator argument) [fold f argument]
  | conditional test consequent alternate =>
    f (conditional test consequent alternate) [fold f test, fold f consequent, fold f alternate]
  | rawCode code => f (rawCode code) []

/-- The values of some trees. -/
def foldAll (f : Expr → List α → α) : List Expr → List α
  | [] => []
  | e :: es => fold f e :: foldAll f es

/-- The values of the trees in some slots. -/
def foldSlots (f : Expr → List α → α) : List (Option Expr) → List α
  | [] => []
  | none :: slots => foldSlots f slots
  | some e :: slots => fold f e :: foldSlots f slots

end

theorem foldAll_eq_map (f : Expr → List α → α) (es : List Expr) :
    foldAll f es = es.map (fold f) := by
  induction es with
  | nil => rfl
  | cons e es ih => simp [foldAll, ih]

theorem foldSlots_eq_map (f : Expr → List α → α) (slots : List (Option Expr)) :
    foldSlots f slots = (slots.filterMap id).map (fold f) := by
  induction slots with
  | nil => rfl
  | cons slot slots ih =>
    cases slot with
    | none => simp [foldSlots, ih]
    | some e => simp [foldSlots, ih]

/-- **A fold in one step**: the value of a node is computed from the values of its children. -/
theorem fold_eq (f : Expr → List α → α) (e : Expr) : fold f e = f e (e.children.map (fold f)) := by
  cases e <;> simp [fold, children, foldAll_eq_map, foldSlots_eq_map]

/-- The number of nodes on the longest way from a node to a leaf. -/
def height : Expr → Nat := fold fun _ heights => 1 + heights.foldl max 0

/-- The sum of some numbers. -/
def total (ns : List Nat) : Nat := ns.foldr (· + ·) 0

theorem total_cons (n : Nat) (ns : List Nat) : total (n :: ns) = n + total ns := rfl

theorem total_append (ns ms : List Nat) : total (ns ++ ms) = total ns + total ms := by
  induction ns with
  | nil => exact (Nat.zero_add _).symm
  | cons n ns ih => rw [List.cons_append, total_cons, total_cons, ih, Nat.add_assoc]

theorem total_reverse (ns : List Nat) : total ns.reverse = total ns := by
  induction ns with
  | nil => rfl
  | cons n ns ih =>
    rw [List.reverse_cons, total_append, ih, total_cons, total_cons, Nat.add_comm]
    rfl

/-- The number of nodes of a tree. -/
def size : Expr → Nat := fold fun _ sizes => 1 + total sizes

/-- The nodes of a tree, each before its children and these in the order they are written. -/
def preorder : Expr → List Expr := fold fun e lists => e :: lists.flatten

theorem height_eq (e : Expr) : e.height = 1 + (e.children.map height).foldl max 0 :=
  fold_eq _ e

theorem size_eq (e : Expr) : e.size = 1 + total (e.children.map size) :=
  fold_eq _ e

theorem preorder_eq (e : Expr) : e.preorder = e :: (e.children.map preorder).flatten :=
  fold_eq _ e

/-- Walks the pending nodes, from the last on.  The children of the node at hand are put behind the
others, the first of them last, so that it comes next.  The walk ends at the first node at which the
predicate holds; the answer is whether there is one, and the last state. -/
def visitPending (holds : Expr → σ → Bool × σ) (pending : Array Expr) (state : σ) : Bool × σ :=
  match _h : pending.back? with
  | none => (false, state)
  | some e =>
    match holds e state with
    | (true, state) => (true, state)
    | (false, state) => visitPending holds (pending.pop ++ e.children.reverse) state
  termination_by total (pending.toList.map size)
  decreasing_by
    obtain ⟨earlier, rfl⟩ := Array.back?_eq_some_iff.1 _h
    simp only [Array.pop_push, Array.toList_appendList, Array.toList_push, List.map_append,
      List.map_reverse, List.map_cons, List.map_nil, total_append, total_reverse, total_cons,
      size_eq e]
    omega

/-- **Walks a tree** from the root on, each node before its children, up to the first node at which
the predicate holds. -/
def visit (holds : Expr → σ → Bool × σ) (e : Expr) (state : σ) : Bool × σ :=
  visitPending holds #[e] state

end ChartScript.Expr
