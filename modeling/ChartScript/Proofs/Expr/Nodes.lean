import ChartScript.Expr.Traversal

/-!
# Proofs/Expr/Nodes — the nodes of a tree

A node of a tree is the tree itself or a node of a child, and what holds of a tree whenever it holds
of its children holds of every tree.  The lists in which a node keeps its children then need no
induction of their own.
-/

namespace ChartScript

namespace Expr

/-- **Induction on the children** of a tree. -/
theorem induction_children {motive : Expr → Prop}
    (step : ∀ e : Expr, (∀ child ∈ e.children, motive child) → motive e) (e : Expr) :
    motive e := by
  induction hn : e.size using Nat.strongRecOn generalizing e with
  | ind n ih =>
    subst hn
    refine step e fun child hc => ih child.size ?_ child rfl
    have hle : child.size ≤ total (e.children.map size) := by
      obtain ⟨before, later, hsplit⟩ := List.append_of_mem hc
      rw [hsplit, List.map_append, total_append, List.map_cons, total_cons]
      omega
    rw [size_eq e]
    omega

/-- The nodes of a tree are the tree and the nodes of its children. -/
theorem mem_preorder_iff {e node : Expr} :
    node ∈ e.preorder ↔ node = e ∨ ∃ child ∈ e.children, node ∈ child.preorder := by
  rw [preorder_eq, List.mem_cons, List.mem_flatten]
  constructor
  · rintro (h | ⟨_, hl, h⟩)
    · exact .inl h
    · obtain ⟨child, hc, rfl⟩ := List.mem_map.1 hl
      exact .inr ⟨child, hc, h⟩
  · rintro (h | ⟨child, hc, h⟩)
    · exact .inl h
    · exact .inr ⟨_, List.mem_map_of_mem hc, h⟩

/-- A tree is one of its nodes. -/
theorem mem_preorder_self (e : Expr) : e ∈ e.preorder := mem_preorder_iff.2 (.inl rfl)

/-- The names in a tree: the identifiers among its nodes, member names and keys included. -/
def Mentions (e : Expr) (name : String) : Prop := .identifier name ∈ e.preorder

theorem mentions_identifier {id name : String} :
    (identifier id).Mentions name ↔ name = id := by
  unfold Mentions
  rw [mem_preorder_iff]
  simp [children]

end Expr

end ChartScript
