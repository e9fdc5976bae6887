import ChartScript.Proofs.Expr.Height
import ChartScript.Proofs.Expr.Nodes
import Mathlib.Data.List.Chain

/-!
# Proofs/Expr/Traversal — a walk with pending nodes is the recursive one

`Expr.visit` keeps the nodes that it has yet to come to, the next one last.  The invariant of its
loop is that the listings of the pending nodes, from the last on, are what is left of the listing of
the tree; so a predicate is asked about the nodes of `Expr.preorder`, one after the other, up to the
first at which it holds (`Expr.visit_preorder`).  The height of a tree is the length of the longest
way down.
-/

namespace ChartScript.Expr

variable {σ : Type} {holds : Expr → σ → Bool × σ} {e : Expr} {es later : List Expr} {s t u : σ}

/-! ## Asking about the nodes of a list -/

/-- Asks about some nodes one after the other, up to the first at which the predicate holds. -/
def ask (holds : Expr → σ → Bool × σ) : List Expr → σ → Bool × σ
  | [], s => (false, s)
  | e :: es, s =>
    match holds e s with
    | (true, t) => (true, t)
    | (false, t) => ask holds es t

/-- **The predicate holds at none of some nodes**, and takes a state from the first to the last. -/
inductive Declines (holds : Expr → σ → Bool × σ) : List Expr → σ → σ → Prop
  | nil (s : σ) : Declines holds [] s s
  | cons {e : Expr} {es : List Expr} {s t u : σ} :
      holds e s = (false, t) → Declines holds es t u → Declines holds (e :: es) s u

/-- The predicate, with the nodes that it has been asked about so far. -/
def recording (holds : Expr → σ → Bool × σ) (e : Expr) (s : σ × List Expr) :
    Bool × σ × List Expr :=
  ((holds e s.1).1, (holds e s.1).2, s.2 ++ [e])

theorem ask_cons_of_true (h : holds e s = (true, t)) : ask holds (e :: es) s = (true, t) := by
  rw [ask, h]

theorem ask_cons_of_false (h : holds e s = (false, t)) :
    ask holds (e :: es) s = ask holds es t := by
  rw [ask, h]

theorem recording_eq {found : Bool} {asked : List Expr} (h : holds e s = (found, t)) :
    recording holds e (s, asked) = (found, t, asked ++ [e]) := by
  rw [recording, h]

/-- **What is asked** is all of the list, and nothing holds; or it is a front of the list, and the
predicate holds at the last node of it only. -/
theorem ask_cases (holds : Expr → σ → Bool × σ) (es asked : List Expr) (s : σ) :
    (∃ t, Declines holds es s t ∧ ask holds es s = (false, t) ∧
      ask (recording holds) es (s, asked) = (false, t, asked ++ es)) ∨
    ∃ front node later t u, es = front ++ node :: later ∧ Declines holds front s t ∧
      holds node t = (true, u) ∧ ask holds es s = (true, u) ∧
      ask (recording holds) es (s, asked) = (true, u, asked ++ (front ++ [node])) := by
  induction es generalizing asked s with
  | nil => exact .inl ⟨s, .nil s, rfl, by rw [ask, List.append_nil]⟩
  | cons e es ih =>
    match h : holds e s with
    | (true, t) =>
      refine .inr ⟨[], e, es, s, t, rfl, .nil s, h, ask_cons_of_true h, ?_⟩
      exact ask_cons_of_true (recording_eq h)
    | (false, t) =>
      rw [ask_cons_of_false h, ask_cons_of_false (recording_eq h)]
      rcases ih (asked ++ [e]) t with ⟨u, hnone, hask, hrecord⟩ |
        ⟨front, node, later, u, v, rfl, hnone, hnode, hask, hrecord⟩
      · exact .inl ⟨u, .cons h hnone, hask, by simpa using hrecord⟩
      · exact .inr ⟨e :: front, node, later, u, v, rfl, .cons h hnone, hnode, hask,
          by simpa using hrecord⟩

/-! ## The pending nodes -/

/-- What is left to visit: the listings of the pending nodes, from the last on. -/
def listing (pending : Array Expr) : List Expr := pending.toList.reverse.flatMap preorder

theorem preorder_eq_flatMap (e : Expr) : e.preorder = e :: e.children.flatMap preorder := by
  rw [preorder_eq, List.flatMap_def]

/-- **One step of the walk**: behind the last pending node come the nodes below it. -/
theorem listing_of_back {pending : Array Expr} (h : pending.back? = some e) :
    listing pending = e :: listing (pending.pop ++ e.children.reverse) := by
  obtain ⟨earlier, rfl⟩ := Array.back?_eq_some_iff.1 h
  simp [listing, preorder_eq_flatMap e]

/-- **The invariant of the walk**: it asks about what is left to visit. -/
theorem visitPending_eq (holds : Expr → σ → Bool × σ) (pending : Array Expr) (s : σ) :
    visitPending holds pending s = ask holds (listing pending) s := by
  fun_induction visitPending holds pending s with
  | case1 pending s hback => rw [Array.back?_eq_none_iff.1 hback]; rfl
  | case2 pending s e hback t h => rw [listing_of_back hback, ask_cons_of_true h]
  | case3 pending s e hback t h ih => rw [listing_of_back hback, ask_cons_of_false h, ih]

theorem visit_eq (holds : Expr → σ → Bool × σ) (e : Expr) (s : σ) :
    e.visit holds s = ask holds e.preorder s := by
  rw [visit, visitPending_eq]
  simp [listing]

/-! ## Ways down -/

/-- **A way down**: each node is a child of the one before. -/
def IsDescent : List Expr → Prop := List.IsChain fun e child => child ∈ e.children

/-- A node of a tree is lower than the tree that it is a child of. -/
theorem height_lt_of_mem_children {child : Expr} (h : child ∈ e.children) :
    child.height < e.height := by
  rw [height_eq_tallest e, Nat.lt_succ_iff]
  exact height_le_tallest h

/-- Of some trees, one is the tallest. -/
theorem exists_height_eq_tallest (h : es ≠ []) : ∃ e ∈ es, e.height = tallest es := by
  induction es with
  | nil => exact absurd rfl h
  | cons a es ih =>
    rw [tallest_cons]
    rcases Nat.le_total (tallest es) a.height with hle | hle
    · exact ⟨a, List.mem_cons_self, (Nat.max_eq_left hle).symm⟩
    · have hne : es ≠ [] := by
        rintro rfl
        exact absurd (height_pos a) (Nat.not_lt.2 hle)
      obtain ⟨e, he, heq⟩ := ih hne
      exact ⟨e, List.mem_cons_of_mem a he, heq.trans (Nat.max_eq_right hle).symm⟩

theorem exists_child_height (h : e.children ≠ []) :
    ∃ child ∈ e.children, e.height = child.height + 1 := by
  obtain ⟨child, hc, heq⟩ := exists_height_eq_tallest h
  exact ⟨child, hc, by rw [height_eq_tallest, heq]⟩

theorem IsDescent.length_le_height (h : IsDescent (e :: later)) :
    (e :: later).length ≤ e.height := by
  induction later generalizing e with
  | nil => exact height_pos e
  | cons child later ih =>
    obtain ⟨hc, htail⟩ := List.isChain_cons_cons.1 h
    exact Nat.lt_of_le_of_lt (ih htail) (height_lt_of_mem_children hc)

theorem exists_isDescent (e : Expr) :
    ∃ later, IsDescent (e :: later) ∧ (e :: later).length = e.height := by
  induction e using induction_children with
  | step e ih =>
    by_cases hleaf : e.children = []
    · exact ⟨[], List.isChain_singleton e, by rw [height_eq_tallest, hleaf]; rfl⟩
    · obtain ⟨child, hc, heq⟩ := exists_child_height hleaf
      obtain ⟨later, hdescent, hlength⟩ := ih child hc
      exact ⟨child :: later, List.isChain_cons_cons.2 ⟨hc, hdescent⟩, by
        rw [List.length_cons, hlength, heq]⟩

/-! ## The walk and the height -/

/-- **A walk asks about the nodes of the recursive listing in turn**: a node, and then its children
as they are written, holes left out.  Either the predicate holds at no node, and it is asked about
each of them once; or the walk ends at the first node at which it holds, and the predicate is asked
about that node and all before it.  The state of the predicate goes from each node to the next.  And
**the height of a tree is the length of the longest way down from it**, one more than that of its
highest child. -/
theorem visit_preorder (holds : Expr → σ → Bool × σ) (e : Expr) (s : σ) :
    e.preorder = e :: e.children.flatMap preorder ∧
    ((∃ t, Declines holds e.preorder s t ∧ e.visit holds s = (false, t) ∧
        e.visit (recording holds) (s, []) = (false, t, e.preorder)) ∨
      ∃ front node later t u, e.preorder = front ++ node :: later ∧ Declines holds front s t ∧
        holds node t = (true, u) ∧ e.visit holds s = (true, u) ∧
        e.visit (recording holds) (s, []) = (true, u, front ++ [node])) ∧
    (∃ later, IsDescent (e :: later) ∧ (e :: later).length = e.height) ∧
    (∀ later, IsDescent (e :: later) → (e :: later).length ≤ e.height) ∧
    (∀ child ∈ e.children, child.height < e.height) ∧
    (e.children ≠ [] → ∃ child ∈ e.children, e.height = child.height + 1) := by
  refine ⟨preorder_eq_flatMap e, ?_, exists_isDescent e, fun _ => IsDescent.length_le_height,
    fun _ => height_lt_of_mem_children, exists_child_height⟩
  simp only [visit_eq]
  exact ask_cases holds e.preorder [] s

end ChartScript.Expr
