import ChartScript.Proofs.Soundness.Operation

/-!
# Proofs/Soundness/Height — the heights that the parser keeps

The parser knows the height of a node without looking at the tree: it adds one to the greatest of
the heights below, part by part.  `TracksHeights` says that it is right about every node: what a
part of the parser answers is known with its height, and what a loop makes of such nodes is too.
-/

namespace ChartScript

namespace Parser

open Grammar

variable {limits : Limits} {inner : Nonterminal} {G : Phrase}

variable [Externals]

/-- The parts of the parser that answer a node, where `inner` reads nested expressions. -/
def nodeParts (limits : Limits) (inner : Nonterminal) : List Nonterminal :=
  [inner, expression inner, group inner, word, regex, array limits inner, object limits inner,
   primary limits inner, operand limits inner, unary limits inner, operation limits inner,
   conditionalOver limits inner]

/-- **Every node is known with the height of its tree**, which is within the limits. -/
structure TracksHeights (limits : Limits) (inner : Nonterminal) : Prop where
  /-- A part of the parser answers such a node. -/
  part {part : Nonterminal} (hp : part ∈ nodeParts limits inner) {s t : State} {c : Cursor}
    {node : Node} (hs : s.At c) (h : Yields (part s) node t) : node.Exact limits
  property {s t : State} {c : Cursor} {r : Expr × Node} (hs : s.At c)
    (h : Yields (property limits inner s) r t) : r.2.Exact limits
  /-- Member accesses and calls behind a node. -/
  accesses {s t : State} {c : Cursor} {node r : Node} (hx : node.Exact limits) (hs : s.At c)
    (h : Yields (accesses limits inner node s) r t) : r.Exact limits
  /-- Operators in front of a node. -/
  operators {ops : List UnaryOperator} {s : State} {node r : Node} (hx : node.Exact limits)
    (h : ops.foldrM (fun op node => limits.node s (.unary op node.expr) node.height) node = .ok r) :
    r.Exact limits
  /-- Operators between nodes that wait on a stack. -/
  reduce {stack : List Pending} {s : State} {binding : Nat} {node : Node} {r : List Pending × Node}
    (hstack : ∀ p ∈ stack, p.left.Exact limits) (hx : node.Exact limits)
    (h : reduce limits s binding stack node = .ok r) :
    (∀ p ∈ r.1, p.left.Exact limits) ∧ r.2.Exact limits

theorem exact_nodeParts (hpos : 0 < limits.height) (hinner : Sound limits inner G)
    {part : Nonterminal} (hp : part ∈ nodeParts limits inner) {s t : State} {c : Cursor}
    {node : Node} (hs : s.At c) (h : Yields (part s) node t) : node.Exact limits := by
  simp only [nodeParts, List.mem_cons, List.not_mem_nil, or_false] at hp
  rcases hp with rfl | rfl | rfl | rfl | rfl | rfl | rfl | rfl | rfl | rfl | rfl | rfl
  · exact (hinner hs h).1
  · exact (hinner hs (yields_expression.1 h).1).1
  · exact (sound_group hinner hs h).1
  · exact (sound_word hpos hs h).1
  · obtain ⟨pattern, flags, raw, d, -, -, -, rfl⟩ := (yields_regex hs).1 h
    exact Node.exact_leaf hpos (by simp)
  · exact (sound_array hinner hs h).1
  · exact (sound_object hinner hs h).1
  · exact (sound_primary hpos hinner hs h).1
  · exact (sound_operand hpos hinner hs h).1
  · exact (sound_unary hpos hinner hs h).1
  · exact (sound_operation hpos hinner hs h).1
  · exact (sound_conditionalOver hpos hinner hs h).1

theorem exact_accesses (hinner : Sound limits inner G) {s t : State} {c : Cursor} {node r : Node}
    (hx : node.Exact limits) (hs : s.At c) (h : Yields (accesses limits inner node s) r t) :
    r.Exact limits := by
  induction hn : s.size using Nat.strongRecOn generalizing s c node with
  | ind n ih =>
    subst hn
    rcases yields_accesses.1 h with ⟨hm, u, v, hu, hname, hv, hh, h⟩ | ⟨-, args, u, ha, hh, h⟩ |
      ⟨hm, u, v, w, e, hu, he, hc, hw, hh, h⟩ | ⟨-, -, -, rfl, rfl⟩
    · have hlt : v.size < s.size :=
        Nat.lt_trans (hv.size_lt (isEnd_of_isName hname)) (hu.size_lt_of_punctuator hm)
      exact ih v.size hlt (hx.named _ hh) hv h rfl
    · obtain ⟨hah, d, hu, -⟩ := sound_arguments hinner hs ha
      exact ih u.size ha.below (hx.call hah hh) hu h rfl
    · have hlt : w.size < s.size := Nat.lt_trans (hw.size_lt_of_punctuator hc)
        (Nat.lt_trans he.below (hu.size_lt_of_punctuator hm))
      exact ih w.size hlt (hx.computed (hinner hu he).1 hh) hw h rfl
    · exact hx

omit [Externals] in
theorem exact_reduce {stack : List Pending} {s : State} {binding : Nat} {node : Node}
    {r : List Pending × Node} (hstack : ∀ p ∈ stack, p.left.Exact limits)
    (hx : node.Exact limits) (h : reduce limits s binding stack node = .ok r) :
    (∀ p ∈ r.1, p.left.Exact limits) ∧ r.2.Exact limits := by
  induction stack generalizing node with
  | nil =>
    cases h
    exact ⟨hstack, hx⟩
  | cons p stack ih =>
    rw [reduce] at h
    split at h
    · cases h
      exact ⟨hstack, hx⟩
    · obtain ⟨built, hb, h⟩ := bind_eq_ok_iff.1 h
      have hbx := (hstack p List.mem_cons_self).complete hx hb
      exact ih (fun q hq => hstack q (List.mem_cons_of_mem _ hq)) hbx h

/-- **Heights are tracked** whenever nested expressions are read soundly. -/
theorem tracksHeights (hpos : 0 < limits.height) (hinner : Sound limits inner G) :
    TracksHeights limits inner where
  part := exact_nodeParts hpos hinner
  property hs h := (sound_property hinner hs h).1
  accesses := exact_accesses hinner
  operators hx h := by
    obtain ⟨rfl, hh⟩ := foldrM_unary_eq_ok_iff.1 h
    exact hx.operators hh
  reduce := exact_reduce

end Parser

end ChartScript
