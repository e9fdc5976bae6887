import ChartScript.Proofs.Soundness.Operand

/-!
# Proofs/Soundness/Operation — the operations that are read are derived

The stack of pending operators is described by `Stacked`: its operators bind more and more tightly
towards the top, and each waits behind a left operand of its own level.  Reducing keeps this, and an
empty stack leaves one operand for the whole text.
-/

namespace ChartScript

/-- Every operator binds more tightly than none. -/
theorem Connective.precedence_pos (op : Connective) : 0 < op.precedence := by
  rcases op with op | op <;> cases op <;> decide

theorem Connective.precedence_lt (op : Connective) : op.precedence < 12 := by
  rcases op with op | op <;> cases op <;> decide

namespace Parser

variable {limits : Limits}

/-! ## Heights -/

theorem height_foldr_unary (ops : List UnaryOperator) (e : Expr) :
    (ops.foldr .unary e).height = e.height + ops.length := by
  induction ops with
  | nil => rfl
  | cons op ops ih => rw [List.foldr_cons, Expr.height_unary, ih, List.length_cons, Nat.add_assoc]

/-- Each operator in front makes the tree one higher. -/
theorem Node.Exact.operators {node : Node} (hx : node.Exact limits) {ops : List UnaryOperator}
    (hh : ops ≠ [] → node.height + ops.length ≤ limits.height) :
    Node.Exact limits ⟨ops.foldr .unary node.expr, node.height + ops.length⟩ := by
  refine ⟨by rw [height_foldr_unary, hx.height_eq], ?_⟩
  by_cases hne : ops = []
  · subst hne
    exact hx.height_le
  · exact hh hne

/-- An operator is completed when the node is not too high. -/
theorem complete_eq_ok_iff {s : State} {p : Pending} {right node : Node} :
    p.complete limits s right = .ok node ↔ max p.left.height right.height < limits.height ∧
      node = ⟨p.connective.apply p.left.expr right.expr,
        max p.left.height right.height + 1⟩ := node_eq_ok_iff

theorem Node.Exact.complete {s : State} {p : Pending} {right node : Node}
    (hl : p.left.Exact limits) (hr : right.Exact limits)
    (h : p.complete limits s right = .ok node) : node.Exact limits := by
  obtain ⟨hh, rfl⟩ := complete_eq_ok_iff.1 h
  exact ⟨by rw [Connective.height_apply, hl.height_eq, hr.height_eq], hh⟩

end Parser

variable [Externals]

namespace Grammar

variable {G : Phrase} {c d : Cursor} {e : Expr} {p q : Nat}

/-- **What binds tightly binds loosely too.** -/
theorem Binary.of_le (h : Binary G q c e d) (hpq : p ≤ q) : Binary G p c e d := by
  induction hpq with
  | refl => exact h
  | step _ ih => exact ih (.tighter h)

/-- No operator is of level 0. -/
theorem Binary.one_of_zero (h : Binary G 0 c e d) : Binary G 1 c e d := by
  generalize hn : 0 = n at h
  cases h with
  | unary h => cases hn
  | tighter h => subst hn; exact h
  | @operation _ _ _ _ op _ _ hl h hr => exact absurd hn (Nat.ne_of_lt op.precedence_pos)

end Grammar

namespace Parser

open Grammar

variable {limits : Limits} {inner : Nonterminal} {G : Phrase}

/-! ## Operators in front of an operand -/

/-- Whatever is derived behind the operators that are read, they may stand in front of. -/
theorem sound_leadingOperators {s u : State} {a : Cursor} {count : Nat} {ops : List UnaryOperator}
    (hs : s.At a) (h : Yields (leadingOperators limits count s) ops u) :
    ∃ b, u.At b ∧ ∀ e d, Unary G b e d → Unary G a (ops.foldr .unary e) d := by
  induction hn : s.size using Nat.strongRecOn generalizing s a count ops with
  | ind n ih =>
    subst hn
    rcases yields_leadingOperators.1 h with ⟨op, v, later, hm, -, hv, hl, rfl⟩ | ⟨-, -, rfl, rfl⟩
    · obtain ⟨b, hu, hb⟩ := ih v.size (hv.size_lt_of_punctuator hm) hv hl rfl
      exact ⟨b, hu, fun e d he => .operator (hm ▸ hs.reads) (hb e d he)⟩
    · exact ⟨a, hs, fun _ _ he => he⟩

/-- **Operators in front of an operand are derived** with it. -/
theorem sound_unary (hpos : 0 < limits.height) (hinner : Sound limits inner G) :
    Sound limits (unary limits inner) (Unary G) := by
  intro s c node t hs h
  obtain ⟨ops, u, first, ho, hf, rfl, hh⟩ := yields_unary.1 h
  obtain ⟨b, hu, hb⟩ := sound_leadingOperators hs ho
  obtain ⟨hx, d, ht, hd⟩ := sound_operand hpos hinner hu hf
  exact ⟨hx.operators hh, d, ht, hb _ d (.operand hd)⟩

/-! ## The stack of pending operators -/

/-- From `a` to `d`, the text is that of the pending operators with their left operands.  They bind
less tightly than `level`, and each less tightly than those above it. -/
inductive Stacked (limits : Limits) (G : Phrase) : Nat → Cursor → List Pending → Cursor → Prop where
  | nil {level : Nat} {c : Cursor} : Stacked limits G level c [] c
  | cons {level : Nat} {a b c d : Cursor} {p : Pending} {stack : List Pending}
    (below : Stacked limits G p.connective.precedence a stack b) (hx : p.left.Exact limits)
    (hl : Binary G p.connective.precedence b p.left.expr c) (h : Operator p.connective c d)
    (hp : p.connective.precedence < level) : Stacked limits G level a (p :: stack) d

/-- Nothing binds less tightly than level 0, so nothing is pending there. -/
theorem Stacked.eq_nil {a d : Cursor} {stack : List Pending} (h : Stacked limits G 0 a stack d) :
    stack = [] ∧ a = d := by
  cases h with
  | nil => exact ⟨rfl, rfl⟩
  | cons _ _ _ _ hp => exact absurd hp (Nat.not_lt_zero _)

/-- **Reducing** leaves a stack that binds less tightly than the operator to come, and its left
operand. -/
theorem sound_reduce {s : State} {level binding : Nat} {a c d : Cursor} {stack : List Pending}
    {current : Node} {r : List Pending × Node} (hs : Stacked limits G level a stack c)
    (hx : current.Exact limits) (hc : Binary G level c current.expr d) (hb : binding ≤ level)
    (h : reduce limits s binding stack current = .ok r) :
    ∃ b, Stacked limits G binding a r.1 b ∧ Binary G binding b r.2.expr d ∧ r.2.Exact limits := by
  induction hs generalizing current with
  | nil =>
    cases h
    exact ⟨_, .nil, hc.of_le hb, hx⟩
  | @cons level a b c _ p stack below hpx hl hop hp ih =>
    rw [reduce] at h
    split at h
    · next hlt =>
      cases h
      exact ⟨_, .cons below hpx hl hop hlt, hc.of_le hb, hx⟩
    · next hge =>
      obtain ⟨node, hn, h⟩ := bind_eq_ok_iff.1 h
      have hnx := hpx.complete hx hn
      obtain ⟨-, rfl⟩ := complete_eq_ok_iff.1 hn
      exact ih hnx (.operation hl hop (hc.of_le hp)) (Nat.not_lt.1 hge) h

/-- Reading on behind an operand, with a stack that is derived so far. -/
theorem sound_operations (hpos : 0 < limits.height) (hinner : Sound limits inner G) {s t : State}
    {a b c : Cursor} {stack : List Pending} {current r : Node}
    (hstack : Stacked limits G 12 a stack b) (hx : current.Exact limits)
    (hc : Unary G b current.expr c) (hs : s.At c)
    (h : Yields (operations limits inner stack current s) r t) :
    r.Exact limits ∧ ∃ d, t.At d ∧ Binary G 1 a r.expr d := by
  induction hn : s.size using Nat.strongRecOn generalizing s b c stack current with
  | ind n ih =>
    subst hn
    rcases yields_operations.1 h with ⟨op, reduced, u, right, v, ho, hr, hu, hy, h⟩ |
      ⟨-, rfl, rest, hr⟩
    · obtain ⟨f, hf, hl, hlx⟩ := sound_reduce hstack hx (.unary hc) (Nat.le_of_lt op.precedence_lt) hr
      obtain ⟨hrx, d, hv, hd⟩ := sound_unary hpos hinner hu hy
      have hop : Operator op c s.after := by
        rcases ofLexeme?_eq_some.1 ho with hm | hm
        · exact .inl (hm ▸ hs.reads)
        · exact .inr (hm ▸ hs.reads)
      have hlt : v.size < s.size :=
        Nat.lt_trans hy.below (hu.size_lt (Connective.isEnd_of_ofLexeme? ho))
      exact ih v.size hlt (.cons hf hlx hl hop op.precedence_lt) hrx hd hv h rfl
    · obtain ⟨f, hf, hl, hlx⟩ := sound_reduce hstack hx (.unary hc) (Nat.zero_le _) hr
      obtain ⟨-, rfl⟩ := hf.eq_nil
      exact ⟨hlx, c, hs, hl.one_of_zero⟩

/-- **Operations that are read are derived.** -/
theorem sound_operation (hpos : 0 < limits.height) (hinner : Sound limits inner G) :
    Sound limits (operation limits inner) (Binary G 1) := by
  intro s c node t hs h
  obtain ⟨first, u, hf, h⟩ := yields_operation.1 h
  obtain ⟨hx, d, hu, hd⟩ := sound_unary hpos hinner hs hf
  exact sound_operations hpos hinner .nil hx hd hu h

/-! ## Conditional expressions -/

/-- Conditional expressions that are read are derived when those nested in them are. -/
theorem sound_conditionalOver (hpos : 0 < limits.height) (hinner : Sound limits inner G) :
    Sound limits (conditionalOver limits inner) (ConditionalOver G) := by
  intro s c node t hs h
  obtain ⟨test, u, ht, ⟨hq, v, w, x, consequent, alternate, hv, hc, hn, hx, ha, hh, rfl⟩ |
    ⟨-, rfl, rfl⟩⟩ := yields_conditionalOver.1 h
  · obtain ⟨htx, b, hu, hb⟩ := sound_operation hpos hinner hs ht
    obtain ⟨hcx, d, hw, hd⟩ := hinner hv hc
    obtain ⟨hax, g, ht, hg⟩ := hinner hx ha
    refine ⟨⟨?_, hh⟩, g, ht, .choice hb (hq ▸ hu.reads) hd (hn ▸ hw.reads) hg⟩
    simp only [Expr.height_conditional, htx.height_eq, hcx.height_eq, hax.height_eq]
  · obtain ⟨hx, d, hu, hd⟩ := sound_operation hpos hinner hs ht
    exact ⟨hx, d, hu, .operation hd⟩

/-- **A conditional expression that is read is derived**, within as many levels. -/
theorem sound_conditional (hpos : 0 < limits.height) (levels : Nat) :
    Sound limits (conditional limits levels) (Conditional levels) := by
  induction levels with
  | zero =>
    intro s c node t _ h
    exact absurd h not_yields_conditional_zero
  | succ levels ih =>
    intro s c node t hs h
    exact sound_conditionalOver hpos ih hs (yields_conditional_succ.1 h)

/-- What is read up to the end is derived up to the end. -/
theorem sound_readAll (hinner : Sound limits inner G) {source : List Char} {node : Node}
    (h : readAll inner source = .ok node) :
    node.Exact limits ∧ ∃ d f, G (Cursor.start source) node.expr d ∧ d.Reads .endOfInput f := by
  obtain ⟨s, t, hs, hy, ht⟩ := readAll_eq_ok_iff.1 h
  obtain ⟨hx, d, htd, hd⟩ := hinner hs hy
  exact ⟨hx, d, t.after, hd, ht ▸ htd.reads⟩

/-- **A text that is read is derived**, and its tree is not too high. -/
theorem sound_parse (hpos : 0 < limits.height) {source : String} {node : Node}
    (h : parse limits source.toList = .ok node) :
    node.Exact limits ∧ Derives limits.nesting source node.expr :=
  sound_readAll (sound_conditional hpos _) h

end Parser

end ChartScript
