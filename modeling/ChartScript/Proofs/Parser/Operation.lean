import ChartScript.Proofs.Parser.Operand

/-!
# Proofs/Parser/Operation — what the parts that read operations answer

The same lemmas for the operators in front of operands and between them, and for conditional
expressions.  A stack of pending operators appears here as it does in the parser; what it means is
said in Grammar/Soundness and Grammar/Completeness.
-/

namespace ChartScript

namespace Parser

variable {limits : Limits} {inner : Nonterminal} {s t : State} {node : Node}

/-! ## Operators in front of an operand -/

/-- An operator in front of an operand is its symbol. -/
theorem leadingOperator?_eq_some {l : Lexeme} {op : UnaryOperator} :
    leadingOperator? l = some op ↔ l = .punctuator op.symbol := by
  constructor
  · intro h
    cases l with
    | punctuator mark =>
      have := List.find?_some h
      rw [beq_iff_eq] at this
      rw [this]
    | _ => cases h
  · rintro rfl
    exact UnaryOperator.ofSymbol?_symbol op

theorem isDisabledOperator_symbol (op : UnaryOperator) :
    isDisabledOperator (.punctuator op.symbol) = false := by
  cases op <;> decide

variable [Externals]

/-- **Operators are read one by one** until there is none, and no more than may nest. -/
theorem yields_leadingOperators {count : Nat} {ops : List UnaryOperator} :
    Yields (leadingOperators limits count s) ops t ↔
      (∃ op u later, s.lexeme = .punctuator op.symbol ∧ count < limits.height ∧ u.At s.after ∧
        Yields (leadingOperators limits (count + 1) u) later t ∧ ops = op :: later) ∨
      isDisabledOperator s.lexeme = false ∧ leadingOperator? s.lexeme = none ∧ ops = [] ∧ s = t := by
  rw [leadingOperators]
  simp only [yields_ite, not_yields_throw_bind, and_false, false_or, Bool.not_eq_true]
  constructor
  · rintro ⟨hd, h⟩
    split at h
    · next op ho =>
      simp only [yields_ite, not_yields_throw_bind, and_false, false_or, yields_bind, yields_pure,
        yields_consume, Reached.value_weaken, Reached.state_weaken, Reached.value_map,
        Reached.state_map, exists_prop] at h
      obtain ⟨hc, _, u, ⟨-, hu⟩, later, v, hl, rfl, rfl⟩ := h
      exact .inl ⟨op, u, later, leadingOperator?_eq_some.1 ho, by omega, hu, hl, rfl⟩
    · next ho =>
      obtain ⟨rfl, rfl⟩ := yields_pure.1 h
      exact .inr ⟨hd, ho, rfl, rfl⟩
  · rintro (⟨op, u, later, hs, hc, hu, hl, rfl⟩ | ⟨hd, ho, rfl, rfl⟩)
    · refine ⟨hs ▸ isDisabledOperator_symbol op, ?_⟩
      split
      · next op' ho =>
        obtain rfl : op' = op := by
          rw [leadingOperator?_eq_some.2 hs] at ho
          exact (Option.some.inj ho).symm
        simp only [yields_ite, not_yields_throw_bind, and_false, false_or, yields_bind,
          yields_pure, yields_consume, Reached.value_weaken, Reached.state_weaken,
          Reached.value_map, Reached.state_map, exists_prop]
        exact ⟨by omega, (), u, ⟨trivial, hu⟩, later, t, hl, rfl, rfl⟩
      · next ho =>
        rw [leadingOperator?_eq_some.2 hs] at ho
        cases ho
    · refine ⟨hd, ?_⟩
      split
      · next op ho' => rw [ho] at ho'; cases ho'
      · exact yields_pure.2 ⟨rfl, rfl⟩

omit [Externals] in
/-- The node of an operand with operators in front of it: each of them adds one to the height, and
the highest of these nodes is not too high. -/
theorem foldrM_unary_eq_ok_iff {ops : List UnaryOperator} {first : Node} :
    ops.foldrM (fun op node => limits.node s (.unary op node.expr) node.height) first = .ok node ↔
      node = ⟨ops.foldr .unary first.expr, first.height + ops.length⟩ ∧
        (ops ≠ [] → first.height + ops.length ≤ limits.height) := by
  induction ops generalizing node with
  | nil =>
    simp only [List.foldrM_nil, List.foldr_nil, List.length_nil, Nat.add_zero, ne_eq,
      not_true_eq_false, false_imp_iff, and_true]
    exact ⟨fun h => (Except.ok.inj h).symm, fun h => congrArg Except.ok h.symm⟩
  | cons op ops ih =>
    rw [List.foldrM_cons]
    constructor
    · intro h
      cases hx : ops.foldrM
          (fun op node => limits.node s (.unary op node.expr) node.height) first with
      | error _ => rw [hx] at h; cases h
      | ok below =>
        rw [hx] at h
        obtain ⟨hb, -⟩ := ih.1 hx
        obtain ⟨hh, hn⟩ := node_eq_ok_iff.1 h
        rw [hn, hb]
        rw [hb] at hh
        refine ⟨rfl, fun _ => ?_⟩
        rw [List.length_cons]
        exact hh
    · rintro ⟨hn, hh⟩
      have hh := hh (List.cons_ne_nil op ops)
      rw [List.length_cons] at hh
      rw [ih.2 ⟨rfl, fun _ => by omega⟩]
      exact node_eq_ok_iff.2 ⟨hh, hn⟩

/-- **Operators are applied from the last to the first**, each making the tree one higher. -/
theorem yields_unary :
    Yields (unary limits inner s) node t ↔ ∃ ops u first,
      Yields (leadingOperators limits 0 s) ops u ∧ Yields (operand limits inner u) first t ∧
      node = ⟨ops.foldr .unary first.expr, first.height + ops.length⟩ ∧
      (ops ≠ [] → first.height + ops.length ≤ limits.height) := by
  simp only [unary, yields_bind]
  simp only [yields_except_bind, foldrM_unary_eq_ok_iff, yields_pure, Reached.value_weaken,
    Reached.state_weaken, Reached.value_map, Reached.state_map, exists_prop]
  constructor
  · rintro ⟨ops, u, ho, first, v, hf, node, ⟨hn, hh⟩, rfl, rfl⟩
    exact ⟨ops, u, first, ho, hf, hn, hh⟩
  · rintro ⟨ops, u, first, ho, hf, hn, hh⟩
    exact ⟨ops, u, ho, first, t, hf, node, ⟨hn, hh⟩, rfl, rfl⟩

/-! ## Operators between operands -/

omit [Externals] in
/-- An operator between operands is its symbol, as a mark or as a word. -/
theorem ofLexeme?_eq_some {l : Lexeme} {op : Connective} :
    Connective.ofLexeme? l = some op ↔ l = .punctuator op.symbol ∨ l = .keyword op.symbol := by
  have hsym : ∀ {text : String}, Connective.ofSymbol? text = some op → text = op.symbol := by
    intro text h
    unfold Connective.ofSymbol? at h
    split at h
    · next o ho =>
      cases h
      have := List.find?_some ho
      exact (beq_iff_eq.1 this).symm
    · obtain ⟨o, ho, rfl⟩ := Option.map_eq_some_iff.1 h
      have := List.find?_some ho
      exact (beq_iff_eq.1 this).symm
  constructor
  · intro h
    cases l with
    | punctuator mark => rw [hsym h]; exact .inl rfl
    | keyword word => rw [hsym h]; exact .inr rfl
    | _ => cases h
  · rintro (rfl | rfl)
    · exact Connective.ofSymbol?_symbol op
    · exact Connective.ofSymbol?_symbol op

/-- **An operator is followed by its right operand**, once those that bind more tightly are
complete; where there is none, all are completed. -/
theorem yields_operations {stack : List Pending} {current : Node} :
    Yields (operations limits inner stack current s) node t ↔
      (∃ op reduced u right v, Connective.ofLexeme? s.lexeme = some op ∧
        reduce limits s op.precedence stack current = .ok reduced ∧ u.At s.after ∧
        Yields (unary limits inner u) right v ∧
        Yields (operations limits inner (⟨reduced.2, op⟩ :: reduced.1) right v) node t) ∨
      Connective.ofLexeme? s.lexeme = none ∧ s = t ∧
        ∃ rest, reduce limits s 0 stack current = .ok (rest, node) := by
  rw [operations]
  constructor
  · intro h
    split at h
    · next op ho =>
      rw [yields_except_bind] at h
      simp only [yields_bind, yields_consume, yields_pure, Reached.value_weaken,
        Reached.state_weaken, exists_prop] at h
      obtain ⟨reduced, hr, _, u, ⟨-, hu⟩, right, v, hv, e, w, hw, rfl, rfl⟩ := h
      exact .inl ⟨op, reduced, u, right, v, ho, hr, hu, hv, hw⟩
    · next ho =>
      rw [yields_except_bind] at h
      obtain ⟨⟨rest, e⟩, hr, h⟩ := h
      obtain ⟨rfl, rfl⟩ := yields_pure.1 h
      exact .inr ⟨ho, rfl, rest, hr⟩
  · rintro (⟨op, reduced, u, right, v, ho, hr, hu, hv, hw⟩ | ⟨ho, rfl, rest, hr⟩)
    · split
      · next op' ho' =>
        obtain rfl : op' = op := Option.some.inj (ho'.symm.trans ho)
        rw [yields_except_bind]
        simp only [yields_bind, yields_consume, yields_pure, Reached.value_weaken,
          Reached.state_weaken, exists_prop]
        exact ⟨reduced, hr, (), u, ⟨trivial, hu⟩, right, v, hv, node, t, hw, rfl, rfl⟩
      · next ho' => rw [ho] at ho'; cases ho'
    · split
      · next op ho' => rw [ho] at ho'; cases ho'
      · exact yields_except_bind.2 ⟨(rest, node), hr, yields_pure.2 ⟨rfl, rfl⟩⟩

/-- An operation begins with an operand. -/
theorem yields_operation :
    Yields (operation limits inner s) node t ↔ ∃ first u, Yields (unary limits inner s) first u ∧
      Yields (operations limits inner [] first u) node t := by
  simp only [operation, yields_bind, yields_pure, Reached.value_weaken, Reached.state_weaken,
    exists_prop]
  constructor
  · rintro ⟨first, u, hf, e, v, he, rfl, rfl⟩
    exact ⟨first, u, hf, he⟩
  · rintro ⟨first, u, hf, he⟩
    exact ⟨first, u, hf, node, t, he, rfl, rfl⟩

/-! ## Conditional expressions -/

/-- A condition is followed by a question mark and two branches, or is all there is. -/
theorem yields_conditionalOver :
    Yields (conditionalOver limits inner s) node t ↔ ∃ test u,
      Yields (operation limits inner s) test u ∧
      (u.lexeme = .punctuator "?" ∧ (∃ (v w x : State) (consequent alternate : Node),
          v.At u.after ∧ Yields (inner v) consequent w ∧ w.lexeme = .punctuator ":" ∧
          x.At w.after ∧ Yields (inner x) alternate t ∧
          max (max test.height consequent.height) alternate.height < limits.height ∧
          node = ⟨.conditional test.expr consequent.expr alternate.expr,
            max (max test.height consequent.height) alternate.height + 1⟩) ∨
        u.lexeme ≠ .punctuator "?" ∧ test = node ∧ u = t) := by
  simp only [conditionalOver, yields_bind, yields_ite, yields_expect, yields_node_bind, yields_pure,
    Reached.value_weaken, Reached.state_weaken, Reached.value_map, Reached.state_map,
    State.at?_iff, exists_prop]
  constructor
  · rintro ⟨test, u, ht, ⟨hq, _, v, ⟨-, hv⟩, consequent, w, hc, _, x, ⟨hn, hx⟩, alternate, y, ha,
      hh, rfl, rfl⟩ | ⟨hq, rfl, rfl⟩⟩
    · exact ⟨test, u, ht, .inl ⟨hq, v, w, x, consequent, alternate, hv, hc, hn, hx, ha, hh, rfl⟩⟩
    · exact ⟨test, u, ht, .inr ⟨hq, rfl, rfl⟩⟩
  · rintro ⟨test, u, ht, ⟨hq, v, w, x, consequent, alternate, hv, hc, hn, hx, ha, hh, rfl⟩ |
      ⟨hq, rfl, rfl⟩⟩
    · exact ⟨test, u, ht, .inl ⟨hq, (), v, ⟨hq, hv⟩, consequent, w, hc, (), x, ⟨hn, hx⟩,
        alternate, t, ha, hh, rfl, rfl⟩⟩
    · exact ⟨test, u, ht, .inr ⟨hq, rfl, rfl⟩⟩

@[simp] theorem not_yields_conditional_zero :
    ¬ Yields (conditional limits 0 s) node t := not_yields_throw

theorem yields_conditional_succ {levels : Nat} :
    Yields (conditional limits (levels + 1) s) node t ↔
      Yields (conditionalOver limits (conditional limits levels) s) node t := Iff.rfl

omit [Externals] in
/-- The end of the text is one lexeme. -/
theorem isEnd_iff {l : Lexeme} : l.isEnd = true ↔ l = .endOfInput := by
  cases l <;> simp [Lexeme.isEnd]

/-- Reads a text that is exactly one of what `inner` reads. -/
def readAll (inner : Nonterminal) (source : List Char) : Parse Node := do
  let first ← State.ofCursor (Cursor.start source)
  let r ← expression inner first.1
  if r.state.lexeme.isEnd then pure r.value else throw (r.state.fault .trailingInput)

/-- **A text is read** from its beginning to its end. -/
theorem readAll_eq_ok_iff {source : List Char} :
    readAll inner source = .ok node ↔ ∃ s t : State, s.At (Cursor.start source) ∧
      Yields (inner s) node t ∧ t.lexeme = .endOfInput := by
  simp only [readAll, bind_eq_ok_iff]
  constructor
  · rintro ⟨first, hf, r, hr, h⟩
    have he : Yields (expression inner first.1) r.value r.state := ⟨r.below, hr⟩
    split at h
    · next hend =>
      cases h
      exact ⟨first.1, r.state, ⟨first.2, hf⟩, (yields_expression.1 he).1, isEnd_iff.1 hend⟩
    · cases h
  · rintro ⟨s, t, ⟨hs, hf⟩, he, ht⟩
    have hne : t.lexeme ≠ .punctuator "," := by rw [ht]; simp
    obtain ⟨hb, he⟩ := yields_expression.2 ⟨he, hne⟩
    exact ⟨⟨s, hs⟩, hf, ⟨node, t, hb⟩, he, by rw [if_pos (isEnd_iff.2 ht)]; rfl⟩

theorem parse_eq_readAll (limits : Limits) (source : List Char) :
    parse limits source = readAll (conditional limits limits.nesting) source := rfl

end Parser

end ChartScript
