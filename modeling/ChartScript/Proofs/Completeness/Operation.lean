import ChartScript.Proofs.Completeness.Operand

/-!
# Proofs/Completeness/Operation — the operations that are derived are read

The parser does not build an operation where the grammar does: an operator waits on the stack until
the operator behind its right operand is known.  So an operation that is derived need not be built
when its text has been read, but `Runs` to a stack from which it can be built: reducing this stack
gives what reducing the stack from before gives with the whole operation as operand.
-/

namespace ChartScript

namespace Parser

open Grammar

variable {limits : Limits} {inner : Nonterminal} {G : Phrase}

variable [Externals]

/-! ## Operators in front of an operand -/

/-- What is derived has operators in front of it, which are read, and an operand behind them. -/
theorem complete_leadingOperators {a d : Cursor} {e : Expr} (h : Unary G a e d) {s : State}
    (hs : s.At a) : ∃ ops b first, Postfix G b first d ∧ e = ops.foldr .unary first ∧
      e.height = first.height + ops.length ∧ ∀ count, count + ops.length ≤ limits.height →
        ∃ u : State, u.At b ∧ Yields (leadingOperators limits count s) ops u := by
  induction h generalizing s with
  | operand h =>
    refine ⟨[], _, _, h, rfl, rfl, fun count _ => ⟨s, hs, yields_leadingOperators.2 (.inr ?_)⟩⟩
    obtain ⟨l, b, hl, ho⟩ := h.opening
    rw [opensOperand, Bool.and_eq_true, Bool.and_eq_true, Bool.not_eq_true',
      Option.isNone_iff_eq_none] at ho
    rw [hs.lexeme_eq hl]
    exact ⟨ho.1.2, ho.2, rfl, rfl⟩
  | @operator a b d op e h he ih =>
    obtain ⟨u, hu, -⟩ := opening_unary.exists_at he
    obtain ⟨ops, f, first, hfirst, rfl, hheight, hops⟩ := ih hu
    refine ⟨op :: ops, f, first, hfirst, rfl, ?_, fun count hcount => ?_⟩
    · rw [Expr.height_unary, hheight, List.length_cons, Nat.add_assoc]
    · rw [List.length_cons] at hcount
      obtain ⟨v, hv, hy⟩ := hops (count + 1) (by omega)
      exact ⟨v, hv, yields_leadingOperators.2
        (.inl ⟨op, u, ops, hs.lexeme_eq h, by omega, hs.after_eq h ▸ hu, hy, rfl⟩)⟩

theorem complete_unary (hinner : Complete limits inner G endsConditional) (hopen : Opening G) :
    Complete limits (unary limits inner) (Unary G) endsOperand := by
  intro s t c d e hs h ht hends hh
  obtain ⟨ops, b, first, hfirst, rfl, hheight, hops⟩ :=
    @complete_leadingOperators limits _ _ _ _ _ h _ hs
  obtain ⟨u, hu, hy⟩ := hops 0 (by omega)
  have hoperand := complete_operand hinner hopen hu hfirst ht hends (by omega)
  exact yields_unary.2 ⟨ops, u, _, hy, hoperand, by rw [hheight], fun _ => hheight ▸ hh⟩

/-! ## The stack of pending operators -/

/-- Every pending operator binds less tightly than `level`. -/
def Below (level : Nat) (stack : List Pending) : Prop :=
  ∀ p ∈ stack, p.connective.precedence < level

omit [Externals] in
theorem Below.mono {p q : Nat} {stack : List Pending} (h : Below p stack) (hpq : p ≤ q) :
    Below q stack := fun _ hp => Nat.lt_of_lt_of_le (h _ hp) hpq

omit [Externals] in
/-- Nothing is completed when every pending operator binds less tightly. -/
theorem Below.reduce_eq {level : Nat} {stack : List Pending} (h : Below level stack) (s : State)
    (current : Node) : reduce limits s level stack current = .ok (stack, current) := by
  match stack with
  | [] => rfl
  | p :: stack => rw [reduce, if_pos (h p List.mem_cons_self)]; rfl

omit [Externals] in
/-- An operator that binds tightly enough takes its right operand. -/
theorem reduce_cons {s : State} {binding : Nat} {left right : Node} {op : Connective}
    {stack : List Pending} (hb : binding ≤ op.precedence)
    (hh : max left.height right.height < limits.height) :
    reduce limits s binding (⟨left, op⟩ :: stack) right = reduce limits s binding stack
      ⟨op.apply left.expr right.expr, max left.height right.height + 1⟩ := by
  have hc : (⟨left, op⟩ : Pending).complete limits s right =
      .ok ⟨op.apply left.expr right.expr, max left.height right.height + 1⟩ :=
    node_eq_ok_iff.2 ⟨hh, rfl⟩
  rw [reduce, if_neg (Nat.not_lt.2 hb), hc]
  rfl

/-- Reading an operand from `s` on, and then operators and operands, leads from the one stack to the
other, with the operand `current`, and to the state `t`. -/
def Runs (limits : Limits) (inner : Nonterminal) (stack : List Pending) (s : State)
    (stack' : List Pending) (current : Node) (t : State) : Prop :=
  ∀ {r : Node} {v : State}, Yields (operations limits inner stack' current t) r v →
    ∃ right u, Yields (unary limits inner s) right u ∧
      Yields (operations limits inner stack right u) r v

/-- **An operation that is derived runs** to a stack that reduces as if the operation had been
built. -/
theorem runs_of_binary (hinner : Complete limits inner G endsConditional) (hopen : Opening G)
    {level : Nat} {a d : Cursor} {e : Expr} (h : Binary G level a e d) {stack : List Pending}
    {s t : State} (hs : s.At a) (ht : t.At d) (hends : endsOperand t.lexeme = true)
    (hh : e.height ≤ limits.height) (hstack : Below level stack) :
    ∃ stack' current, Runs limits inner stack s stack' current t ∧
      ∀ binding ≤ level, ∀ u : State, reduce limits u binding stack' current =
        reduce limits u binding stack ⟨e, e.height⟩ := by
  induction h generalizing stack s t with
  | unary h =>
    exact ⟨stack, _, fun hr => ⟨_, t, complete_unary hinner hopen hs h ht hends hh, hr⟩,
      fun _ _ _ => rfl⟩
  | tighter _ ih =>
    obtain ⟨stack', current, hrun, hreduce⟩ :=
      ih hs ht hends hh (hstack.mono (Nat.le_succ _))
    exact ⟨stack', current, hrun, fun q hq => hreduce q (Nat.le_succ_of_le hq)⟩
  | @operation a b c d op l r hl hop hr ihl ihr =>
    rw [Connective.height_apply] at hh
    -- between the operands, the operator is next
    obtain ⟨u, hu, hlex, rfl⟩ : ∃ u : State, u.At b ∧
        Connective.ofLexeme? u.lexeme = some op ∧ u.after = c := by
      rcases hop with hop | hop
      · obtain ⟨u, hu, hm, ha⟩ := hop.exists_at
        exact ⟨u, hu, ofLexeme?_eq_some.2 (.inl hm), ha⟩
      · obtain ⟨u, hu, hm, ha⟩ := hop.exists_at
        exact ⟨u, hu, ofLexeme?_eq_some.2 (.inr hm), ha⟩
    have huends : endsOperand u.lexeme = true := by
      rcases ofLexeme?_eq_some.1 hlex with hm | hm
      · rw [hm]
        rcases op with op | op <;> cases op <;> decide
      · rw [hm]; rfl
    obtain ⟨v, hv, -⟩ := opening_binary.exists_at hr
    obtain ⟨stack₁, left, hrun₁, hreduce₁⟩ := ihl hs hu huends (by omega) hstack
    -- the left operand is complete, and what waits below it keeps waiting
    have hleft : reduce limits u op.precedence stack₁ left = .ok (stack, ⟨l, l.height⟩) := by
      rw [hreduce₁ _ (Nat.le_refl _), hstack.reduce_eq]
    have hstack₂ : Below (op.precedence + 1) (⟨⟨l, l.height⟩, op⟩ :: stack) := by
      intro p hp
      rcases List.mem_cons.1 hp with rfl | hp
      · exact Nat.lt_succ_self _
      · exact Nat.lt_succ_of_lt (hstack p hp)
    obtain ⟨stack₂, right, hrun₂, hreduce₂⟩ := ihr hv ht hends (by omega) hstack₂
    refine ⟨stack₂, right, fun hy => ?_, fun q hq w => ?_⟩
    · obtain ⟨first, w, hf, hgo⟩ := hrun₂ hy
      exact hrun₁ (yields_operations.2 (.inl ⟨op, _, v, first, w, hlex, hleft, hv, hf, hgo⟩))
    · rw [hreduce₂ q (Nat.le_succ_of_le hq) w, reduce_cons hq (by simp only; omega),
        Connective.height_apply]

theorem complete_operation (hinner : Complete limits inner G endsConditional) (hopen : Opening G) :
    Complete limits (operation limits inner) (Binary G 1) endsOperation := by
  intro s t c d e hs h ht hends hh
  obtain ⟨hends, hnone⟩ := endsOperation_iff.1 hends
  obtain ⟨stack, current, hrun, hreduce⟩ :=
    @runs_of_binary _ _ _ _ hinner hopen _ _ _ _ h [] _ _ hs ht hends hh (by simp [Below])
  have hend : Yields (operations limits inner stack current t) ⟨e, e.height⟩ t :=
    yields_operations.2 (.inr ⟨hnone, rfl, [], hreduce 0 (Nat.zero_le _) t⟩)
  exact yields_operation.2 (hrun hend)

/-! ## Conditional expressions -/

theorem complete_conditionalOver (hinner : Complete limits inner G endsConditional)
    (hopen : Opening G) :
    Complete limits (conditionalOver limits inner) (ConditionalOver G) endsConditional := by
  intro s t c d e hs h ht hends hh
  obtain ⟨hoperation, hne⟩ := endsConditional_iff.1 hends
  rw [yields_conditionalOver]
  cases h with
  | operation h =>
    exact ⟨_, t, complete_operation hinner hopen hs h ht hoperation hh, .inr ⟨hne, rfl, rfl⟩⟩
  | choice htest hq hc hn ha =>
    rw [Expr.height_conditional] at hh ⊢
    obtain ⟨u, hu, hum, rfl⟩ := hq.exists_at
    obtain ⟨v, hv, -⟩ := hopen.exists_at hc
    obtain ⟨w, hw, hwm, rfl, hcy⟩ := hinner.upTo hv hc hn (by decide) (by omega)
    obtain ⟨x, hx, -⟩ := hopen.exists_at ha
    have hay := hinner hx ha ht hends (by omega)
    have hty := complete_operation hinner hopen hs htest hu (hum ▸ by decide) (by omega)
    exact ⟨_, u, hty, .inl ⟨hum, v, w, x, _, _, hv, hcy, hwm, hx, hay, hh, rfl⟩⟩

/-- **A conditional expression that is derived is read**, within as many levels. -/
theorem complete_conditional (levels : Nat) :
    Complete limits (conditional limits levels) (Conditional levels) endsConditional := by
  induction levels with
  | zero =>
    intro s t c d e _ h _ _ _
    exact h.elim
  | succ levels ih =>
    intro s t c d e hs h ht hends hh
    exact yields_conditional_succ.2
      (complete_conditionalOver ih opening_conditional hs h ht hends hh)

theorem complete_readAll (hinner : Complete limits inner G endsConditional) (hopen : Opening G)
    {source : List Char} {d f : Cursor} {e : Expr} (h : G (Cursor.start source) e d)
    (hd : d.Reads .endOfInput f) (hh : e.height ≤ limits.height) :
    readAll inner source = .ok ⟨e, e.height⟩ := by
  obtain ⟨s, hs, -⟩ := hopen.exists_at h
  obtain ⟨t, ht, htm, -⟩ := hd.exists_at
  exact readAll_eq_ok_iff.2 ⟨s, t, hs, hinner hs h ht (htm ▸ rfl) hh, htm⟩

/-- **A text that is derived is read**, when its tree is not too high. -/
theorem complete_parse {source : String} {e : Expr} (h : Derives limits.nesting source e)
    (hh : e.height ≤ limits.height) :
    parse limits source.toList = .ok ⟨e, e.height⟩ := by
  obtain ⟨d, f, h, hd⟩ := h
  exact complete_readAll (complete_conditional _) opening_conditional h hd hh

end Parser

end ChartScript
