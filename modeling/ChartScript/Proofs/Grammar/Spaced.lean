import ChartScript.Proofs.Expr.Precedence
import ChartScript.Proofs.Grammar.Layout

/-!
# Proofs/Grammar/Spaced — operators and operands that are spaced apart

The parser resolves operators with a stack.  Here its answer is compared with a recursive descent
over the operands and the operators alone: whatever texts the operands are, a text in which
operators stand between them, spaced apart, is read as the grouping of what the operands are read as
(`Parser.accepts_operation`).
-/

namespace ChartScript

open Text Grammar ChartScript.Parser

section

variable [Externals]

namespace Parser

/-- **A part of the parser accepts a text**: it reads the whole of it, as `node`. -/
def Accepts (part : Nonterminal) (source : String) (node : Node) : Prop :=
  ∃ s t : State, s.At (Cursor.start source.toList) ∧ Yields (part s) node t ∧
    t.lexeme = .endOfInput

/-- The part that reads an operand, with the operators in front of it. -/
abbrev operandPart (levels : Nat) : Nonterminal := unary .standard (conditional .standard levels)

/-- The part that reads operands with operators between them. -/
abbrev operationPart (levels : Nat) : Nonterminal :=
  operation .standard (conditional .standard levels)

end Parser

/-- Layout that sets tokens apart. -/
def IsGap (gap : String) : Prop := gap ≠ "" ∧ ∀ x ∈ gap.toList, isLayout x = true

/-- **Operands with operators between them, spaced apart.**  The operands are texts that the parser
accepts on their own; `first` and `links` are the operators, and the trees that it reads. -/
inductive Spaced (levels : Nat) : String → Expr → List Link → Prop where
  | operand {source : String} {node : Node} (h : Accepts (operandPart levels) source node) :
    Spaced levels source node.expr []
  | operator {source gap gap' later : String} {node : Node} {op : Connective} {e : Expr}
    {links : List Link} (h : Accepts (operandPart levels) source node) (hgap : IsGap gap)
    (hgap' : IsGap gap') (hlater : Spaced levels later e links) :
    Spaced levels (source ++ gap ++ op.symbol ++ gap' ++ later) node.expr ((op, e) :: links)

/-- Operands and operators in turn, from one place to another. -/
inductive Sequence (G : Phrase) : Cursor → Expr → List Link → Cursor → Prop where
  | operand {c d : Cursor} {e : Expr} (h : Unary G c e d) : Sequence G c e [] d
  | operator {a b c d : Cursor} {first e : Expr} {op : Connective} {links : List Link}
    (h : Unary G a first b) (hop : Operator op b c) (later : Sequence G c e links d) :
    Sequence G a first ((op, e) :: links) d

variable {G : Phrase} {a b c d f : Cursor} {first e : Expr} {op : Connective} {node : Node}
  {links later : List Link} {source gap : String} {rest : List Char} {levels : Nat}

omit [Externals] in
theorem IsGap.exists_cons (h : IsGap gap) : ∃ x xs, gap.toList = x :: xs ∧ isLayout x = true := by
  obtain ⟨hne, hlayout⟩ := h
  cases hgap : gap.toList with
  | nil => exact absurd (String.toList_eq_nil_iff.1 hgap) hne
  | cons x xs => exact ⟨x, xs, rfl, hlayout x (hgap ▸ List.mem_cons_self)⟩

/-! ## The places in the text -/

/-- An operand that is accepted is derived up to the end of its text. -/
theorem Parser.Accepts.derives (h : Accepts (operandPart levels) source node) :
    ∃ d, Unary (Conditional levels) (Cursor.start source.toList) node.expr d ∧
      d.skipLayout.chars = [] := by
  obtain ⟨s, t, hs, hy, ht⟩ := h
  obtain ⟨-, d, htd, hd⟩ := sound_unary (by decide) (sound_conditional (by decide) levels) hs hy
  exact ⟨d, hd, Cursor.reads_end_iff.1 ⟨t.after, ht ▸ htd.reads⟩⟩

/-- **An operand is derived in front of a gap** as well, wherever what lies behind layout is its
text. -/
theorem exists_unary (hG : Traced G) (h : Unary G (Cursor.start source.toList) e d)
    (hd : d.skipLayout.chars = []) (hrest : ∀ x ∈ rest.head?, isLayout x = true)
    (hc : c.skipLayout.chars = (Cursor.start (source.toList ++ rest)).skipLayout.chars) :
    ∃ d', d'.skipLayout.chars = rest.dropWhile isLayout ∧ (Clear d' → Unary G c e d') := by
  obtain ⟨ts, hw, -, hP⟩ := traced_unary hG h
  have hlayout : ∀ x ∈ d.chars, isLayout x = true := List.dropWhile_eq_nil_iff.1 hd
  obtain ⟨x, hx⟩ := hw.suffix
  -- the operand goes over to the longer text, and from there to the other place
  have hreplaces : Scan.Replaces (d.chars ++ rest) d.chars := by
    have : Scan.Replaces rest [] := .inr fun y hy => Scan.isSeparator_of_isLayout (hrest y hy)
    simpa using this.append d.chars
  obtain ⟨b, hb, hchars⟩ := @Walk.replace _ _ _ (Cursor.start (source.toList ++ rest)) _ _ _ x hw
    hreplaces hx.symm (by rw [← List.append_assoc, hx]; rfl)
  obtain ⟨d', hd', hskip⟩ := hb.of_skipLayout hc
  refine ⟨d', hskip.trans ?_, hP c d' hd'⟩
  show b.chars.dropWhile isLayout = _
  rw [hchars, List.dropWhile_append_of_pos hlayout]

/-- **An operator is read in front of a gap.** -/
theorem exists_operator (op : Connective) (hgap : IsGap gap)
    (hc : c.skipLayout.chars = op.symbol.toList ++ (gap.toList ++ rest)) :
    ∃ d, Operator op c d ∧ d.chars = gap.toList ++ rest := by
  obtain ⟨x, xs, hx, hlayout⟩ := hgap.exists_cons
  obtain ⟨hpart, -, hjoiners⟩ := Scan.isSeparator_iff.1 (Scan.isSeparator_of_isLayout hlayout)
  match hw : op.isWord with
  | false =>
    obtain ⟨hm, hp, -⟩ := operatorMark_facts op hw
    have hends : Scan.endsMark op.symbol (gap.toList ++ rest) :=
      Scan.endsMark_of_joiners hm fun y hy => by
        rw [hx] at hy
        cases hy
        exact hjoiners
    obtain ⟨d, hd, hchars⟩ := Cursor.exists_reads_mark hc hm hends fun heq => absurd heq hp
    exact ⟨d, .inl hd, hchars⟩
  | true =>
    obtain ⟨hname, hkeyword⟩ := operatorWord_facts op hw
    have hends : Scan.endsName (gap.toList ++ rest) := by
      rw [hx]
      exact Scan.endsName_cons.2 hpart
    obtain ⟨d, hd, hchars⟩ := Cursor.exists_reads_name hc hname hends
    exact ⟨d, .inr (hkeyword ▸ hd), hchars⟩

omit [Externals] in
/-- No operator begins with layout. -/
theorem head?_symbol (op : Connective) (rest : List Char) :
    ∀ x ∈ (op.symbol.toList ++ rest).head?, isLayout x = false := by
  have h : ∃ x xs, op.symbol.toList = x :: xs ∧ isLayout x = false := by
    rcases op with op | op <;> cases op <;> exact ⟨_, _, rfl, by decide⟩
  obtain ⟨x, xs, hx, hlayout⟩ := h
  intro y hy
  rw [hx] at hy
  cases hy
  exact hlayout

/-- **What is spaced apart is a sequence** of operands and operators. -/
theorem Spaced.exists_sequence (h : Spaced levels source first links)
    (hc : c.skipLayout.chars = (Cursor.start source.toList).skipLayout.chars) :
    ∃ d, Sequence (Conditional levels) c first links d ∧ d.skipLayout.chars = [] := by
  induction h generalizing c with
  | @operand source node h =>
    obtain ⟨d, hu, hd⟩ := h.derives
    obtain ⟨d', hd', hu'⟩ := @exists_unary _ _ c _ _ _ [] (traced_conditional levels) hu hd (by simp)
      (by rw [hc, List.append_nil])
    obtain ⟨f, hf⟩ := Cursor.reads_end_iff.2 hd'
    exact ⟨d', .operand (hu' (clear_of_reads hf (by simp) (by simp))), hd'⟩
  | @operator source gap gap' later node op e links h hgap hgap' _ ih =>
    obtain ⟨d, hu, hd⟩ := h.derives
    obtain ⟨x, xs, hx, hlayout⟩ := hgap.exists_cons
    obtain ⟨b, hb, hu'⟩ := @exists_unary _ _ c _ _ _
      (gap.toList ++ (op.symbol.toList ++ (gap'.toList ++ later.toList)))
      (traced_conditional levels) hu hd
      (fun y hy => by rw [hx] at hy; cases hy; exact hlayout)
      (by rw [hc]; simp only [String.toList_append, List.append_assoc])
    have hb' : b.skipLayout.chars = op.symbol.toList ++ (gap'.toList ++ later.toList) :=
      hb.trans (dropWhile_append hgap.2 (head?_symbol op _))
    obtain ⟨f, hop, hf⟩ := exists_operator op hgap' hb'
    have hskip : f.skipLayout.chars = (Cursor.start later.toList).skipLayout.chars := by
      show f.chars.dropWhile isLayout = later.toList.dropWhile isLayout
      rw [hf, List.dropWhile_append_of_pos hgap'.2]
    obtain ⟨d', hsequence, hd'⟩ := ih hskip
    exact ⟨d', .operator (hu' hop.clear) hop hsequence, hd'⟩

/-! ## From a sequence to a grouping -/

/-- **A sequence is cut at an operator.** -/
theorem sequence_append_iff : Sequence G a first (links ++ (op, e) :: later) d ↔
    ∃ b c, Sequence G a first links b ∧ Operator op b c ∧ Sequence G c e later d := by
  induction links generalizing a first with
  | nil =>
    constructor
    · intro h
      cases h with
      | operator h hop hlater => exact ⟨_, _, .operand h, hop, hlater⟩
    · rintro ⟨b, c, h, hop, hlater⟩
      cases h with
      | operand h => exact .operator h hop hlater
  | cons link links ih =>
    constructor
    · intro h
      cases h with
      | operator h hop hlater =>
        obtain ⟨b, c, hb, hop', hc⟩ := ih.1 hlater
        exact ⟨b, c, .operator h hop hb, hop', hc⟩
    · rintro ⟨b, c, h, hop', hlater⟩
      cases h with
      | operator h hop hb => exact .operator h hop (ih.2 ⟨b, c, hb, hop', hlater⟩)

/-- **A left-associative grouping of a sequence is derived.** -/
theorem Operations.LeftAssociative.derives {t : Operations} (h : t.LeftAssociative)
    (hs : Sequence G c t.first t.links d) : Binary G t.binding c t.expr d := by
  induction h generalizing c d with
  | operand =>
    cases hs with
    | operand h => exact .unary h
  | apply _ _ hleft hright ihl ihr =>
    obtain ⟨a, b, hl, hop, hr⟩ := sequence_append_iff.1 hs
    exact .operation ((ihl hl).of_le hleft) hop ((ihr hr).of_le hright)

/-! ## What a part accepts -/

/-- What is derived up to the end is accepted. -/
theorem Parser.accepts_of_complete {part : Nonterminal} {ends : Lexeme → Bool}
    (hpart : Complete .standard part G ends) (hopen : Opening G) (hends : ends .endOfInput = true)
    (h : G (Cursor.start source.toList) e d) (hd : d.skipLayout.chars = [])
    (hh : e.height ≤ maxDepth) : Accepts part source ⟨e, e.height⟩ := by
  obtain ⟨f, hf⟩ := Cursor.reads_end_iff.2 hd
  obtain ⟨s, hs, -⟩ := hopen.exists_at h
  obtain ⟨t, ht, htm, -⟩ := hf.exists_at
  exact ⟨s, t, hs, hpart hs h ht (htm ▸ hends) hh, htm⟩

/-- A text is accepted as one tree. -/
theorem Parser.Accepts.unique {part : Nonterminal} {node' : Node} (h : Accepts part source node)
    (h' : Accepts part source node') : node = node' := by
  obtain ⟨s, t, ⟨_, hs⟩, ⟨_, hy⟩, -⟩ := h
  obtain ⟨s', t', ⟨_, hs'⟩, ⟨_, hy'⟩, -⟩ := h'
  cases hs.symm.trans hs'
  cases hy.symm.trans hy'
  rfl

/-- A name is accepted as an operand. -/
theorem Parser.accepts_name {name : String} (h : IsName name)
    (hname : Lexeme.ofName name = .identifier name) :
    Accepts (operandPart levels) name (.leaf (.identifier name)) := by
  have hskip : (Cursor.start name.toList).skipLayout.chars = name.toList ++ [] :=
    Cursor.skipLayout_chars_name h (List.append_nil _).symm
  obtain ⟨d, hd, hchars⟩ := Cursor.exists_reads_name hskip h Scan.endsName_nil
  obtain ⟨f, hf⟩ := Cursor.exists_reads_end hchars
  have hchain : Chain (Conditional levels) _ _ d := .primary (.word (.name (hname ▸ hd)))
  exact accepts_of_complete (complete_unary (complete_conditional levels) opening_conditional)
    opening_unary (by decide) (hchain.unary hf (by simp) (by simp))
    (Cursor.reads_end_iff.1 ⟨f, hf⟩) (by rw [Expr.height_identifier]; decide)

/-- **Operators bind by precedence, and group to the left.**  Operands that the parser accepts on
their own, with operators between them, spaced apart, are accepted as the tree that a recursive
descent groups them to, provided that this tree is not too high.  It is the one grouping of these
operators and operands, in their order, in which what is on the left of an operator binds at least
as tightly, and what is on its right more tightly; and its logical nodes are those of the two
logical operators. -/
theorem Parser.accepts_operation (h : Spaced levels source first links)
    (hh : (Operations.group first links).expr.height ≤ maxDepth) :
    (∀ node, Accepts (operationPart levels) source node ↔
      node = ⟨(Operations.group first links).expr, (Operations.group first links).expr.height⟩) ∧
    (∀ t : Operations, t = Operations.group first links ↔
      t.first = first ∧ t.links = links ∧ t.LeftAssociative) ∧
    ∀ op e, (op, e) ∈ (Operations.group first links).nodes →
      ((∃ o left right, e = .logical o left right) ↔ op.symbol = "||" ∨ op.symbol = "&&") := by
  obtain ⟨hfirst, hlinks, hassociative⟩ := Operations.sound_group first links
  refine ⟨fun node => ?_, fun t => ⟨?_, ?_⟩, fun op e he => ?_⟩
  · have hstart : (Cursor.start source.toList).skipLayout.chars =
        (Cursor.start source.toList).skipLayout.chars := rfl
    obtain ⟨d, hsequence, hd⟩ := h.exists_sequence hstart
    have hbinary : Binary (Conditional levels) 1 _ _ d :=
      (hassociative.derives (by rwa [hfirst, hlinks])).of_le (Operations.binding_pos _)
    have haccepts := accepts_of_complete
      (complete_operation (complete_conditional levels) opening_conditional) opening_binary
      (by decide) hbinary hd hh
    exact ⟨fun hnode => hnode.unique haccepts, fun hnode => hnode ▸ haccepts⟩
  · rintro rfl
    exact ⟨hfirst, hlinks, hassociative⟩
  · rintro ⟨rfl, rfl, ht⟩
    exact ht.eq_group
  · obtain ⟨left, right, rfl⟩ := Operations.exists_apply_of_mem_nodes he
    exact op.exists_logical_iff left right

end

/-- Three levels, one of them with two operators, and a word among the operators. -/
theorem Parser.accepts_operation_mixed :
    Accepts (operationPart 0) "a || b - c - d in e"
      ⟨.logical .or (.identifier "a") (.binary .isIn
        (.binary .sub (.binary .sub (.identifier "b") (.identifier "c")) (.identifier "d"))
        (.identifier "e")), 5⟩ := by
  let links : List Link := [(.logical .or, .identifier "b"), (.binary .sub, .identifier "c"),
    (.binary .sub, .identifier "d"), (.binary .isIn, .identifier "e")]
  have hspaced : Spaced 0 "a || b - c - d in e" (.identifier "a") links := by
    have hgap : IsGap " " := ⟨by decide, by simp; decide⟩
    have htext : "a || b - c - d in e" =
        "a" ++ " " ++ Connective.symbol (.logical .or) ++ " " ++
          ("b" ++ " " ++ Connective.symbol (.binary .sub) ++ " " ++
            ("c" ++ " " ++ Connective.symbol (.binary .sub) ++ " " ++
              ("d" ++ " " ++ Connective.symbol (.binary .isIn) ++ " " ++ "e"))) := by decide
    rw [htext]
    refine .operator (accepts_name (isName_of_plain ?_) rfl) hgap hgap <|
      .operator (accepts_name (isName_of_plain ?_) rfl) hgap hgap <|
      .operator (accepts_name (isName_of_plain ?_) rfl) hgap hgap <|
      .operator (accepts_name (isName_of_plain ?_) rfl) hgap hgap <|
      .operand (accepts_name (isName_of_plain ?_) rfl)
    all_goals decide
  let t : Operations := .apply (.logical .or) (.operand (.identifier "a"))
    (.apply (.binary .isIn)
      (.apply (.binary .sub)
        (.apply (.binary .sub) (.operand (.identifier "b")) (.operand (.identifier "c")))
        (.operand (.identifier "d")))
      (.operand (.identifier "e")))
  have ht : t.LeftAssociative := by
    refine .apply .operand (.apply (.apply (.apply .operand .operand ?_ ?_) .operand ?_ ?_)
      .operand ?_ ?_) ?_ ?_
    all_goals decide
  have hgroup : Operations.group (.identifier "a") links = t := ht.eq_group.symm
  have hheight : t.expr.height = 5 := by decide
  have haccepts := (Parser.accepts_operation hspaced (by rw [hgroup, hheight]; decide)).1
  rw [hgroup, hheight] at haccepts
  exact (haccepts _).2 rfl

end ChartScript
