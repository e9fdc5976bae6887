import ChartScript.Proofs.Parser.Operation

/-!
# Proofs/Completeness/Operand — the operands that are derived are read

Each part of the parser is `Complete` for its nonterminal: when the text between two places derives
a tree that is not too high, and the token behind it cannot continue the phrase, the part reads this
tree from a state at the one place to a state at the other.

The parser looks one token ahead, so every place that it passes must have a token.  What a
nonterminal derives begins with one (`Opening`), and a token that ends a list is no such token.
-/

namespace ChartScript

namespace Grammar

/-- Whether a lexeme is not one of the marks that end a list or a slot. -/
def opens (l : Lexeme) : Bool :=
  !(l.isPunctuator "]" || l.isPunctuator "," || l.isPunctuator ")" || l.isPunctuator "\x7d")

/-- Whether an operand without operators in front of it may begin with a lexeme. -/
def opensOperand (l : Lexeme) : Bool :=
  opens l && !Parser.isDisabledOperator l && (Parser.leadingOperator? l).isNone

theorem opens_of_opensOperand {l : Lexeme} (h : opensOperand l = true) : opens l = true := by
  unfold opensOperand at h
  rw [Bool.and_eq_true, Bool.and_eq_true] at h
  exact h.1.1

/-- What may begin an expression ends no list. -/
theorem ne_of_opens {l : Lexeme} (h : opens l = true) :
    l ≠ .punctuator "]" ∧ l ≠ .punctuator "," ∧ l ≠ .punctuator ")" ∧ l ≠ .punctuator "\x7d" := by
  refine ⟨?_, ?_, ?_, ?_⟩ <;> rintro rfl <;> exact absurd h (by decide)

variable [Externals]

/-- What `G` derives begins with a token that ends no list. -/
def Opening (G : Phrase) : Prop :=
  ∀ {c d : Cursor} {e : Expr}, G c e d → ∃ l b, c.Reads l b ∧ opens l = true

variable {G : Phrase} {a b c d : Cursor} {e : Expr}

/-- A word begins with itself. -/
theorem Word.opening (h : Word c e d) : ∃ l b, c.Reads l b ∧ opensOperand l = true := by
  cases h with
  | name h => exact ⟨_, _, h, rfl⟩
  | keyword h hw => rcases hw with rfl | rfl <;> exact ⟨_, _, h, by decide⟩
  | number h _ => exact ⟨_, _, h, rfl⟩
  | string h _ => exact ⟨_, _, h, rfl⟩
  | boolean h _ => exact ⟨_, _, h, rfl⟩
  | null h _ => exact ⟨_, _, h, rfl⟩

/-- A primary expression begins with its opening mark, its slash or its word. -/
theorem Primary.opening (h : Primary G c e d) : ∃ l b, c.Reads l b ∧ opensOperand l = true := by
  cases h with
  | word h => exact h.opening
  | regex h hm _ _ => rcases hm with rfl | rfl <;> exact ⟨_, _, h, by decide⟩
  | group ho _ _ => exact ⟨_, _, ho, by decide⟩
  | array ho _ => exact ⟨_, _, ho, by decide⟩
  | object ho _ _ => exact ⟨_, _, ho, by decide⟩

/-- A chain begins as its first operand does. -/
theorem Chain.opening (h : Chain G c e d) : ∃ l b, c.Reads l b ∧ opensOperand l = true := by
  induction h with
  | primary h => exact h.opening
  | named _ _ _ _ ih => exact ih
  | computed _ _ _ _ ih => exact ih
  | call _ _ ih => exact ih

theorem Postfix.opening (h : Postfix G c e d) : ∃ l b, c.Reads l b ∧ opensOperand l = true := by
  obtain ⟨h, -, -⟩ := h
  exact h.opening

/-- An operand begins with an operator or with a primary expression. -/
theorem opening_unary : Opening (Unary G) := by
  intro c d e h
  cases h with
  | operand h =>
    obtain ⟨l, b, hl, ho⟩ := h.opening
    exact ⟨l, b, hl, opens_of_opensOperand ho⟩
  | @operator _ _ _ op _ h he => exact ⟨_, _, h, by cases op <;> decide⟩

/-- An operation begins as its left operand does. -/
theorem opening_binary {level : Nat} : Opening (Binary G level) := by
  intro c d e h
  induction h with
  | unary h => exact opening_unary h
  | tighter _ ih => exact ih
  | operation _ _ _ ih _ => exact ih

/-- **A conditional expression begins with a token that ends no list.** -/
theorem opening_conditional {levels : Nat} : Opening (Conditional levels) := by
  intro c d e h
  cases levels with
  | zero => exact h.elim
  | succ levels =>
    cases h with
    | operation h => exact opening_binary h
    | choice ht _ _ _ _ => exact opening_binary ht

/-- A key is one token, which ends no list. -/
theorem Key.opening (h : Key c e d) : ∃ l b, c.Reads l b ∧ opens l = true := by
  cases h with
  | @name _ _ l h hl =>
    refine ⟨_, _, h, ?_⟩
    cases l <;> first | rfl | cases hl
  | number h _ => exact ⟨_, _, h, rfl⟩
  | string h _ => exact ⟨_, _, h, rfl⟩

/-- No object literal ends where a key stands. -/
theorem Key.ne_close {s : Parser.State} (h : Key c e d) (hs : s.At c) :
    s.lexeme ≠ .punctuator "\x7d" := by
  obtain ⟨l, b, hl, ho⟩ := h.opening
  exact hs.lexeme_eq hl ▸ (ne_of_opens ho).2.2.2

/-! ## Lists have a token at their beginning -/

/-- Slots begin with a comma, with an element or with the closing bracket. -/
theorem Slots.exists_at (hopen : Opening G) {slots : List (Option Expr)} (h : Slots G c slots d) :
    ∃ s : Parser.State, s.At c := by
  have : ∃ l b, c.Reads l b := by
    cases h with
    | close h => exact ⟨_, _, h⟩
    | hole h _ => exact ⟨_, _, h⟩
    | last element _ =>
      obtain ⟨l, b, hl, -⟩ := hopen element
      exact ⟨l, b, hl⟩
    | more element _ _ =>
      obtain ⟨l, b, hl, -⟩ := hopen element
      exact ⟨l, b, hl⟩
  obtain ⟨l, b, hl⟩ := this
  obtain ⟨s, hs, -⟩ := hl.exists_at
  exact ⟨s, hs⟩

theorem Entry.exists_at {entry : Expr × Expr} (h : Entry G c entry d) :
    ∃ s : Parser.State, s.At c := by
  obtain ⟨hk, _, _⟩ := h
  obtain ⟨l, b, hl, -⟩ := hk.opening
  obtain ⟨s, hs, -⟩ := hl.exists_at
  exact ⟨s, hs⟩

/-- Entries begin with a key or with the closing brace. -/
theorem Entries.exists_at {entries : List (Expr × Expr)} (h : Entries G c entries d) :
    ∃ s : Parser.State, s.At c := by
  cases h with
  | close h =>
    obtain ⟨s, hs, -⟩ := h.exists_at
    exact ⟨s, hs⟩
  | last first _ => exact first.exists_at
  | more first _ _ => exact first.exists_at

/-- Where an expression is derived the parser may stand. -/
theorem Opening.exists_at (hopen : Opening G) (h : G c e d) :
    ∃ s : Parser.State, s.At c ∧ opens s.lexeme = true := by
  obtain ⟨l, b, hl, ho⟩ := hopen h
  obtain ⟨s, hs, rfl, -⟩ := hl.exists_at
  exact ⟨s, hs, ho⟩

theorem ArgumentList.exists_at (hopen : Opening G) {es : List Expr} (h : ArgumentList G c es d) :
    ∃ s : Parser.State, s.At c ∧ opens s.lexeme = true := by
  cases h with
  | last first _ => exact hopen.exists_at first
  | more first _ _ => exact hopen.exists_at first

end Grammar

namespace Parser

open Grammar

/-! ## Tokens behind a phrase -/

/-- A lexeme that continues no chain of member accesses and calls. -/
def endsOperand (l : Lexeme) : Bool :=
  !(l.isPunctuator "." || l.isPunctuator "(" || l.isPunctuator "[")

/-- A lexeme that continues no operation either. -/
def endsOperation (l : Lexeme) : Bool := endsOperand l && (Connective.ofLexeme? l).isNone

/-- A lexeme that continues no conditional expression. -/
def endsConditional (l : Lexeme) : Bool := endsOperation l && !l.isPunctuator "?"

/-- A chain goes on behind a point or an opening mark, and behind nothing else. -/
theorem endsOperand_iff {l : Lexeme} : endsOperand l = true ↔
    l ≠ .punctuator "." ∧ l ≠ .punctuator "(" ∧ l ≠ .punctuator "[" := by
  cases l <;> simp [endsOperand, Lexeme.isPunctuator, and_assoc]

/-- An operation goes on behind an operator. -/
theorem endsOperation_iff {l : Lexeme} :
    endsOperation l = true ↔ endsOperand l = true ∧ Connective.ofLexeme? l = none := by
  rw [endsOperation, Bool.and_eq_true, Option.isNone_iff_eq_none]

/-- A conditional expression goes on behind a question mark. -/
theorem endsConditional_iff {l : Lexeme} :
    endsConditional l = true ↔ endsOperation l = true ∧ l ≠ .punctuator "?" := by
  cases l <;> simp [endsConditional, Lexeme.isPunctuator]

variable [Externals]

/-- **What `G` derives, `P` reads**, when the token behind it satisfies `ends`. -/
def Complete (limits : Limits) (P : Nonterminal) (G : Phrase) (ends : Lexeme → Bool) : Prop :=
  ∀ {s t : State} {c d : Cursor} {e : Expr}, s.At c → G c e d → t.At d → ends t.lexeme = true →
    e.height ≤ limits.height → Yields (P s) ⟨e, e.height⟩ t

variable {limits : Limits} {inner : Nonterminal} {G : Phrase}

/-- A nested expression is read up to a mark that ends it. -/
theorem Complete.upTo (hinner : Complete limits inner G endsConditional) {s : State}
    {c d f : Cursor} {e : Expr} {mark : String} (hs : s.At c) (h : G c e d)
    (hm : d.Reads (.punctuator mark) f) (hends : endsConditional (.punctuator mark) = true)
    (hh : e.height ≤ limits.height) :
    ∃ t : State, t.At d ∧ t.lexeme = .punctuator mark ∧ t.after = f ∧
      Yields (inner s) ⟨e, e.height⟩ t := by
  obtain ⟨t, ht, htm, hta⟩ := hm.exists_at
  exact ⟨t, ht, htm, hta, hinner hs h ht (htm ▸ hends) hh⟩

/-! ## Operands -/

/-- A group that is derived is read as what it holds. -/
theorem complete_group (hinner : Complete limits inner G endsConditional)
    (hopen : Opening G) {s t : State} {a b c d : Cursor} {e : Expr} (hs : s.At a)
    (ho : a.Reads (.punctuator "(") b) (he : G b e c) (hc : c.Reads (.punctuator ")") d)
    (ht : t.At d) (hh : e.height ≤ limits.height) : Yields (group inner s) ⟨e, e.height⟩ t := by
  obtain ⟨u, hu, -⟩ := hopen.exists_at he
  obtain ⟨v, -, hm, rfl, hy⟩ := hinner.upTo hu he hc (by decide) hh
  exact yields_group.2 ⟨hs.lexeme_eq ho, u, v, hs.after_eq ho ▸ hu, hy, hm, ht⟩

/-- **The slots that are derived are read**, by induction on the derivation. -/
theorem complete_slots (hinner : Complete limits inner G endsConditional) (hopen : Opening G)
    {c d : Cursor} {slots : List (Option Expr)} (h : Slots G c slots d) {s t : State} (hs : s.At c)
    (ht : t.At d) (hh : Expr.tallest (slots.filterMap id) ≤ limits.height) :
    Yields (Parser.slots inner s) (slots, Expr.tallest (slots.filterMap id)) t := by
  induction h generalizing s with
  | close h => exact yields_slots.2 (.inl ⟨hs.lexeme_eq h, hs.after_eq h ▸ ht, rfl⟩)
  | @hole a b d slots h later ih =>
    obtain ⟨u, hu⟩ := later.exists_at hopen
    exact yields_slots.2
      (.inr (.inl ⟨hs.lexeme_eq h, u, _, hs.after_eq h ▸ hu, ih hu ht hh, rfl⟩))
  | last element h =>
    have hh' := hh
    rw [Expr.tallest_slots_some, List.filterMap_nil, Expr.tallest_nil, Nat.max_zero] at hh'
    obtain ⟨l, b, hl, ho⟩ := hopen element
    obtain ⟨hb, hc, -⟩ := ne_of_opens ho
    obtain ⟨u, hu, hm, rfl, hy⟩ := hinner.upTo hs element h (by decide) hh'
    refine yields_slots.2 (.inr (.inr ⟨hs.lexeme_eq hl ▸ hb, hs.lexeme_eq hl ▸ hc, _, u, u, _, hy,
      yields_separator.2 (.inl ⟨hm, rfl⟩), yields_slots.2 (.inl ⟨hm, ht, rfl⟩), ?_⟩))
    simp
  | more element h later ih =>
    have hh' := hh
    rw [Expr.tallest_slots_some] at hh'
    obtain ⟨l, b, hl, ho⟩ := hopen element
    obtain ⟨hb, hc, -⟩ := ne_of_opens ho
    obtain ⟨u, hu, hm, rfl, hy⟩ := hinner.upTo hs element h (by decide) (by omega)
    obtain ⟨v, hv⟩ := later.exists_at hopen
    have hne : u.lexeme ≠ .punctuator "]" := by rw [hm]; simp
    refine yields_slots.2 (.inr (.inr ⟨hs.lexeme_eq hl ▸ hb, hs.lexeme_eq hl ▸ hc, _, u, v, _, hy,
      yields_separator.2 (.inr ⟨hne, hm, hv⟩), ih hv ht (by omega), ?_⟩))
    simp

/-- The key that is derived is the one that is read. -/
theorem key_eq {s : State} {c d : Cursor} {key : Expr} (hs : s.At c) (h : Key c key d) :
    canBeKey s.lexeme = true ∧ s.lexeme.isOctal = false ∧ s.key = key ∧ s.after = d := by
  cases h with
  | @name _ _ l h hl =>
    have hlex := hs.lexeme_eq h
    refine ⟨?_, ?_, ?_, hs.after_eq h⟩
    · rw [hlex]; cases l <;> first | rfl | cases hl
    · rw [hlex]; cases l <;> first | rfl | cases hl
    · unfold State.key
      rw [hlex]
      cases l <;> first | rfl | cases hl
  | number h hr | string h hr =>
    have hlex := hs.lexeme_eq h
    have hraw := hs.spells.unique (hs.after_eq h ▸ hr)
    refine ⟨by rw [hlex]; rfl, by rw [hlex]; rfl, ?_, hs.after_eq h⟩
    unfold State.key
    rw [hlex, hraw]

/-- A property is read up to the mark behind it. -/
theorem complete_property (hinner : Complete limits inner G endsConditional) (hopen : Opening G)
    {s : State} {a d f : Cursor} {key value : Expr} {mark : String} (hs : s.At a)
    (h : Entry G a (key, value) d) (hm : d.Reads (.punctuator mark) f)
    (hends : endsConditional (.punctuator mark) = true) (hh : value.height < limits.height) :
    ∃ t : State, t.At d ∧ t.lexeme = .punctuator mark ∧ t.after = f ∧
      Yields (property limits inner s) (key, ⟨.property key value, value.height + 1⟩) t := by
  obtain ⟨hk, hc, hv⟩ := h
  obtain ⟨hcan, ho, rfl, rfl⟩ := key_eq hs hk
  obtain ⟨u, hu, hum, rfl⟩ := hc.exists_at
  obtain ⟨v, hvs, -⟩ := hopen.exists_at hv
  obtain ⟨t, ht, htm, hta, hy⟩ := hinner.upTo hvs hv hm hends (Nat.le_of_lt hh)
  exact ⟨t, ht, htm, hta, yields_property.2 ⟨hcan, ho, u, v, _, hu, hum, hvs, hy, hh, rfl⟩⟩

/-- The properties that are derived are read, when their keys are told apart from each other and
from those seen before. -/
theorem complete_properties (hinner : Complete limits inner G endsConditional)
    (hopen : Opening G) {c d : Cursor} {entries : List (Expr × Expr)} (h : Entries G c entries d)
    {seen : List String} {s t : State} (hs : s.At c) (ht : t.At d)
    (hnd : (entries.map fun entry => entry.1.keyName).Nodup)
    (hseen : ∀ entry ∈ entries, entry.1.keyName ∉ seen)
    (hh : Expr.tallest (Grammar.properties entries) ≤ limits.height) :
    Yields (Parser.properties limits inner seen s)
      (Grammar.properties entries, Expr.tallest (Grammar.properties entries)) t := by
  induction h generalizing s seen with
  | close h => exact yields_properties.2 (.inl ⟨hs.lexeme_eq h, hs.after_eq h ▸ ht, rfl⟩)
  | @last a b d entry first h =>
    obtain ⟨key, value⟩ := entry
    obtain ⟨hk, -, -⟩ := id first
    have hne := hk.ne_close hs
    simp only [Grammar.properties, List.map_cons, List.map_nil, Expr.tallest_cons,
      Expr.tallest_nil, Nat.max_zero, hk.height_property] at hh ⊢
    obtain ⟨u, hu, hm, rfl, hy⟩ := complete_property hinner hopen hs first h (by decide) hh
    exact yields_properties.2 (.inr ⟨hne, _, u, u, _, hy, hseen _ (List.mem_cons_self),
      yields_separator.2 (.inl ⟨hm, rfl⟩), yields_properties.2 (.inl ⟨hm, ht, rfl⟩),
      by rw [Nat.max_zero]⟩)
  | @more a b c d entry entries first h later ih =>
    obtain ⟨key, value⟩ := entry
    obtain ⟨hk, -, -⟩ := id first
    have hne := hk.ne_close hs
    simp only [Grammar.properties, List.map_cons, Expr.tallest_cons, hk.height_property]
      at hh ⊢
    obtain ⟨u, hu, hm, rfl, hy⟩ := complete_property hinner hopen hs first h (by decide) (by omega)
    obtain ⟨v, hv⟩ := later.exists_at
    have hc : u.lexeme ≠ .punctuator "\x7d" := by rw [hm]; simp
    obtain ⟨hnew, hnd⟩ := List.nodup_cons.1 hnd
    have hlater := @ih (key.keyName :: seen) v hv ht hnd ?_ (by unfold Grammar.properties; omega)
    · exact yields_properties.2 (.inr ⟨hne, _, u, v, _, hy, hseen _ (List.mem_cons_self),
        yields_separator.2 (.inr ⟨hc, hm, hv⟩), hlater, rfl⟩)
    · intro entry hentry hin
      rcases List.mem_cons.1 hin with heq | hin
      · exact hnew (List.mem_map.2 ⟨entry, hentry, heq⟩)
      · exact hseen _ (List.mem_cons_of_mem _ hentry) hin

/-- **What a primary expression derives is read**, whatever comes behind it. -/
theorem complete_primary (hinner : Complete limits inner G endsConditional) (hopen : Opening G) :
    Complete limits (primary limits inner) (Primary G) fun _ => true := by
  intro s t c d e hs h ht _ hh
  rw [yields_primary hs]
  cases h with
  | word h =>
    have hd : s.after = d := by
      cases h with
      | name h => exact hs.after_eq h
      | keyword h _ => exact hs.after_eq h
      | number h _ => exact hs.after_eq h
      | string h _ => exact hs.after_eq h
      | boolean h _ => exact hs.after_eq h
      | null h _ => exact hs.after_eq h
    subst hd
    refine .inr (.inr (.inr (.inr ((yields_word hs).2 ⟨ht, e, h, ?_⟩))))
    rw [Node.leaf]
    cases h <;> simp
  | @regex _ _ _ mark pattern flags raw h hm hx hr =>
    have hlex := hs.lexeme_eq h
    refine .inr (.inr (.inr (.inl
      ⟨?_, (yields_regex hs).2 ⟨pattern, flags, raw, d, hx, hr, ht, ?_⟩⟩)))
    · rcases hm with rfl | rfl
      · exact .inl hlex
      · exact .inr hlex
    · rw [Expr.height_literal]; rfl
  | group ho he hc => exact .inl (complete_group hinner hopen hs ho he hc ht hh)
  | array ho hslots =>
    rw [Expr.height_array] at hh ⊢
    obtain ⟨u, hu⟩ := hslots.exists_at hopen
    exact .inr (.inl (yields_array.2 ⟨hs.lexeme_eq ho, u, _, hs.after_eq ho ▸ hu,
      complete_slots hinner hopen hslots hu ht (Nat.le_of_lt hh), hh, rfl⟩))
  | object ho hs' hk =>
    rw [Expr.height_object] at hh ⊢
    obtain ⟨u, hu⟩ := hs'.exists_at
    exact .inr (.inr (.inl (yields_object.2 ⟨hs.lexeme_eq ho, u, _, hs.after_eq ho ▸ hu,
      complete_properties hinner hopen hs' hu ht hk (by simp) (Nat.le_of_lt hh), hh, rfl⟩)))

/-! ## Member accesses and calls -/

/-- Arguments are read one by one, by induction on the derivation. -/
theorem complete_argumentList (hinner : Complete limits inner G endsConditional)
    (hopen : Opening G) {c d : Cursor} {es : List Expr} (h : ArgumentList G c es d) {s t : State}
    (hs : s.At c) (ht : t.At d) (hh : Expr.tallest es ≤ limits.height) :
    Yields (argumentList inner s) (es, Expr.tallest es) t := by
  induction h generalizing s with
  | last first h =>
    simp only [Expr.tallest_cons, Expr.tallest_nil, Nat.max_zero] at hh ⊢
    obtain ⟨u, hu, hm, rfl, hy⟩ := hinner.upTo hs first h (by decide) hh
    exact yields_argumentList.2 ⟨_, u, hy, .inl ⟨hm, ht, rfl⟩⟩
  | more first h later ih =>
    simp only [Expr.tallest_cons] at hh ⊢
    obtain ⟨u, hu, hm, rfl, hy⟩ := hinner.upTo hs first h (by decide) (by omega)
    obtain ⟨v, hv, -⟩ := later.exists_at hopen
    exact yields_argumentList.2 ⟨_, u, hy, .inr ⟨hm, v, _, hv, ih hv ht (by omega), rfl⟩⟩

/-- An empty list of arguments is told apart by its first token. -/
theorem complete_arguments (hinner : Complete limits inner G endsConditional)
    (hopen : Opening G) {c d : Cursor} {es : List Expr} (h : Arguments G c es d) {s t : State}
    (hs : s.At c) (ht : t.At d) (hh : Expr.tallest es ≤ limits.height) :
    Yields (arguments inner s) (es, Expr.tallest es) t := by
  cases h with
  | none h hd =>
    obtain ⟨u, hu, hm, rfl⟩ := hd.exists_at
    exact yields_arguments.2 ⟨hs.lexeme_eq h, u, hs.after_eq h ▸ hu, .inl ⟨hm, ht, rfl⟩⟩
  | some h args =>
    obtain ⟨u, hu, ho⟩ := args.exists_at hopen
    exact yields_arguments.2 ⟨hs.lexeme_eq h, u, hs.after_eq h ▸ hu,
      .inr ⟨(ne_of_opens ho).2.2.1, complete_argumentList hinner hopen args hu ht hh⟩⟩

/-- A chain begins with a primary expression, and going on from there leads to the end of the chain
and on from it. -/
theorem complete_chain (hinner : Complete limits inner G endsConditional) (hopen : Opening G)
    {c d : Cursor} {e : Expr} (h : Chain G c e d) {s t : State} (hs : s.At c) (ht : t.At d)
    (hh : e.height ≤ limits.height) :
    ∃ first u, Yields (primary limits inner s) first u ∧ ∀ {r : Node} {v : State},
      Yields (accesses limits inner ⟨e, e.height⟩ t) r v →
        Yields (accesses limits inner first u) r v := by
  induction h generalizing t with
  | primary h => exact ⟨_, t, complete_primary hinner hopen hs h ht rfl hh, fun hy => hy⟩
  | @named a b c d e l he hp h hl ih =>
    have hheight : (Expr.member e (.identifier l.text) false).height = e.height + 1 := by
      have := e.height_pos
      simp only [Expr.height_member, Expr.height_identifier]
      omega
    rw [hheight] at hh ⊢
    obtain ⟨u, hu, hum, rfl⟩ := hp.exists_at
    obtain ⟨v, hv, rfl, rfl⟩ := h.exists_at
    obtain ⟨first, w, hf, hgo⟩ := ih hs hu (by omega)
    exact ⟨first, w, hf, fun hy => hgo (yields_accesses.2 (.inl ⟨hum, v, t, hv, hl, ht, hh, hy⟩))⟩
  | @computed a b c d f e p he ho hp hc ih =>
    rw [Expr.height_member] at hh ⊢
    obtain ⟨u, hu, hum, rfl⟩ := ho.exists_at
    obtain ⟨v, hv, -⟩ := hopen.exists_at hp
    obtain ⟨w, hw, hwm, rfl, hy⟩ := hinner.upTo hv hp hc (by decide) (by omega)
    obtain ⟨first, x, hf, hgo⟩ := ih hs hu (by omega)
    exact ⟨first, x, hf, fun hr => hgo (yields_accesses.2
      (.inr (.inr (.inl ⟨hum, v, w, t, _, hv, hy, hwm, ht, hh, hr⟩))))⟩
  | @call a b d e args he ha ih =>
    rw [Expr.height_call] at hh ⊢
    obtain ⟨u, hu, hum⟩ : ∃ u : State, u.At b ∧ u.lexeme = .punctuator "(" := by
      cases ha with
      | none h _ =>
        obtain ⟨u, hu, hum, -⟩ := h.exists_at
        exact ⟨u, hu, hum⟩
      | some h _ =>
        obtain ⟨u, hu, hum, -⟩ := h.exists_at
        exact ⟨u, hu, hum⟩
    have hargs := complete_arguments hinner hopen ha hu ht (by omega)
    obtain ⟨first, w, hf, hgo⟩ := ih hs hu (by omega)
    exact ⟨first, w, hf, fun hr => hgo (yields_accesses.2 (.inr (.inl ⟨hum, _, t, hargs, hh, hr⟩)))⟩

/-- **What a chain derives is read**, when no token behind it goes on with it. -/
theorem complete_operand (hinner : Complete limits inner G endsConditional) (hopen : Opening G) :
    Complete limits (operand limits inner) (Postfix G) endsOperand := by
  intro s t c d e hs h ht hends hh
  obtain ⟨h, hi, hd⟩ := h
  obtain ⟨hp, ho, hb⟩ := endsOperand_iff.1 hends
  obtain ⟨first, u, hf, hgo⟩ := complete_chain hinner hopen h hs ht hh
  have hend : Yields (accesses limits inner ⟨e, e.height⟩ t) ⟨e, e.height⟩ t :=
    yields_accesses.2 (.inr (.inr (.inr ⟨hp, ho, hb, rfl, rfl⟩)))
  exact yields_operand.2 ⟨first, u, hf, hgo hend, fun h => hi _ (h ▸ ht.reads),
    fun h => hd _ (h ▸ ht.reads)⟩

end Parser

end ChartScript
