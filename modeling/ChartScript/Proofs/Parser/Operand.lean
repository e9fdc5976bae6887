import ChartScript.Proofs.Parser.Outcome

/-!
# Proofs/Parser/Operand — what the parts that read operands answer

One lemma for each part of the parser: it yields an answer exactly when the parts that it is made of
yield theirs.  The later modules reason from these lemmas and open no part again.
-/

namespace ChartScript

namespace Parser

variable {limits : Limits} {inner : Nonterminal} {s t : State} {node : Node}

/-- An expression that stands by itself is not followed by a comma: sequences are refused. -/
theorem yields_expression :
    Yields (expression inner s) node t
      ↔ Yields (inner s) node t ∧ t.lexeme ≠ .punctuator "," := by
  simp only [expression, yields_bind, yields_ite, not_yields_throw_bind, and_false, false_or,
    yields_pure, State.at?_iff, exists_prop]
  constructor
  · rintro ⟨e, u, he, hu, rfl, rfl⟩
    exact ⟨he, hu⟩
  · rintro ⟨he, ht⟩
    exact ⟨node, t, he, ht, rfl, rfl⟩

variable [Externals]

/-- A group is what its parentheses hold. -/
theorem yields_group :
    Yields (group inner s) node t ↔ s.lexeme = .punctuator "(" ∧ ∃ u v, u.At s.after ∧
      Yields (inner u) node v ∧ v.lexeme = .punctuator ")" ∧ t.At v.after := by
  simp only [group, yields_bind, yields_expect, yields_expression, yields_pure,
    Reached.value_weaken, Reached.state_weaken, Reached.value_map, Reached.state_map, exists_prop]
  constructor
  · rintro ⟨_, u, ⟨hs, hu⟩, e, v, ⟨he, -⟩, _, w, ⟨hv, ht⟩, rfl, rfl⟩
    exact ⟨hs, u, v, hu, he, hv, ht⟩
  · rintro ⟨hs, u, v, hu, he, hv, ht⟩
    have hne : v.lexeme ≠ .punctuator "," := by rw [hv]; simp
    exact ⟨(), u, ⟨hs, hu⟩, node, v, ⟨he, hne⟩, (), t, ⟨hv, ht⟩, rfl, rfl⟩

/-- The mark that closes a list is left where it is, and a comma is read. -/
theorem yields_separator {close : String} {a : Unit} :
    Yields (separator close s) a t ↔ s.lexeme = .punctuator close ∧ s = t ∨
      s.lexeme ≠ .punctuator close ∧ s.lexeme = .punctuator "," ∧ t.At s.after := by
  simp only [separator, yields_ite, yields_bind, yields_pure, Reached.value_weaken,
    Reached.state_weaken, State.at?_iff, yields_expect, exists_prop]
  constructor
  · rintro (⟨hs, -, rfl⟩ | ⟨hs, -, u, ⟨hc, hu⟩, -, rfl⟩)
    · exact .inl ⟨hs, rfl⟩
    · exact .inr ⟨hs, hc, hu⟩
  · rintro (⟨hs, rfl⟩ | ⟨hs, hc, ht⟩)
    · exact .inl ⟨hs, trivial, rfl⟩
    · exact .inr ⟨hs, (), t, ⟨hc, ht⟩, trivial, rfl⟩

/-- **The slots of an array**: the array is closed, a comma leaves a hole, or an element is read
with its separator. -/
theorem yields_slots {r : List (Option Expr) × Nat} :
    Yields (slots inner s) r t ↔
      s.lexeme = .punctuator "]" ∧ t.At s.after ∧ r = ([], 0) ∨
      s.lexeme = .punctuator "," ∧ (∃ u later, u.At s.after ∧ Yields (slots inner u) later t ∧
        r = (none :: later.1, later.2)) ∨
      s.lexeme ≠ .punctuator "]" ∧ s.lexeme ≠ .punctuator "," ∧ ∃ e u v later,
        Yields (inner s) e u ∧ Yields (separator "]" u) () v ∧ Yields (slots inner v) later t ∧
        r = (some e.expr :: later.1, max e.height later.2) := by
  rw [slots]
  simp only [yields_ite, yields_bind, yields_expect, yields_pure, Reached.value_weaken,
    Reached.state_weaken, Reached.value_map, Reached.state_map, State.at?_iff, exists_prop]
  constructor
  · rintro (⟨hs, _, u, ⟨-, hu⟩, rfl, rfl⟩ | ⟨hs, ⟨hc, _, u, ⟨-, hu⟩, later, v, hl, rfl, rfl⟩ |
      ⟨hc, e, u, he, _, v, hv, later, w, hl, rfl, rfl⟩⟩)
    · exact .inl ⟨hs, hu, rfl⟩
    · exact .inr (.inl ⟨hc, u, later, hu, hl, rfl⟩)
    · exact .inr (.inr ⟨hs, hc, e, u, v, later, he, hv, hl, rfl⟩)
  · rintro (⟨hs, ht, rfl⟩ | ⟨hs, u, later, hu, hl, rfl⟩ | ⟨hs, hc, e, u, v, later, he, hv, hl, rfl⟩)
    · exact .inl ⟨hs, (), t, ⟨hs, ht⟩, rfl, rfl⟩
    · have hne : s.lexeme ≠ .punctuator "]" := by rw [hs]; simp
      exact .inr ⟨hne, .inl ⟨hs, (), u, ⟨hs, hu⟩, later, t, hl, rfl, rfl⟩⟩
    · exact .inr ⟨hs, .inr ⟨hc, e, u, he, (), v, hv, later, t, hl, rfl, rfl⟩⟩

/-- An array is one higher than the highest of its elements, and not too high. -/
theorem yields_array :
    Yields (array limits inner s) node t ↔ s.lexeme = .punctuator "[" ∧ ∃ u r, u.At s.after ∧
      Yields (slots inner u) r t ∧ r.2 < limits.height ∧ node = ⟨.array r.1, r.2 + 1⟩ := by
  simp only [array, yields_bind, yields_expect, yields_node_bind, yields_pure,
    Reached.value_weaken, Reached.state_weaken, Reached.value_map, Reached.state_map, exists_prop]
  constructor
  · rintro ⟨_, u, ⟨hs, hu⟩, r, v, hr, hh, rfl, rfl⟩
    exact ⟨hs, u, r, hu, hr, hh, rfl⟩
  · rintro ⟨hs, u, r, hu, hr, hh, rfl⟩
    exact ⟨(), u, ⟨hs, hu⟩, r, t, hr, hh, rfl, rfl⟩

/-- A property has a key, which is no octal number, a colon and a value. -/
theorem yields_property {r : Expr × Node} :
    Yields (property limits inner s) r t ↔
      canBeKey s.lexeme = true ∧ s.lexeme.isOctal = false ∧
        ∃ (u v : State) (value : Node), u.At s.after ∧ u.lexeme = .punctuator ":" ∧ v.At u.after ∧ Yields (inner v) value t ∧
        value.height < limits.height ∧
        r = (s.key, ⟨.property s.key value.expr, value.height + 1⟩) := by
  simp only [property, yields_dite, yields_next_bind, yields_ite, not_yields_throw_bind, and_false,
    false_or, yields_bind, yields_expect, yields_node_bind, yields_pure, not_yields_throw,
    Reached.value_weaken, Reached.state_weaken, Reached.value_map, Reached.state_map,
    Bool.not_eq_true, exists_prop]
  constructor
  · rintro (⟨hk, u, _, hu, ho, _, v, ⟨hc, hv⟩, value, w, hw, hh, rfl, rfl⟩ | ⟨_, ⟨⟩⟩)
    exact ⟨hk, ho, u, v, value, hu, hc, hv, hw, hh, rfl⟩
  · rintro ⟨hk, ho, u, v, value, hu, hc, hv, hw, hh, rfl⟩
    exact .inl ⟨hk, u, hu.1, hu, ho, (), v, ⟨hc, hv⟩, value, t, hw, hh, rfl, rfl⟩

/-- **The properties of an object**: it is closed, or one is read whose key is new among those
before it. -/
theorem yields_properties {seen : List String} {r : List Expr × Nat} :
    Yields (properties limits inner seen s) r t ↔
      s.lexeme = .punctuator "\x7d" ∧ t.At s.after ∧ r = ([], 0) ∨
      s.lexeme ≠ .punctuator "\x7d" ∧ ∃ p u v later, Yields (property limits inner s) p u ∧
        p.1.keyName ∉ seen ∧ Yields (separator "\x7d" u) () v ∧
        Yields (properties limits inner (p.1.keyName :: seen) v) later t ∧
        r = (p.2.expr :: later.1, max p.2.height later.2) := by
  rw [properties]
  simp only [yields_ite, yields_bind, yields_expect, yields_pure, not_yields_throw_bind, and_false,
    false_or, Reached.value_weaken, Reached.state_weaken, Reached.value_map, Reached.state_map,
    State.at?_iff, List.contains_iff_mem, exists_prop]
  constructor
  · rintro (⟨hs, _, u, ⟨-, hu⟩, rfl, rfl⟩ | ⟨hs, p, u, hp, hn, _, v, hv, later, w, hl, rfl, rfl⟩)
    · exact .inl ⟨hs, hu, rfl⟩
    · exact .inr ⟨hs, p, u, v, later, hp, hn, hv, hl, rfl⟩
  · rintro (⟨hs, ht, rfl⟩ | ⟨hs, p, u, v, later, hp, hn, hv, hl, rfl⟩)
    · exact .inl ⟨hs, (), t, ⟨hs, ht⟩, rfl, rfl⟩
    · exact .inr ⟨hs, p, u, hp, hn, (), v, hv, later, t, hl, rfl, rfl⟩

/-- An object is one higher than the highest of its properties, and not too high. -/
theorem yields_object :
    Yields (object limits inner s) node t ↔ s.lexeme = .punctuator "\x7b" ∧ ∃ u r, u.At s.after ∧
      Yields (properties limits inner [] u) r t ∧ r.2 < limits.height ∧
      node = ⟨.object r.1, r.2 + 1⟩ := by
  simp only [object, yields_bind, yields_expect, yields_node_bind, yields_pure,
    Reached.value_weaken, Reached.state_weaken, Reached.value_map, Reached.state_map, exists_prop]
  constructor
  · rintro ⟨_, u, ⟨hs, hu⟩, r, v, hr, hh, rfl, rfl⟩
    exact ⟨hs, u, r, hu, hr, hh, rfl⟩
  · rintro ⟨hs, u, r, hu, hr, hh, rfl⟩
    exact ⟨(), u, ⟨hs, hu⟩, r, t, hr, hh, rfl, rfl⟩

/-- A regular expression is read anew from the place of the lookahead. -/
theorem yields_regex {c : Cursor} (hs : s.At c) :
    Yields (regex s) node t ↔ ∃ pattern flags raw d, c.ReadsRegex pattern flags d ∧
      c.Spells raw d ∧ t.At d ∧ node = .leaf (.literal (.regex pattern flags) raw) := by
  have hb := hs.before_eq
  unfold regex
  constructor
  · intro h
    split at h
    · simp at h
    · next pattern flags rest hx =>
      simp only [yields_ofCursor_bind, yields_pure] at h
      obtain ⟨u, _, hu, rfl, rfl⟩ := h
      have hw : rest <:+ s.before.chars := by
        have := Scan.within_regexLiteral s.before.chars
        rwa [hx] at this
      rw [hb] at hx hw hu ⊢
      exact ⟨pattern, flags, _, _, Cursor.readsRegex_iff.2 ⟨rest, hx, rfl⟩, Cursor.spells_moveTo hw,
        hu, rfl⟩
  · rintro ⟨pattern, flags, raw, d, hd, hr, ht, rfl⟩
    obtain ⟨rest, hx, rfl⟩ := Cursor.readsRegex_iff.1 hd
    have hw : rest <:+ c.skipLayout.chars := by
      have := Scan.within_regexLiteral c.skipLayout.chars
      rwa [hx] at this
    rw [hr.unique (Cursor.spells_moveTo hw)]
    rw [← hb] at hx ht ⊢
    split
    · next h => rw [hx] at h; cases h
    · next h =>
      rw [hx] at h
      cases h
      simp only [yields_ofCursor_bind, yields_pure]
      exact ⟨t, ht.1, ht, trivial, rfl⟩

/-- **A word is one token**, the lookahead. -/
theorem yields_word {c : Cursor} (hs : s.At c) :
    Yields (word s) node t ↔ t.At s.after ∧ ∃ e, Grammar.Word c e s.after ∧ node = .leaf e := by
  have hr := hs.reads
  have hx := hs.spells
  unfold word
  constructor
  · intro h
    split at h
    · next name hl =>
      obtain ⟨rfl, ht⟩ := yields_consume.1 h
      exact ⟨ht, _, .name (hl ▸ hr), rfl⟩
    · next w hl =>
      split at h
      · next hw =>
        obtain ⟨rfl, ht⟩ := yields_consume.1 h
        exact ⟨ht, _, .keyword (hl ▸ hr) (by simpa [nameKeywords] using hw), rfl⟩
      · simp at h
    · next value octal hl =>
      split at h
      · simp at h
      · next ho =>
        obtain rfl : octal = false := by simpa using ho
        obtain ⟨rfl, ht⟩ := yields_consume.1 h
        exact ⟨ht, _, .string (hl ▸ hr) hx, rfl⟩
    · next value octal hl =>
      split at h
      · simp at h
      · next ho =>
        obtain rfl : octal = false := by simpa using ho
        obtain ⟨rfl, ht⟩ := yields_consume.1 h
        exact ⟨ht, _, .number (hl ▸ hr) hx, rfl⟩
    · next value hl =>
      obtain ⟨rfl, ht⟩ := yields_consume.1 h
      exact ⟨ht, _, .boolean (hl ▸ hr) hx, rfl⟩
    · next hl =>
      obtain ⟨rfl, ht⟩ := yields_consume.1 h
      exact ⟨ht, _, .null (hl ▸ hr) hx, rfl⟩
    · simp at h
  · rintro ⟨ht, e, he, rfl⟩
    cases he with
    | name h =>
      have hl := hr.lexeme_eq h
      split <;> simp_all [yields_consume]
    | keyword h hw =>
      have hl := hr.lexeme_eq h
      split <;> simp_all [yields_consume, nameKeywords]
    | number h hr' | string h hr' | boolean h hr' | null h hr' =>
      have hl := hr.lexeme_eq h
      rw [hr'.unique hx]
      split <;> simp_all [yields_consume]

/-- A mark is no word. -/
theorem not_yields_word {c : Cursor} {mark : String} (hs : s.At c)
    (hm : s.lexeme = .punctuator mark) : ¬ Yields (word s) node t := by
  rw [yields_word hs]
  rintro ⟨-, e, he, -⟩
  have hr := hs.reads
  rw [hm] at hr
  cases he with
  | name h | keyword h _ | number h _ | string h _ | boolean h _ | null h _ =>
    cases hr.lexeme_eq h

/-- **The first token tells the operands apart.** -/
theorem yields_primary {c : Cursor} (hs : s.At c) :
    Yields (primary limits inner s) node t ↔
      Yields (group inner s) node t ∨ Yields (array limits inner s) node t ∨
      Yields (object limits inner s) node t ∨
      (s.lexeme = .punctuator "/" ∨ s.lexeme = .punctuator "/=") ∧ Yields (regex s) node t ∨
      Yields (word s) node t := by
  simp only [primary, yields_ite, State.at?_iff, Bool.or_eq_true]
  constructor
  · rintro (⟨-, h⟩ | ⟨-, ⟨-, h⟩ | ⟨-, ⟨-, h⟩ | ⟨-, ⟨hm, h⟩ | ⟨-, h⟩⟩⟩⟩)
    · exact .inl h
    · exact .inr (.inl h)
    · exact .inr (.inr (.inl h))
    · exact .inr (.inr (.inr (.inl ⟨hm, h⟩)))
    · exact .inr (.inr (.inr (.inr h)))
  · rintro (h | h | h | ⟨hm, h⟩ | h)
    · exact .inl ⟨(yields_group.1 h).1, h⟩
    · have hl := (yields_array.1 h).1
      simp [hl, h]
    · have hl := (yields_object.1 h).1
      simp [hl, h]
    · rcases hm with hm | hm <;> simp [hm, h]
    · have hn : ∀ mark, s.lexeme ≠ .punctuator mark := fun _ hm => not_yields_word hs hm h
      simp [hn, h]

/-- Any name may stand behind a point, also a reserved one. -/
theorem yields_memberName {e : Expr} :
    Yields (memberName s) e t ↔
      s.lexeme.isName = true ∧ e = .identifier s.lexeme.text ∧ t.At s.after := by
  simp only [memberName, yields_next_bind, yields_dite, yields_pure, not_yields_throw]
  constructor
  · rintro ⟨u, _, hu, ⟨hn, rfl, rfl⟩ | ⟨_, ⟨⟩⟩⟩
    exact ⟨hn, rfl, hu⟩
  · rintro ⟨hn, rfl, ht⟩
    exact ⟨t, ht.1, ht, .inl ⟨hn, rfl, rfl⟩⟩

/-- Behind an argument the list is closed, or goes on behind a comma with another one. -/
theorem yields_argumentList {r : List Expr × Nat} :
    Yields (argumentList inner s) r t ↔ ∃ e u, Yields (inner s) e u ∧
      (u.lexeme = .punctuator ")" ∧ t.At u.after ∧ r = ([e.expr], e.height) ∨
        u.lexeme = .punctuator "," ∧ ∃ v later, v.At u.after ∧
          Yields (argumentList inner v) later t ∧
          r = (e.expr :: later.1, max e.height later.2)) := by
  rw [argumentList]
  simp only [yields_ite, yields_bind, yields_expect, yields_pure, Reached.value_weaken,
    Reached.state_weaken, Reached.value_map, Reached.state_map, State.at?_iff, exists_prop]
  constructor
  · rintro ⟨e, u, he, ⟨hu, _, v, ⟨-, hv⟩, rfl, rfl⟩ |
      ⟨-, _, v, ⟨hu, hv⟩, later, w, hl, rfl, rfl⟩⟩
    · exact ⟨e, u, he, .inl ⟨hu, hv, rfl⟩⟩
    · exact ⟨e, u, he, .inr ⟨hu, v, later, hv, hl, rfl⟩⟩
  · rintro ⟨e, u, he, ⟨hu, ht, rfl⟩ | ⟨hu, v, later, hv, hl, rfl⟩⟩
    · exact ⟨e, u, he, .inl ⟨hu, (), t, ⟨hu, ht⟩, rfl, rfl⟩⟩
    · have hne : u.lexeme ≠ .punctuator ")" := by rw [hu]; simp
      exact ⟨e, u, he, .inr ⟨hne, (), v, ⟨hu, hv⟩, later, t, hl, rfl, rfl⟩⟩

/-- Only the empty list of arguments has none: no comma comes before the closing mark. -/
theorem yields_arguments {r : List Expr × Nat} :
    Yields (arguments inner s) r t ↔ s.lexeme = .punctuator "(" ∧ ∃ u : State, u.At s.after ∧
      (u.lexeme = .punctuator ")" ∧ t.At u.after ∧ r = ([], 0) ∨
        u.lexeme ≠ .punctuator ")" ∧ Yields (argumentList inner u) r t) := by
  simp only [arguments, yields_ite, yields_bind, yields_expect, yields_pure, Reached.value_weaken,
    Reached.state_weaken, Reached.value_map, Reached.state_map, State.at?_iff, exists_prop]
  constructor
  · rintro ⟨_, u, ⟨hs, hu⟩, ⟨hc, _, v, ⟨-, hv⟩, rfl, rfl⟩ | ⟨hc, r', v, hr, rfl, rfl⟩⟩
    · exact ⟨hs, u, hu, .inl ⟨hc, hv, rfl⟩⟩
    · exact ⟨hs, u, hu, .inr ⟨hc, hr⟩⟩
  · rintro ⟨hs, u, hu, ⟨hc, ht, rfl⟩ | ⟨hc, hr⟩⟩
    · exact ⟨(), u, ⟨hs, hu⟩, .inl ⟨hc, (), t, ⟨hc, ht⟩, rfl, rfl⟩⟩
    · exact ⟨(), u, ⟨hs, hu⟩, .inr ⟨hc, r, t, hr, rfl, rfl⟩⟩

/-- **What follows an operand is taken in one by one**: a member by name, a call or a computed
member, each making a higher operand; anything else ends it. -/
theorem yields_accesses {r : Node} :
    Yields (accesses limits inner node s) r t ↔
      s.lexeme = .punctuator "." ∧ (∃ u v : State, u.At s.after ∧ u.lexeme.isName = true ∧
        v.At u.after ∧ node.height < limits.height ∧
        Yields (accesses limits inner
          ⟨.member node.expr (.identifier u.lexeme.text) false, node.height + 1⟩ v) r t) ∨
      s.lexeme = .punctuator "(" ∧ (∃ args u, Yields (arguments inner s) args u ∧
        max node.height args.2 < limits.height ∧
        Yields (accesses limits inner
          ⟨.call node.expr args.1, max node.height args.2 + 1⟩ u) r t) ∨
      s.lexeme = .punctuator "[" ∧ (∃ (u v w : State) (e : Node), u.At s.after ∧
        Yields (inner u) e v ∧ v.lexeme = .punctuator "]" ∧ w.At v.after ∧
        max node.height e.height < limits.height ∧
        Yields (accesses limits inner
          ⟨.member node.expr e.expr true, max node.height e.height + 1⟩ w) r t) ∨
      s.lexeme ≠ .punctuator "." ∧ s.lexeme ≠ .punctuator "(" ∧ s.lexeme ≠ .punctuator "[" ∧
        node = r ∧ s = t := by
  rw [accesses]
  simp only [yields_ite, yields_bind, yields_expect, yields_pure, yields_node_bind,
    yields_memberName, yields_expression, Reached.value_weaken, Reached.state_weaken,
    State.at?_iff, exists_prop]
  constructor
  · rintro (⟨-, _, u, ⟨hs, hu⟩, e, v, ⟨hn, rfl, hv⟩, hh, e', w, hw, rfl, rfl⟩ |
      ⟨hd, ⟨hs, args, u, ha, hh, e', w, hw, rfl, rfl⟩ |
      ⟨hp, ⟨-, _, u, ⟨hs, hu⟩, e, v, ⟨he, -⟩, _, w, ⟨hc, hw⟩, hh, e', x, hx, rfl, rfl⟩ |
      ⟨hb, rfl, rfl⟩⟩⟩)
    · exact .inl ⟨hs, u, v, hu, hn, hv, hh, hw⟩
    · exact .inr (.inl ⟨hs, args, u, ha, hh, hw⟩)
    · exact .inr (.inr (.inl ⟨hs, u, v, w, e, hu, he, hc, hw, hh, hx⟩))
    · exact .inr (.inr (.inr ⟨hd, hp, hb, rfl, rfl⟩))
  · rintro (⟨hs, u, v, hu, hn, hv, hh, hw⟩ | ⟨hs, args, u, ha, hh, hw⟩ |
      ⟨hs, u, v, w, e, hu, he, hc, hw, hh, hx⟩ | ⟨hd, hp, hb, rfl, rfl⟩)
    · exact .inl ⟨hs, (), u, ⟨hs, hu⟩, _, v, ⟨hn, rfl, hv⟩, hh, r, t, hw, rfl, rfl⟩
    · have hne : s.lexeme ≠ .punctuator "." := by rw [hs]; simp
      exact .inr ⟨hne, .inl ⟨hs, args, u, ha, hh, r, t, hw, rfl, rfl⟩⟩
    · have hd : s.lexeme ≠ .punctuator "." := by rw [hs]; simp
      have hp : s.lexeme ≠ .punctuator "(" := by rw [hs]; simp
      have hne : v.lexeme ≠ .punctuator "," := by rw [hc]; simp
      exact .inr ⟨hd, .inr ⟨hp, .inl ⟨hs, (), u, ⟨hs, hu⟩, e, v, ⟨he, hne⟩, (), w, ⟨hc, hw⟩, hh,
        r, t, hx, rfl, rfl⟩⟩⟩
    · exact .inr ⟨hd, .inr ⟨hp, .inr ⟨hb, rfl, rfl⟩⟩⟩

/-- **An operand** is a primary expression with what follows it, and no increment. -/
theorem yields_operand :
    Yields (operand limits inner s) node t ↔ ∃ first u, Yields (primary limits inner s) first u ∧
      Yields (accesses limits inner first u) node t ∧ t.lexeme ≠ .punctuator "++" ∧
      t.lexeme ≠ .punctuator "--" := by
  simp only [operand, yields_bind, yields_ite, not_yields_throw_bind, and_false, false_or,
    yields_pure, Reached.value_weaken, Reached.state_weaken, Bool.or_eq_true, State.at?_iff,
    not_or, exists_prop]
  constructor
  · rintro ⟨first, u, hf, e, v, he, ⟨hi, hd⟩, rfl, rfl⟩
    exact ⟨first, u, hf, he, hi, hd⟩
  · rintro ⟨first, u, hf, he, hi, hd⟩
    exact ⟨first, u, hf, node, t, he, ⟨hi, hd⟩, rfl, rfl⟩

end Parser

end ChartScript
