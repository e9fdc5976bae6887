import ChartScript.Expr.Parser.Basic
import ChartScript.Proofs.Grammar.Basic

/-!
# Proofs/Parser/Outcome — answers of the parser without their bounds

`Yields x a t` says that the computation `x` of the parser answers `a` and stops in the state `t`.
`State.At` ties a state to a place of the text, so that a token which the parser consumes is a
terminal of the grammar.  The lemmas here take a computation apart into its steps; for each part of
the parser, Parser/Operand and Parser/Operation then say once when it yields what.
-/

namespace ChartScript

namespace Parser

variable {α β γ : Type} {m n : Nat}

/-! ## States and places -/

section Places

variable [Externals]

/-- The lookahead of the state is the token at `c`. -/
def State.At (s : State) (c : Cursor) : Prop := ∃ h, State.ofCursor c = .ok ⟨s, h⟩

/-- The parser stands at a place when it has skipped the layout and read the token there. -/
theorem State.at_iff {s : State} {c : Cursor} :
    s.At c ↔ s.before = c.skipLayout ∧ c.Reads s.lexeme s.after := by
  rw [Cursor.reads_iff]
  unfold State.At State.ofCursor
  simp only
  split
  · next stop h => simp [h]
  · next l rest h =>
    obtain ⟨lexeme, before, after, advances⟩ := s
    constructor
    · rintro ⟨_, heq⟩
      cases heq
      exact ⟨rfl, rest, h, rfl⟩
    · rintro ⟨rfl, rest', h', rfl⟩
      obtain ⟨rfl, rfl⟩ := Prod.mk.inj (Except.ok.inj (h.symm.trans h'))
      exact ⟨c.length_skipLayout, rfl⟩

/-- The lookahead begins behind the layout. -/
theorem State.At.before_eq {s : State} {c : Cursor} (h : s.At c) : s.before = c.skipLayout :=
  (State.at_iff.1 h).1

/-- **The lookahead is a terminal.** -/
theorem State.At.reads {s : State} {c : Cursor} (h : s.At c) : c.Reads s.lexeme s.after :=
  (State.at_iff.1 h).2

/-- At a place there is one token. -/
theorem State.At.lexeme_eq {s : State} {c d : Cursor} {l : Lexeme} (h : s.At c)
    (hl : c.Reads l d) : s.lexeme = l := h.reads.lexeme_eq hl

/-- Behind a token there is one place. -/
theorem State.At.after_eq {s : State} {c d : Cursor} {l : Lexeme} (h : s.At c)
    (hl : c.Reads l d) : s.after = d := h.reads.place_eq hl

/-- **The text of the lookahead** is what the text spells between the places around it. -/
theorem State.At.spells {s : State} {c : Cursor} (h : s.At c) : c.Spells s.text s.after := by
  obtain ⟨rest, hl, ha⟩ := Cursor.reads_iff.1 h.reads
  have hw : rest <:+ c.skipLayout.chars := by
    have := Scan.within_lexeme c.skipLayout.chars
    rwa [hl] at this
  unfold State.text
  rw [h.before_eq, ← ha]
  exact Cursor.spells_moveTo hw

end Places

/-! ## Answers

`Reached` carries a bound on the size of the state, and `Yields` forgets it.  A computation of the
parser is a chain of steps, and the `simp` lemmas here take it apart one step at a time. -/

/-- The computation `x` answers `a` and stops in the state `t`. -/
def Yields (x : Parse (Reached n α)) (a : α) (t : State) : Prop :=
  ∃ h : t.size < n, x = .ok ⟨a, t, h⟩

/-- What is answered has consumed something. -/
theorem Yields.below {x : Parse (Reached n α)} {a : α} {t : State} (h : Yields x a t) :
    t.size < n := h.1

@[simp] theorem yields_pure {r : Reached n α} {a : α} {t : State} :
    Yields (pure r) a t ↔ r.value = a ∧ r.state = t := by
  constructor
  · rintro ⟨_, h⟩
    cases h
    exact ⟨rfl, rfl⟩
  · rintro ⟨rfl, rfl⟩
    exact ⟨r.below, rfl⟩

@[simp] theorem not_yields_throw {e : ParseError} {a : α} {t : State} :
    ¬ Yields (throw e : Parse (Reached n α)) a t := by
  rintro ⟨_, h⟩
  cases h

@[simp] theorem not_yields_throw_bind {e : ParseError} {f : γ → Parse (Reached n α)} {a : α}
    {t : State} : ¬ Yields ((throw e : Parse γ) >>= f) a t := by
  rintro ⟨_, h⟩
  cases h

@[simp] theorem yields_bind {x : Parse (Reached m α)} {f : Reached m α → Parse (Reached n β)}
    {b : β} {u : State} :
    Yields (x >>= f) b u ↔ ∃ a t, ∃ h : Yields x a t, Yields (f ⟨a, t, h.below⟩) b u := by
  constructor
  · rintro ⟨h, hx⟩
    cases x with
    | error e => cases hx
    | ok r => exact ⟨r.value, r.state, ⟨r.below, rfl⟩, h, hx⟩
  · rintro ⟨a, t, ⟨_, rfl⟩, h', hf⟩
    exact ⟨h', hf⟩

theorem bind_eq_ok_iff {x : Parse γ} {f : γ → Parse α} {a : α} :
    x >>= f = .ok a ↔ ∃ b, x = .ok b ∧ f b = .ok a := by
  cases x with
  | error e =>
    refine ⟨(nomatch ·), fun ⟨_, h, _⟩ => ?_⟩
    cases h
  | ok b =>
    refine ⟨fun h => ⟨b, rfl, h⟩, fun ⟨b', hb, h⟩ => ?_⟩
    cases hb
    exact h

theorem yields_except_bind {x : Parse γ} {f : γ → Parse (Reached n β)} {b : β} {u : State} :
    Yields (x >>= f) b u ↔ ∃ a, x = .ok a ∧ Yields (f a) b u := by
  unfold Yields
  simp only [bind_eq_ok_iff]
  constructor
  · rintro ⟨h, a, hx, hf⟩
    exact ⟨a, hx, h, hf⟩
  · rintro ⟨a, hx, h, hf⟩
    exact ⟨h, a, hx, hf⟩

@[simp] theorem yields_ite {c : Prop} [Decidable c] {x y : Parse (Reached n α)} {a : α}
    {t : State} : Yields (if c then x else y) a t ↔ c ∧ Yields x a t ∨ ¬ c ∧ Yields y a t := by
  split <;> simp [*]

@[simp] theorem yields_dite {c : Prop} [Decidable c] {x : c → Parse (Reached n α)}
    {y : ¬ c → Parse (Reached n α)} {a : α} {t : State} :
    Yields (if h : c then x h else y h) a t
      ↔ (∃ h : c, Yields (x h) a t) ∨ ∃ h : ¬ c, Yields (y h) a t := by
  split <;> simp [*]

@[simp] theorem Reached.value_weaken (r : Reached m α) (h : m ≤ n) :
    (r.weaken h).value = r.value := rfl

@[simp] theorem Reached.state_weaken (r : Reached m α) (h : m ≤ n) :
    (r.weaken h).state = r.state := rfl

@[simp] theorem Reached.value_map (f : α → β) (r : Reached m α) :
    (r.map f).value = f r.value := rfl

@[simp] theorem Reached.state_map (f : α → β) (r : Reached m α) :
    (r.map f).state = r.state := rfl

/-- A node is built when it is not too high. -/
theorem node_eq_ok_iff {limits : Limits} {s : State} {e : Expr} {below : Nat} {node : Node} :
    limits.node s e below = .ok node ↔ below < limits.height ∧ node = ⟨e, below + 1⟩ := by
  unfold Limits.node
  split
  · next h =>
    refine ⟨(nomatch ·), fun h' => ?_⟩
    omega
  · next h =>
    refine ⟨fun h' => ⟨by omega, (Except.ok.inj h').symm⟩, fun h' => ?_⟩
    rw [h'.2]
    rfl

/-- A node that is built is one higher than what is below it. -/
@[simp] theorem yields_node_bind {limits : Limits} {s : State} {e : Expr} {below : Nat}
    {f : Node → Parse (Reached n β)} {b : β} {u : State} :
    Yields (limits.node s e below >>= f) b u
      ↔ below < limits.height ∧ Yields (f ⟨e, below + 1⟩) b u := by
  simp only [yields_except_bind, node_eq_ok_iff, and_assoc, exists_and_left, exists_eq_left]

@[simp] theorem State.at?_iff {s : State} {mark : String} :
    s.at? mark = true ↔ s.lexeme = .punctuator mark := by
  unfold State.at?
  cases s.lexeme <;> simp [Lexeme.isPunctuator]

/-! ## Tokens -/

variable [Externals]

/-- **Going on from a place** reads the token there. -/
@[simp] theorem yields_ofCursor_bind {c : Cursor}
    {f : { t : State // t.size ≤ c.chars.length } → Parse (Reached n β)} {b : β} {u : State} :
    Yields (State.ofCursor c >>= f) b u ↔ ∃ t h, t.At c ∧ Yields (f ⟨t, h⟩) b u := by
  constructor
  · rintro ⟨h, hx⟩
    cases hs : State.ofCursor c with
    | error e => rw [hs] at hx; cases hx
    | ok r => rw [hs] at hx; exact ⟨r.1, r.2, ⟨r.2, hs⟩, h, hx⟩
  · rintro ⟨t, h, ⟨_, ht⟩, h', hf⟩
    rw [ht]
    exact ⟨h', hf⟩

@[simp] theorem yields_next_bind {s : State}
    {f : { t : State // t.size ≤ s.after.chars.length } → Parse (Reached n β)} {b : β}
    {u : State} :
    Yields (s.next >>= f) b u ↔ ∃ t h, t.At s.after ∧ Yields (f ⟨t, h⟩) b u :=
  yields_ofCursor_bind

/-- A mark that is wanted is consumed when it is there. -/
theorem yields_expect {s : State} {mark : String} {a : Unit} {t : State} :
    Yields (s.expect mark) a t ↔ s.lexeme = .punctuator mark ∧ t.At s.after := by
  unfold State.expect
  simp only [yields_next_bind, yields_dite, not_yields_throw, yields_pure, State.at?_iff]
  constructor
  · rintro ⟨u, _, hu, ⟨hs, -, rfl⟩ | ⟨_, ⟨⟩⟩⟩
    exact ⟨hs, hu⟩
  · rintro ⟨hs, ht⟩
    exact ⟨t, ht.1, ht, .inl ⟨hs, trivial, rfl⟩⟩

/-- The token is consumed, and the parser stands behind it. -/
theorem yields_consume {s : State} {h : s.lexeme.isEnd = false} {a b : α} {t : State} :
    Yields (s.consume h a) b t ↔ a = b ∧ t.At s.after := by
  unfold State.consume
  simp only [yields_next_bind, yields_pure]
  constructor
  · rintro ⟨u, _, hu, hab, rfl⟩
    exact ⟨hab, hu⟩
  · rintro ⟨hab, ht⟩
    exact ⟨t, ht.1, ht, hab, rfl⟩

end Parser

/-- **Where a token can be read there is a state.** -/
theorem Cursor.Reads.exists_at [Externals] {c d : Cursor} {l : Lexeme} (h : c.Reads l d) :
    ∃ s : Parser.State, s.At c ∧ s.lexeme = l ∧ s.after = d := by
  obtain ⟨rest, hl, rfl⟩ := Cursor.reads_iff.1 h
  refine ⟨⟨l, c.skipLayout, c.skipLayout.moveTo rest, Scan.length_lexeme_of_not_isEnd hl⟩, ?_⟩
  exact ⟨Parser.State.at_iff.2 ⟨rfl, h⟩, rfl, rfl⟩

end ChartScript
