import ChartScript.Proofs.Grammar.Writing
import ChartScript.Proofs.Token.Seam

/-!
# Proofs/Grammar/Walk — the tokens that an expression consumes

A slash begins a regular expression where an operand is due, and divides elsewhere.  What is due is
told by the token in front (`Expectation.after`), so a text is cut into tokens in one way, regular
expressions included (`Walk`).  A walk goes over to another text when the part behind it is replaced
(`Walk.replace`), or the layout in front of it (`Walk.of_skipLayout`).
-/

namespace ChartScript

open Text

/-- What comes next within an expression. -/
inductive Expectation where
  /-- An operand, a key, or what closes a list before it has one. -/
  | operand
  /-- The name of a member. -/
  | name
  /-- An operator, a mark behind an operand, or the end. -/
  | operator
  deriving DecidableEq, Repr

/-- What is due behind a token.  Whatever names a member, an operator is due behind it. -/
def Expectation.after (due : Expectation) (l : Lexeme) : Expectation :=
  match due, l with
  | .name, _ => .operator
  | _, .punctuator mark =>
    if mark = "." then .name
    else if mark = ")" ∨ mark = "]" ∨ mark = "\x7d" then .operator
    else .operand
  | _, .keyword word => if word = "if" ∨ word = "this" then .operator else .operand
  | _, _ => .operator

/-- Whether a lexeme begins with a slash. -/
def Lexeme.isSlash : Lexeme → Bool
  | .punctuator mark => mark == "/" || mark == "/="
  | _ => false

/-- A token that is consumed, and the text that it is written as. -/
structure Terminal where
  lexeme : Lexeme
  text : String

/-- What is due behind some tokens. -/
def Expectation.behind (due : Expectation) (ts : List Terminal) : Expectation :=
  ts.foldl (fun due t => due.after t.lexeme) due

theorem Expectation.behind_append (due : Expectation) (ts us : List Terminal) :
    due.behind (ts ++ us) = (due.behind ts).behind us := List.foldl_append

variable [Externals]

/-- **The token that comes next** where `due` is: a slash begins a regular expression where an
operand is due. -/
inductive Consumes (due : Expectation) (c : Cursor) : Terminal → Cursor → Prop where
  | plain {d : Cursor} {l : Lexeme} {raw : String} (h : c.Reads l d) (hr : c.Spells raw d)
    (hl : l.isEnd = false) (hs : due = .operand → l.isSlash = false) : Consumes due c ⟨l, raw⟩ d
  | regex {d : Cursor} {pattern flags raw : String} (hdue : due = .operand)
    (h : c.ReadsRegex pattern flags d) (hr : c.Spells raw d) :
    Consumes due c ⟨.regex pattern flags, raw⟩ d

/-- **The tokens between two places**, where `due` is at the first one. -/
inductive Walk : Expectation → Cursor → List Terminal → Cursor → Prop where
  | nil {due : Expectation} {c : Cursor} : Walk due c [] c
  | cons {due : Expectation} {b c d : Cursor} {t : Terminal} {ts : List Terminal}
    (h : Consumes due c t b) (later : Walk (due.after t.lexeme) b ts d) : Walk due c (t :: ts) d

variable {due : Expectation} {b c c' d d' p : Cursor} {t t' : Terminal} {ts us : List Terminal}
  {l : Lexeme} {raw pattern flags : String} {rest x : List Char}

/-! ## One token -/

namespace Cursor

theorem ReadsRegex.unique {pattern' flags' : String} (h : c.ReadsRegex pattern flags d)
    (h' : c.ReadsRegex pattern' flags' d') : pattern = pattern' ∧ flags = flags' ∧ d = d' := by
  obtain ⟨_, _, h⟩ := h
  obtain ⟨_, _, h'⟩ := h'
  rw [h] at h'
  cases h'
  exact ⟨rfl, rfl, rfl⟩

/-- A regular expression begins with a slash, and a scanner of tokens reads a slash there. -/
theorem ReadsRegex.exists_slash (h : c.ReadsRegex pattern flags d) :
    ∃ mark b, c.Reads (.punctuator mark) b ∧ (mark = "/" ∨ mark = "/=") := by
  obtain ⟨rest, hread, -⟩ := readsRegex_iff.1 h
  obtain ⟨cs, -, -, -, hcs, -⟩ := Scan.regexLiteral_eq_ok_iff.1 hread
  exact Grammar.exists_reads_slash hcs

/-- A lexeme that is read is no regular expression. -/
theorem Reads.ne_regex (h : c.Reads l d) (pattern flags : String) : l ≠ .regex pattern flags := by
  rintro rfl
  obtain ⟨rest, hread, -⟩ := reads_iff.1 h
  exact Scan.lexeme_ne_regex hread

/-- Where a regular expression begins, no other token is read. -/
theorem ReadsRegex.isSlash (h : c.ReadsRegex pattern flags d) (hl : c.Reads l d') :
    l.isSlash = true := by
  obtain ⟨mark, b, hb, hmark⟩ := h.exists_slash
  rw [hl.lexeme_eq hb]
  rcases hmark with rfl | rfl <;> rfl

end Cursor

/-- **What is due and the place tell the token.** -/
theorem Consumes.unique (h : Consumes due c t d) (h' : Consumes due c t' d') : t = t' ∧ d = d' := by
  cases h with
  | plain h hr hl hs =>
    cases h' with
    | plain h' hr' _ _ =>
      obtain ⟨rfl, rfl⟩ := h.unique h'
      exact ⟨by rw [hr.unique hr'], rfl⟩
    | regex hdue h' _ =>
      have := h'.isSlash h
      rw [hs hdue] at this
      cases this
  | regex hdue h hr =>
    cases h' with
    | plain h' _ _ hs' =>
      have := h.isSlash h'
      rw [hs' hdue] at this
      cases this
    | regex _ h' hr' =>
      obtain ⟨rfl, rfl, rfl⟩ := h.unique h'
      exact ⟨by rw [hr.unique hr'], rfl⟩

theorem Consumes.spells (h : Consumes due c t d) : c.Spells t.text d := by
  cases h with
  | plain _ hr _ _ => exact hr
  | regex _ _ hr => exact hr

/-- A token that is no regular expression is read as a lexeme. -/
theorem Consumes.reads (h : Consumes due c ⟨l, raw⟩ d)
    (hl : ∀ pattern flags, l ≠ .regex pattern flags) : c.Reads l d := by
  cases h with
  | plain h _ _ _ => exact h
  | regex _ _ _ => exact absurd rfl (hl _ _)

theorem Consumes.readsRegex (h : Consumes due c ⟨.regex pattern flags, raw⟩ d) :
    c.ReadsRegex pattern flags d := by
  cases h with
  | plain h _ _ _ => exact absurd rfl (h.ne_regex pattern flags)
  | regex _ h _ => exact h

/-- A token takes some characters. -/
theorem Consumes.length_lt (h : Consumes due c t d) :
    d.chars.length < c.skipLayout.chars.length := by
  cases h with
  | plain h _ hl _ =>
    obtain ⟨rest, hread, rfl⟩ := Cursor.reads_iff.1 h
    exact Scan.length_lexeme_of_not_isEnd hread hl
  | regex _ h _ =>
    obtain ⟨rest, hread, rfl⟩ := Cursor.readsRegex_iff.1 h
    exact Scan.length_regexLiteral hread

/-- Nothing is consumed at the end. -/
theorem Consumes.skipLayout_ne_nil (h : Consumes due c t d) : c.skipLayout.chars ≠ [] :=
  List.ne_nil_of_length_pos (Nat.zero_lt_of_lt h.length_lt)

/-- The text of a token begins with no layout. -/
theorem Consumes.text_head (h : Consumes due c t d) :
    ∃ y ys, t.text.toList = y :: ys ∧ isLayout y = false := by
  have hsplit : c.chars.dropWhile isLayout = t.text.toList ++ d.chars := h.spells
  have hlt : d.chars.length < (c.chars.dropWhile isLayout).length := h.length_lt
  cases htext : t.text.toList with
  | nil =>
    rw [hsplit, htext, List.nil_append] at hlt
    exact absurd hlt (Nat.lt_irrefl _)
  | cons y ys =>
    refine ⟨y, ys, rfl, ?_⟩
    have := List.head?_dropWhile_not isLayout c.chars
    rw [hsplit, htext] at this
    simpa using this

/-- In front of a token there is layout. -/
theorem Consumes.exists_layout (h : Consumes due c t d) :
    ∃ gap, (∀ y ∈ gap, isLayout y = true) ∧ c.chars = gap ++ (t.text.toList ++ d.chars) := by
  refine ⟨c.chars.takeWhile isLayout, fun _ hm => List.mem_takeWhile_imp hm, ?_⟩
  rw [← h.spells]
  exact List.takeWhile_append_dropWhile.symm

/-- **A token is consumed as well in front of what may replace what comes behind it.** -/
theorem Consumes.replace (h : Consumes due c t d) (hr : Scan.Replaces rest d.chars)
    (hc : c'.skipLayout.chars = t.text.toList ++ rest) :
    ∃ d', Consumes due c' t d' ∧ d'.chars = rest := by
  have hspells : ∀ {d'}, d'.chars = rest → c'.Spells t.text d' := fun hd => by
    unfold Cursor.Spells
    rw [hc, hd]
  cases h with
  | @plain d l raw h hraw hl hs =>
    obtain ⟨behind, hread, rfl⟩ := Cursor.reads_iff.1 h
    obtain ⟨taken, htaken, hmove⟩ := Scan.movable_lexeme hread hl
    obtain rfl : taken = raw.toList := List.append_cancel_right (htaken.symm.trans hraw)
    obtain ⟨d', hd, hrest⟩ := Cursor.exists_reads (hc ▸ hmove rest hr)
    exact ⟨d', .plain hd (hspells hrest) hl hs, hrest⟩
  | @regex d pattern flags raw hdue h hraw =>
    obtain ⟨behind, hread, rfl⟩ := Cursor.readsRegex_iff.1 h
    obtain ⟨taken, htaken, hmove⟩ := Scan.movable_regexLiteral hread
    obtain rfl : taken = raw.toList := List.append_cancel_right (htaken.symm.trans hraw)
    exact ⟨_, .regex hdue (Cursor.readsRegex_iff.2 ⟨rest, hc ▸ hmove rest hr, rfl⟩) (hspells rfl),
      rfl⟩

/-! ## Walks -/

theorem Walk.append_iff : Walk due c (ts ++ us) d ↔
    ∃ b, Walk due c ts b ∧ Walk (due.behind ts) b us d := by
  induction ts generalizing due c with
  | nil => exact ⟨fun h => ⟨c, .nil, h⟩, fun ⟨b, h, h'⟩ => by cases h; exact h'⟩
  | cons t ts ih =>
    constructor
    · intro h
      cases h with
      | cons h later =>
        obtain ⟨b, hb, hd⟩ := ih.1 later
        exact ⟨b, .cons h hb, hd⟩
    · rintro ⟨b, hb, hd⟩
      cases hb with
      | cons h later => exact .cons h (ih.2 ⟨b, later, hd⟩)

/-- **A walk to the end goes through every place that is reached.** -/
theorem Walk.exists_later (h : Walk due c ts d) (hd : d.skipLayout.chars = [])
    (hp : Walk due c us p) : ∃ vs, ts = us ++ vs ∧ Walk (due.behind us) p vs d := by
  induction hp generalizing ts with
  | nil => exact ⟨ts, rfl, h⟩
  | cons hu _ ih =>
    cases h with
    | nil => exact absurd hd hu.skipLayout_ne_nil
    | cons ht later =>
      obtain ⟨rfl, rfl⟩ := ht.unique hu
      obtain ⟨vs, rfl, hvs⟩ := ih later
      exact ⟨vs, rfl, hvs⟩

/-- **A text is cut into tokens in one way.** -/
theorem Walk.unique (h : Walk due c ts d) (hd : d.skipLayout.chars = []) (h' : Walk due c us d')
    (hd' : d'.skipLayout.chars = []) : ts = us := by
  obtain ⟨vs, rfl, -⟩ := h.exists_later hd h'
  obtain ⟨ws, hws, -⟩ := h'.exists_later hd' h
  rw [List.append_assoc] at hws
  obtain ⟨rfl, -⟩ := List.append_eq_nil_iff.1 (List.append_right_eq_self.1 hws.symm)
  exact List.append_nil us

theorem Walk.suffix (h : Walk due c ts d) : d.chars <:+ c.chars := by
  induction h with
  | nil => exact List.suffix_refl _
  | @cons due b c d t ts h _ ih =>
    refine ih.trans (List.IsSuffix.trans ?_ (List.dropWhile_suffix isLayout))
    exact ⟨t.text.toList, h.spells.symm⟩

/-- Behind a text, what may replace the rest may replace it. -/
theorem Scan.Replaces.append {rest' : List Char} (h : Replaces rest rest') (y : List Char) :
    Replaces (y ++ rest) (y ++ rest') := by
  cases y with
  | nil => exact h
  | cons y ys => exact .inl rfl

/-- **A walk goes over to a text in which the part behind it is replaced.** -/
theorem Walk.replace (h : Walk due c ts d) (hr : Scan.Replaces rest d.chars)
    (hc : c.chars = x ++ d.chars) (hc' : c'.chars = x ++ rest) :
    ∃ d', Walk due c' ts d' ∧ d'.chars = rest := by
  induction h generalizing c' x with
  | @nil due c =>
    obtain rfl : x = [] := by simpa using hc
    exact ⟨c', .nil, hc'⟩
  | @cons due b c d t ts h later ih =>
    obtain ⟨y, hy⟩ := later.suffix
    obtain ⟨z, zs, hz, hlayout⟩ := h.text_head
    obtain ⟨gap, hgap, hchars⟩ := h.exists_layout
    -- the text in front of `d` is some layout, the text of the token, and what lies behind it
    have hx : x = gap ++ (t.text.toList ++ y) := by
      refine List.append_cancel_right (hc.symm.trans ?_)
      rw [hchars, ← hy, List.append_assoc, List.append_assoc]
    have hskip : c'.skipLayout.chars = t.text.toList ++ (y ++ rest) := by
      refine Cursor.skipLayout_chars_append hgap (fun w hw => ?_) (by rw [hc', hx]; simp)
      rw [hz] at hw
      cases hw
      exact hlayout
    have hmove : Scan.Replaces (y ++ rest) b.chars := hy ▸ hr.append y
    obtain ⟨b', hb, hchars'⟩ := h.replace hmove hskip
    obtain ⟨d', hd, hrest⟩ := ih hr hy.symm hchars'
    exact ⟨d', .cons hb hd, hrest⟩

/-- **A walk goes over to a place with other layout in front.** -/
theorem Walk.of_skipLayout (h : Walk due c ts d) (hc : c'.skipLayout.chars = c.skipLayout.chars) :
    ∃ d', Walk due c' ts d' ∧ d'.skipLayout.chars = d.skipLayout.chars := by
  induction h generalizing c' with
  | nil => exact ⟨c', .nil, hc⟩
  | @cons due b c d t ts h _ ih =>
    obtain ⟨b', hb, hchars⟩ := h.replace (.inl rfl) (hc.trans h.spells)
    obtain ⟨d', hd, hend⟩ := @ih b' (congrArg (List.dropWhile isLayout) hchars)
    exact ⟨d', .cons hb hd, hend⟩

end ChartScript
