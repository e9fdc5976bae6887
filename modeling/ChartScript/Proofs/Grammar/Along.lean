import ChartScript.Proofs.Grammar.Walk

/-!
# Proofs/Grammar/Along — a phrase depends on its tokens only

Each nonterminal consumes the tokens of a walk, and it derives the same tree wherever a walk
consumes the same ones (`traced_conditional`).  An increment or a decrement behind an operand is
looked for but not consumed, so none may come behind the walk.
-/

namespace ChartScript

namespace Grammar

variable [Externals]

/-- Neither an increment nor a decrement comes next. -/
def Clear (c : Cursor) : Prop :=
  ∀ d, ¬ c.Reads (.punctuator "++") d ∧ ¬ c.Reads (.punctuator "--") d

/-- **The tokens from `c` to `d` make `P` hold** of any two places between which they stand. -/
def Along (due due' : Expectation) (P : Cursor → Cursor → Prop) (c d : Cursor) : Prop :=
  ∃ ts, Walk due c ts d ∧ due.behind ts = due' ∧ ∀ c' d', Walk due c' ts d' → Clear d' → P c' d'

/-- Whatever `G` derives, it derives along its tokens. -/
def Traced (G : Phrase) : Prop :=
  ∀ ⦃c d : Cursor⦄ ⦃e : Expr⦄, G c e d → Along .operand .operator (G · e ·) c d

variable {G : Phrase} {due mid due' : Expectation} {P Q : Cursor → Cursor → Prop}
  {a b c d f : Cursor} {e : Expr} {l : Lexeme} {raw : String}

/-- A place with any other token than an increment is clear. -/
theorem clear_of_reads (h : c.Reads l d) (hi : l ≠ .punctuator "++") (hd : l ≠ .punctuator "--") :
    Clear c := fun _ => ⟨fun hr => hi (h.lexeme_eq hr), fun hr => hd (h.lexeme_eq hr)⟩

/-! ## Putting tokens together -/

/-- A phrase may be seen as another one, where what follows is clear. -/
theorem Along.imp (h : Along due due' P c d) (hPQ : ∀ {c d}, Clear d → P c d → Q c d) :
    Along due due' Q c d := by
  obtain ⟨ts, hw, hdue, hP⟩ := h
  exact ⟨ts, hw, hdue, fun c' d' hw' hd => hPQ hd (hP c' d' hw' hd)⟩

theorem Along.mono (h : Along due due' P c d) (hPQ : ∀ {c d}, P c d → Q c d) :
    Along due due' Q c d := h.imp fun _ => hPQ

/-- A token is spelled somehow. -/
theorem exists_spells (h : c.Reads l d) : ∃ raw, c.Spells raw d := by
  obtain ⟨rest, hread, rfl⟩ := Cursor.reads_iff.1 h
  have hrest : rest <:+ c.skipLayout.chars := by
    have := Scan.within_lexeme c.skipLayout.chars
    rw [hread] at this
    exact this
  exact ⟨_, Cursor.spells_moveTo hrest⟩

/-- One token and its text. -/
theorem along_spelled (h : c.Reads l d) (hr : c.Spells raw d) (hl : l.isEnd = false)
    (hs : due = .operand → l.isSlash = false) :
    Along due (due.after l) (fun c d => c.Reads l d ∧ c.Spells raw d) c d := by
  refine ⟨[⟨l, raw⟩], .cons (.plain h hr hl hs) .nil, rfl, fun c' d' hw _ => ?_⟩
  cases hw with
  | cons hfirst later =>
    cases later
    exact ⟨hfirst.reads h.ne_regex, hfirst.spells⟩

/-- One token. -/
theorem along_reads (h : c.Reads l d) (hl : l.isEnd = false)
    (hs : due = .operand → l.isSlash = false) :
    Along due (due.after l) (fun c d => c.Reads l d) c d := by
  obtain ⟨raw, hr⟩ := exists_spells h
  exact (along_spelled h hr hl hs).mono And.left

/-- A token that is written as a mark, where it is no slash. -/
theorem along_mark {mark : String} (h : c.Reads (.punctuator mark) d)
    (hm : (due = .operand → Lexeme.isSlash (.punctuator mark) = false) ∧
      due.after (.punctuator mark) = due') :
    Along due due' (fun c d => c.Reads (.punctuator mark) d) c d :=
  hm.2 ▸ along_reads h rfl hm.1

/-- **One part behind another.**  What comes behind the first part must be no increment. -/
theorem Along.behind (h : Along due mid P c b) (h' : Along mid due' Q b d)
    (hclear : ∀ {b d}, Q b d → Clear b) :
    Along due due' (fun c d => ∃ b, P c b ∧ Q b d) c d := by
  obtain ⟨ts, hw, rfl, hP⟩ := h
  obtain ⟨us, hw', rfl, hQ⟩ := h'
  refine ⟨ts ++ us, Walk.append_iff.2 ⟨b, hw, hw'⟩, Expectation.behind_append _ _ _,
    fun c' d' hwalk hd => ?_⟩
  obtain ⟨b', hb, hb'⟩ := Walk.append_iff.1 hwalk
  have hq := hQ b' d' hb' hd
  exact ⟨b', hP c' b' hb (hclear hq), hq⟩

/-- A part behind a token. -/
theorem Along.read (h' : Along mid due' Q b d) (h : c.Reads l b) (hl : l.isEnd = false)
    (hs : due = .operand → l.isSlash = false) (hdue : due.after l = mid) :
    Along due due' (fun c d => ∃ b, c.Reads l b ∧ Q b d) c d := by
  obtain ⟨raw, hr⟩ := exists_spells h
  obtain ⟨us, hw', rfl, hQ⟩ := h'
  subst hdue
  refine ⟨⟨l, raw⟩ :: us, .cons (.plain h hr hl hs) hw', rfl, fun c' d' hwalk hd => ?_⟩
  cases hwalk with
  | cons hfirst later => exact ⟨_, hfirst.reads h.ne_regex, hQ _ d' later hd⟩

/-- A part behind a mark. -/
theorem Along.mark {mark : String} (h' : Along mid due' Q b d) (h : c.Reads (.punctuator mark) b)
    (hm : (due = .operand → Lexeme.isSlash (.punctuator mark) = false) ∧
      due.after (.punctuator mark) = mid) :
    Along due due' (fun c d => ∃ b, c.Reads (.punctuator mark) b ∧ Q b d) c d :=
  h'.read h rfl hm.1 hm.2

/-- A mark other than an increment makes its place clear. -/
theorem clear_of_mark {mark : String} {R : Cursor → Prop} (hm : mark ≠ "++" ∧ mark ≠ "--")
    (h : ∃ b, c.Reads (.punctuator mark) b ∧ R b) : Clear c := by
  obtain ⟨b, h, -⟩ := h
  exact clear_of_reads h (by simpa using hm.1) (by simpa using hm.2)

/-! ## Operands -/

omit [Externals] in
/-- Behind a word an operator is due, unless the word is one itself. -/
theorem after_ofName {l : Lexeme} (hl : l.isName = true) :
    Expectation.operand.after l = .operand ∨ Expectation.operand.after l = .operator := by
  cases l with
  | keyword word =>
    by_cases hw : word = "if" ∨ word = "this"
    · exact .inr (if_pos hw)
    · exact .inl (if_neg hw)
  | identifier | boolean | null => exact .inr rfl
  | _ => cases hl

theorem traced_word : Traced Word := by
  intro c d e h
  cases h with
  | name h => exact (along_reads h rfl fun _ => rfl).mono .name
  | keyword h hw =>
    rcases hw with rfl | rfl
    · exact (along_reads h rfl fun _ => rfl).mono fun h => .keyword h (.inl rfl)
    · exact (along_reads h rfl fun _ => rfl).mono fun h => .keyword h (.inr rfl)
  | number h hr =>
    exact (along_spelled h hr rfl fun _ => rfl).mono fun h => .number h.1 h.2
  | string h hr =>
    exact (along_spelled h hr rfl fun _ => rfl).mono fun h => .string h.1 h.2
  | boolean h hr =>
    exact (along_spelled h hr rfl fun _ => rfl).mono fun h => .boolean h.1 h.2
  | null h hr => exact (along_spelled h hr rfl fun _ => rfl).mono fun h => .null h.1 h.2

/-- Behind a key that is a keyword an operand would be due, but a colon comes. -/
theorem Key.along {key : Expr} (h : Key c key d) :
    ∃ due, due ≠ .name ∧ Along .operand due (Key · key ·) c d := by
  cases h with
  | @name _ _ l h hl =>
    refine ⟨_, ?_, (along_reads h (Parser.isEnd_of_isName hl) fun _ => ?_).mono (.name · hl)⟩
    · rcases after_ofName hl with hdue | hdue <;> rw [hdue] <;> simp
    · cases l <;> first | rfl | cases hl
  | number h hr =>
    exact ⟨.operator, by simp, (along_spelled h hr rfl fun _ => rfl).mono fun h => .number h.1 h.2⟩
  | string h hr =>
    exact ⟨.operator, by simp, (along_spelled h hr rfl fun _ => rfl).mono fun h => .string h.1 h.2⟩

/-- A regular expression is one token. -/
theorem along_regex {pattern flags : String} (hx : a.ReadsRegex pattern flags d)
    (hr : a.Spells raw d) :
    Along .operand .operator (Primary G · (.literal (.regex pattern flags) raw) ·) a d := by
  refine ⟨[⟨.regex pattern flags, raw⟩], .cons (.regex rfl hx hr) .nil, rfl, fun c' d' hw _ => ?_⟩
  cases hw with
  | cons hfirst later =>
    cases later
    obtain ⟨mark, b, hb, hmark⟩ := hfirst.readsRegex.exists_slash
    exact .regex hb hmark hfirst.readsRegex hfirst.spells

/-- **The slots of an array depend on their tokens only**, by induction on the derivation. -/
theorem Slots.along (hG : Traced G) {slots : List (Option Expr)} (h : Slots G c slots d) :
    Along .operand .operator (Slots G · slots ·) c d := by
  induction h with
  | close h => exact (along_mark h (by decide)).mono .close
  | hole h _ ih => exact (ih.mark h (by decide)).mono fun ⟨_, h, later⟩ => .hole h later
  | last element h =>
    refine ((hG element).behind (along_mark h (by decide)) fun h => ?_).mono
      fun ⟨_, he, h⟩ => .last he h
    exact clear_of_reads h (by simp) (by simp)
  | more element h _ ih =>
    exact ((hG element).behind (ih.mark h (by decide)) (clear_of_mark (by decide))).mono
      fun ⟨_, he, _, h, later⟩ => .more he h later

theorem Entry.along (hG : Traced G) {entry : Expr × Expr} (h : Entry G c entry d) :
    Along .operand .operator (Entry G · entry ·) c d := by
  obtain ⟨hk, h, hv⟩ := h
  obtain ⟨due, hdue, hkey⟩ := hk.along
  have hcolon : due.after (.punctuator ":") = .operand := by
    cases due <;> first | exact absurd rfl hdue | rfl
  exact (hkey.behind ((hG hv).mark h ⟨fun _ => by decide, hcolon⟩) (clear_of_mark (by decide))).mono
    fun ⟨_, hk, _, h, hv⟩ => .mk hk h hv

/-- The entries of an object do too. -/
theorem Entries.along (hG : Traced G) {entries : List (Expr × Expr)} (h : Entries G c entries d) :
    Along .operand .operator (Entries G · entries ·) c d := by
  induction h with
  | close h => exact (along_mark h (by decide)).mono .close
  | last first h =>
    refine ((first.along hG).behind (along_mark h (by decide)) fun h => ?_).mono
      fun ⟨_, hf, h⟩ => .last hf h
    exact clear_of_reads h (by simp) (by simp)
  | more first h _ ih =>
    exact ((first.along hG).behind (ih.mark h (by decide)) (clear_of_mark (by decide))).mono
      fun ⟨_, hf, _, h, later⟩ => .more hf h later

/-- So do arguments. -/
theorem ArgumentList.along (hG : Traced G) {es : List Expr} (h : ArgumentList G c es d) :
    Along .operand .operator (ArgumentList G · es ·) c d := by
  induction h with
  | last first h =>
    refine ((hG first).behind (along_mark h (by decide)) fun h => ?_).mono
      fun ⟨_, hf, h⟩ => .last hf h
    exact clear_of_reads h (by simp) (by simp)
  | more first h _ ih =>
    exact ((hG first).behind (ih.mark h (by decide)) (clear_of_mark (by decide))).mono
      fun ⟨_, hf, _, h, later⟩ => .more hf h later

theorem Arguments.along (hG : Traced G) {es : List Expr} (h : Arguments G c es d) :
    Along .operator .operator (Arguments G · es ·) c d := by
  cases h with
  | none h hd =>
    have hclose : Along .operand .operator _ _ _ := along_mark hd (by decide)
    exact (hclose.mark h (by decide)).mono fun ⟨_, h, hd⟩ => .none h hd
  | some h args => exact ((args.along hG).mark h (by decide)).mono fun ⟨_, h, args⟩ => .some h args

/-- **A primary expression depends on its tokens only** when the expressions in it do. -/
theorem traced_primary (hG : Traced G) : Traced (Primary G) := by
  intro c d e h
  cases h with
  | word h => exact (traced_word h).mono .word
  | regex _ _ hx hr => exact along_regex hx hr
  | group ho he hc =>
    refine (((hG he).behind (along_mark hc (by decide)) fun h => ?_).mark ho (by decide)).mono
      fun ⟨_, ho, _, he, hc⟩ => .group ho he hc
    exact clear_of_reads h (by simp) (by simp)
  | array ho hs => exact ((hs.along hG).mark ho (by decide)).mono fun ⟨_, ho, hs⟩ => .array ho hs
  | object ho hs hk =>
    exact ((hs.along hG).mark ho (by decide)).mono fun ⟨_, ho, hs⟩ => .object ho hs hk

/-- A chain does, access by access. -/
theorem traced_chain (hG : Traced G) : Traced (Chain G) := by
  intro c d e h
  induction h with
  | primary h => exact (traced_primary hG h).mono .primary
  | named _ hp h hl ih =>
    have hname : Along .name .operator _ _ _ := along_reads h (Parser.isEnd_of_isName hl) nofun
    exact (ih.behind (hname.mark hp (by decide)) (clear_of_mark (by decide))).mono
      fun ⟨_, he, _, hp, h⟩ => .named he hp h hl
  | computed _ ho hp hc ih =>
    refine (ih.behind (((hG hp).behind (along_mark hc (by decide)) fun h => ?_).mark ho (by decide))
      (clear_of_mark (by decide))).mono fun ⟨_, he, _, ho, _, hp, hc⟩ => .computed he ho hp hc
    exact clear_of_reads h (by simp) (by simp)
  | call _ ha ih =>
    refine (ih.behind (ha.along hG) fun h => ?_).mono fun ⟨_, he, ha⟩ => .call he ha
    cases h with
    | none h _ => exact clear_of_reads h (by simp) (by simp)
    | some h _ => exact clear_of_reads h (by simp) (by simp)

/-! ## Operations -/

/-- That no increment follows is all that an operand asks of what comes behind it. -/
theorem Postfix.along (hG : Traced G) (h : Postfix G c e d) :
    Along .operand .operator (Postfix G · e ·) c d := by
  obtain ⟨h, -, -⟩ := h
  exact (traced_chain hG h).imp fun hd h => .mk h (fun f => (hd f).1) fun f => (hd f).2

/-- Operators in front of an operand do, one by one. -/
theorem traced_unary (hG : Traced G) : Traced (Unary G) := by
  intro c d e h
  induction h with
  | operand h => exact (h.along hG).mono .operand
  | @operator _ _ _ op _ h _ ih =>
    have hop : Lexeme.isSlash (.punctuator op.symbol) = false ∧
        Expectation.operand.after (.punctuator op.symbol) = .operand := by
      cases op <;> decide
    exact (ih.mark h ⟨fun _ => hop.1, hop.2⟩).mono fun ⟨_, h, he⟩ => .operator h he

/-- An operator between operands is no increment. -/
theorem Operator.clear {op : Connective} (h : Operator op c d) : Clear c := by
  rcases h with h | h
  · have hop : op.symbol ≠ "++" ∧ op.symbol ≠ "--" := by
      rcases op with op | op <;> cases op <;> decide
    exact clear_of_reads h (by simpa using hop.1) (by simpa using hop.2)
  · exact clear_of_reads h (by simp) (by simp)

/-- An operand is due behind an operator. -/
theorem Operator.along {op : Connective} (h : Operator op c b)
    (h' : Along .operand due' Q b d) :
    Along .operator due' (fun c d => ∃ b, Operator op c b ∧ Q b d) c d := by
  have hop : Expectation.operator.after (.punctuator op.symbol) = .operand ∧
      Expectation.operator.after (.keyword op.symbol) = .operand := by
    rcases op with op | op <;> cases op <;> decide
  rcases h with h | h
  · have hread : Along .operator due' _ c d := h'.read h rfl nofun hop.1
    exact hread.mono fun ⟨_, h, hq⟩ => ⟨_, .inl h, hq⟩
  · have hread : Along .operator due' _ c d := h'.read h rfl nofun hop.2
    exact hread.mono fun ⟨_, h, hq⟩ => ⟨_, .inr h, hq⟩

/-- **Operations depend on their tokens only**, at every level. -/
theorem traced_binary (hG : Traced G) {level : Nat} : Traced (Binary G level) := by
  intro c d e h
  induction h with
  | unary h => exact (traced_unary hG h).mono .unary
  | tighter _ ih => exact ih.mono .tighter
  | operation _ h _ ihl ihr =>
    exact (ihl.behind (h.along ihr) fun ⟨_, h, _⟩ => h.clear).mono
      fun ⟨_, hl, _, h, hr⟩ => .operation hl h hr

/-- Conditional expressions do when those nested in them do. -/
theorem traced_conditionalOver (hG : Traced G) : Traced (ConditionalOver G) := by
  intro c d e h
  cases h with
  | operation h => exact (traced_binary hG h).mono .operation
  | choice ht hq hc hn ha =>
    have hbranches : Along .operator .operator _ _ _ :=
      ((hG hc).behind ((hG ha).mark hn (by decide)) (clear_of_mark (by decide))).mark hq (by decide)
    exact ((traced_binary hG ht).behind hbranches (clear_of_mark (by decide))).mono
      fun ⟨_, ht, _, hq, _, hc, _, hn, ha⟩ => .choice ht hq hc hn ha

/-- **A conditional expression is derived along its tokens.** -/
theorem traced_conditional (levels : Nat) : Traced (Conditional levels) := by
  induction levels with
  | zero =>
    intro c d e h
    exact h.elim
  | succ levels ih => exact traced_conditionalOver ih

end Grammar

end ChartScript
