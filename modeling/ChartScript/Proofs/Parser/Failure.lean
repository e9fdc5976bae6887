import ChartScript.Expr.Diagnostic
import ChartScript.Proofs.Diagnostic.Place
import ChartScript.Proofs.Parser.Operation

/-!
# Proofs/Parser/Failure — where the parser finds fault

The parser fails at a token, or at a place where scanning stopped.  `Located` says of a computation
that it comes to a state of the text or fails at such a place, and each part of the parser is
located when the parts that it is made of are.  So every diagnostic covers characters of the text
(`Expr.diagnostic_covers`).
-/

namespace ChartScript

open Text

variable {source : List Char}

/-- **The error lies between two places of the text**, and an unexpected end at its end. -/
def ParseError.PlacedIn (source : List Char) : ParseError → Prop
  | .lexical error => IsBoundary source error.start ∧ IsBoundary source error.stop
  | .grammar error => IsBoundary source error.start ∧ IsBoundary source error.stop ∧
      (error.fault = .unexpectedEnd → error.start = byteSize source)

namespace Cursor

variable {c : Cursor}

/-- A cursor in the text stands between two of its characters. -/
theorem LiesIn.isBoundary (h : c.LiesIn source) : IsBoundary source c.offset := by
  obtain ⟨front, hsource, hoffset⟩ := h
  exact ⟨front, c.chars, hsource, hoffset⟩

/-- Where scanning stops there is a place of the text. -/
theorem LiesIn.placedIn_errorAt (h : c.LiesIn source) {stop : Stop} (hs : stop.rest <:+ c.chars) :
    (ParseError.lexical (c.errorAt stop)).PlacedIn source := by
  have hstop := (h.moveTo hs).isBoundary
  unfold errorAt
  simp only
  split
  · exact ⟨hstop, hstop⟩
  · exact ⟨h.isBoundary, hstop⟩

end Cursor

/-- **Induction on the size** of a state: a loop of the parser goes on from a smaller one. -/
theorem Parser.State.induction_size {motive : State → Prop}
    (smaller : ∀ s : State, (∀ t : State, t.size < s.size → motive t) → motive s) (s : State) :
    motive s :=
  (measure State.size).wf.induction s smaller

section

variable [Externals]

/-- Reading a lexeme leaves the cursor in the text. -/
theorem Cursor.LiesIn.reads {c d : Cursor} {l : Lexeme} (h : c.LiesIn source) (hr : c.Reads l d) :
    d.LiesIn source := by
  obtain ⟨_, _, hn⟩ := hr
  exact h.next hn

namespace Parser

variable {α : Type} {n : Nat} {P : α → Prop} {limits : Limits} {inner : Nonterminal} {s : State}

/-- **The computation answers what satisfies `P`**, or fails at a place of the text. -/
abbrev Located (source : List Char) (P : α → Prop) (x : Parse α) : Prop :=
  Settles (ParseError.PlacedIn source) P x

/-- The lookahead of the state is a token of the text. -/
def State.LiesIn (source : List Char) (s : State) : Prop :=
  ∃ c : Cursor, c.LiesIn source ∧ s.At c

/-- **The computation comes to a state of the text**, or fails at a place of it. -/
abbrev Lands (source : List Char) (x : Parse (Reached n α)) : Prop :=
  Located source (fun r => r.state.LiesIn source) x

/-! ## States -/

/-- The lookahead begins in the text, behind the layout in front of it. -/
theorem State.LiesIn.before (h : s.LiesIn source) : s.before.LiesIn source := by
  obtain ⟨c, hc, hs⟩ := h
  rw [hs.before_eq]
  exact hc.skipLayout

/-- What comes behind the lookahead lies in the text. -/
theorem State.LiesIn.after (h : s.LiesIn source) : s.after.LiesIn source := by
  obtain ⟨c, hc, hs⟩ := h
  exact hc.reads hs.reads

/-- The end is a token at the end of the text. -/
theorem State.LiesIn.offset_eq_of_isEnd (h : s.LiesIn source) (he : s.lexeme.isEnd = true) :
    s.before.offset = byteSize source := by
  obtain ⟨front, hsource, hoffset⟩ := h.before
  obtain ⟨c, -, hs⟩ := h
  obtain ⟨rest, hread, -⟩ := Cursor.reads_iff.1 hs.reads
  have hnil : s.before.chars = [] := hs.before_eq ▸ Scan.eq_nil_of_isEnd hread he
  rw [hoffset, hsource, hnil, List.append_nil]

/-- A fault is reported over the lookahead, from one end of it to the other. -/
theorem State.LiesIn.placedIn_fault (h : s.LiesIn source) {fault : SyntaxFault}
    (hf : fault ≠ .unexpectedEnd) : (s.fault fault).PlacedIn source :=
  ⟨h.before.isBoundary, h.after.isBoundary, fun he => absurd he hf⟩

/-- What is unexpected is the lookahead, and an unexpected end is the end of the text. -/
theorem State.LiesIn.placedIn_unexpected (h : s.LiesIn source) :
    s.unexpected.PlacedIn source := by
  refine ⟨h.before.isBoundary, h.after.isBoundary, fun he => h.offset_eq_of_isEnd ?_⟩
  revert he
  cases s.lexeme <;> simp [Lexeme.isEnd]

theorem located_fault (h : s.LiesIn source) {fault : SyntaxFault}
    (hf : fault ≠ .unexpectedEnd) : Located source P (throw (s.fault fault)) :=
  h.placedIn_fault hf

theorem located_unexpected (h : s.LiesIn source) : Located source P (throw s.unexpected) :=
  h.placedIn_unexpected

/-- From a place of the text the token there is read. -/
theorem located_ofCursor {c : Cursor} (h : c.LiesIn source) :
    Located source (fun t => t.1.LiesIn source) (State.ofCursor c) := by
  cases hx : State.ofCursor c with
  | ok t => exact ⟨c, h, t.2, hx⟩
  | error error =>
    unfold State.ofCursor at hx
    simp only at hx
    split at hx
    · next stop hstop =>
      cases hx
      have hw := Scan.within_lexeme c.skipLayout.chars
      rw [hstop] at hw
      exact h.skipLayout.placedIn_errorAt hw
    · cases hx

theorem located_next (h : s.LiesIn source) :
    Located source (fun t => t.1.LiesIn source) s.next :=
  located_ofCursor h.after

theorem lands_consume (h : s.LiesIn source) {he : s.lexeme.isEnd = false} {a : α} :
    Lands source (s.consume he a) :=
  (located_next h).bind fun _ ht => settles_pure ht

theorem lands_expect (h : s.LiesIn source) (mark : String) : Lands source (s.expect mark) := by
  refine (located_next h).bind fun t ht => ?_
  split
  · exact settles_pure ht
  · exact located_unexpected h

/-- A node that is too high is reported at the lookahead. -/
theorem located_node (h : s.LiesIn source) {e : Expr} {below : Nat} :
    Located source (fun _ => True) (limits.node s e below) := by
  unfold Limits.node
  split
  · exact located_fault h (by simp)
  · exact settles_pure trivial

/-! ## Operands -/

/-- Nested expressions are located. -/
def Nonterminal.Located (source : List Char) (inner : Nonterminal) : Prop :=
  ∀ {s : State}, s.LiesIn source → Lands source (inner s)

variable (hinner : inner.Located source)
include hinner

/-- A sequence is refused at the comma behind its first part. -/
theorem lands_expression (h : s.LiesIn source) : Lands source (expression inner s) := by
  refine (hinner h).bind fun r hr => ?_
  split
  · exact located_fault hr (by simp)
  · exact settles_pure hr

theorem lands_group (h : s.LiesIn source) : Lands source (group inner s) := by
  refine (lands_expect h _).bind fun opening ho => ?_
  refine (lands_expression hinner ho).bind fun e he => ?_
  exact (lands_expect he _).bind fun closing hc => settles_pure hc

omit hinner in
theorem lands_separator (h : s.LiesIn source) (close : String) :
    Lands source (separator close s) := by
  unfold separator
  split
  · exact settles_pure h
  · exact (lands_expect h _).bind fun comma hc => settles_pure hc

theorem lands_slots (h : s.LiesIn source) : Lands source (slots inner s) := by
  induction s using State.induction_size with
  | smaller s ih =>
    rw [slots]
    split
    · exact (lands_expect h _).bind fun closing hc => settles_pure hc
    · split
      · refine (lands_expect h _).bind fun comma hc => ?_
        exact (ih _ comma.below hc).bind fun later hl => settles_pure hl
      · refine (hinner h).bind fun e he => ?_
        refine (lands_separator he _).bind fun comma hc => ?_
        have hlt : comma.state.size < s.size :=
          Nat.lt_of_lt_of_le comma.below (Nat.succ_le_of_lt e.below)
        exact (ih _ hlt hc).bind fun later hl => settles_pure hl

theorem lands_array (h : s.LiesIn source) : Lands source (array limits inner s) := by
  refine (lands_expect h _).bind fun opening ho => ?_
  refine (lands_slots hinner ho).bind fun r hr => ?_
  exact (located_node hr).bind fun node _ => settles_pure hr

/-- What is no key is unexpected; an octal number is refused over itself, once the token behind it
is read. -/
theorem lands_property (h : s.LiesIn source) : Lands source (property limits inner s) := by
  unfold property
  split
  · refine (located_next h).bind fun t ht => ?_
    split
    · exact located_fault h (by simp)
    · refine (lands_expect ht _).bind fun colon hc => ?_
      refine (hinner hc).bind fun value hv => ?_
      exact (located_node hv).bind fun node _ => settles_pure hv
  · exact located_unexpected h

/-- A repeated key is reported over the lookahead that its property begins with. -/
theorem lands_properties {seen : List String} (h : s.LiesIn source) :
    Lands source (properties limits inner seen s) := by
  induction s using State.induction_size generalizing seen with
  | smaller s ih =>
    rw [properties]
    split
    · exact (lands_expect h _).bind fun closing hc => settles_pure hc
    · refine (lands_property hinner h).bind fun p hp => ?_
      simp only
      split
      · exact located_fault h (by simp)
      · refine (lands_separator hp _).bind fun comma hc => ?_
        have hlt : comma.state.size < s.size :=
          Nat.lt_of_lt_of_le comma.below (Nat.succ_le_of_lt p.below)
        exact (ih _ hlt hc).bind fun later hl => settles_pure hl

theorem lands_object (h : s.LiesIn source) : Lands source (object limits inner s) := by
  refine (lands_expect h _).bind fun opening ho => ?_
  refine (lands_properties hinner ho).bind fun r hr => ?_
  exact (located_node hr).bind fun node _ => settles_pure hr

omit hinner in
/-- A regular expression is read anew from where the lookahead begins. -/
theorem lands_regex (h : s.LiesIn source) : Lands source (regex s) := by
  have hw := Scan.within_regexLiteral s.before.chars
  unfold regex
  split
  · next stop hstop =>
    rw [hstop] at hw
    exact h.before.placedIn_errorAt hw
  · next pattern flags rest hread =>
    rw [hread] at hw
    exact (located_ofCursor (h.before.moveTo hw)).bind fun t ht => settles_pure ht

omit hinner in
/-- A word that stands for nothing is reported over itself. -/
theorem lands_word (h : s.LiesIn source) : Lands source (word s) := by
  unfold word
  split
  · exact lands_consume h
  · split
    · exact lands_consume h
    · exact located_fault h (by simp)
  · split
    · exact located_fault h (by simp)
    · exact lands_consume h
  · split
    · exact located_fault h (by simp)
    · exact lands_consume h
  · exact lands_consume h
  · exact lands_consume h
  · exact (located_next h).bind fun _ _ => located_unexpected h

/-- **What begins no operand is unexpected**, the end of the text included. -/
theorem lands_primary (h : s.LiesIn source) : Lands source (primary limits inner s) := by
  unfold primary
  split
  · exact lands_group hinner h
  · split
    · exact lands_array hinner h
    · split
      · exact lands_object hinner h
      · split
        · exact lands_regex h
        · exact lands_word h

omit hinner in
theorem lands_memberName (h : s.LiesIn source) : Lands source (memberName s) := by
  refine (located_next h).bind fun t ht => ?_
  split
  · exact settles_pure ht
  · exact located_unexpected h

theorem lands_argumentList (h : s.LiesIn source) : Lands source (argumentList inner s) := by
  induction s using State.induction_size with
  | smaller s ih =>
    rw [argumentList]
    refine (hinner h).bind fun e he => ?_
    split
    · exact (lands_expect he _).bind fun closing hc => settles_pure hc
    · refine (lands_expect he _).bind fun comma hc => ?_
      have hlt : comma.state.size < s.size := Nat.lt_trans comma.below e.below
      exact (ih _ hlt hc).bind fun later hl => settles_pure hl

theorem lands_arguments (h : s.LiesIn source) : Lands source (arguments inner s) := by
  refine (lands_expect h _).bind fun opening ho => ?_
  split
  · exact (lands_expect ho _).bind fun closing hc => settles_pure hc
  · exact (lands_argumentList hinner ho).bind fun r hr => settles_pure hr

/-- By induction on the size: behind each access less of the text is left. -/
theorem lands_accesses {node : Node} (h : s.LiesIn source) :
    Lands source (accesses limits inner node s) := by
  induction s using State.induction_size generalizing node with
  | smaller s ih =>
    rw [accesses]
    split
    · refine (lands_expect h _).bind fun dot hd => ?_
      refine (lands_memberName hd).bind fun name hm => ?_
      refine (located_node hm).bind fun node _ => ?_
      have hlt : name.state.size < s.size := Nat.lt_trans name.below dot.below
      exact (ih _ hlt hm).bind fun r hr => settles_pure hr
    · split
      · refine (lands_arguments hinner h).bind fun args ha => ?_
        refine (located_node ha).bind fun node _ => ?_
        exact (ih _ args.below ha).bind fun r hr => settles_pure hr
      · split
        · refine (lands_expect h _).bind fun opening ho => ?_
          refine (lands_expression hinner ho).bind fun e he => ?_
          refine (lands_expect he _).bind fun closing hc => ?_
          refine (located_node hc).bind fun node _ => ?_
          have hlt : closing.state.size < s.size :=
            Nat.lt_trans closing.below (Nat.lt_trans e.below opening.below)
          exact (ih _ hlt hc).bind fun r hr => settles_pure hr
        · exact settles_pure h

/-- An increment behind an operand is reported over itself. -/
theorem lands_operand (h : s.LiesIn source) : Lands source (operand limits inner s) := by
  refine (lands_primary hinner h).bind fun first hf => ?_
  refine (lands_accesses hinner hf).bind fun r hr => ?_
  split
  · exact located_fault hr (by simp)
  · exact settles_pure hr

/-! ## Operations -/

omit hinner in
/-- An operator that is not supported is reported over itself, and so is the first that is too
many. -/
theorem lands_leadingOperators {count : Nat} (h : s.LiesIn source) :
    Lands source (leadingOperators limits count s) := by
  induction s using State.induction_size generalizing count with
  | smaller s ih =>
    rw [leadingOperators]
    split
    · exact located_fault h (by simp)
    · split
      · split
        · exact located_fault h (by simp)
        · refine (lands_consume h).bind fun t ht => ?_
          exact (ih _ t.below ht).bind fun later hl => settles_pure hl
      · exact settles_pure h

theorem lands_unary (h : s.LiesIn source) : Lands source (unary limits inner s) := by
  refine (lands_leadingOperators h).bind fun operators ho => ?_
  refine (lands_operand hinner ho).bind fun r hr => ?_
  have hnodes : Located source (fun _ => True) (operators.value.foldrM
      (fun operator node => limits.node r.state (.unary operator node.expr) node.height)
      r.value) := by
    induction operators.value with
    | nil => exact settles_pure trivial
    | cons operator operators ih =>
      rw [List.foldrM_cons]
      exact ih.bind fun node _ => located_node hr
  exact hnodes.bind fun node _ => settles_pure hr

omit hinner in
/-- Reducing reads nothing, so all that may be reported is that a node is too high. -/
theorem located_reduce (h : s.LiesIn source) {binding : Nat} {stack : List Pending}
    {current : Node} :
    Located source (fun _ => True) (reduce limits s binding stack current) := by
  induction stack generalizing current with
  | nil => exact settles_pure trivial
  | cons p stack ih =>
    rw [reduce]
    split
    · exact settles_pure trivial
    · exact (located_node h).bind fun node _ => ih

/-- By induction on the size: each operator takes in at least its own token. -/
theorem lands_operations {stack : List Pending} {current : Node} (h : s.LiesIn source) :
    Lands source (operations limits inner stack current s) := by
  induction s using State.induction_size generalizing stack current with
  | smaller s ih =>
    rw [operations]
    split
    · refine (located_reduce h).bind fun reduced _ => ?_
      refine (lands_consume h).bind fun t ht => ?_
      refine (lands_unary hinner ht).bind fun right hr => ?_
      have hlt : right.state.size < s.size := Nat.lt_trans right.below t.below
      exact (ih _ hlt hr).bind fun r hr => settles_pure hr
    · exact (located_reduce h).bind fun reduced _ => settles_pure h

theorem lands_operation (h : s.LiesIn source) : Lands source (operation limits inner s) := by
  refine (lands_unary hinner h).bind fun first hf => ?_
  exact (lands_operations hinner hf).bind fun r hr => settles_pure hr

/-- A conditional expression is located when those nested in it are. -/
theorem located_conditionalOver : Nonterminal.Located source (conditionalOver limits inner) := by
  intro s h
  refine (lands_operation hinner h).bind fun test ht => ?_
  split
  · refine (lands_expect ht _).bind fun question hq => ?_
    refine (hinner hq).bind fun consequent hc => ?_
    refine (lands_expect hc _).bind fun colon hc => ?_
    refine (hinner hc).bind fun alternate ha => ?_
    exact (located_node ha).bind fun node _ => settles_pure ha
  · exact settles_pure ht

omit hinner in
/-- **A conditional expression is located**, however deep it nests. -/
theorem located_conditional (levels : Nat) :
    Nonterminal.Located source (conditional limits levels) := by
  induction levels with
  | zero => exact fun h => located_fault h (by simp)
  | succ levels ih => exact located_conditionalOver ih

omit hinner in
/-- **Parsing a text is located in it**; what is left behind the expression is reported over its
first token. -/
theorem located_parse : Located source (fun _ => True) (parse limits source) := by
  refine (located_ofCursor (Cursor.liesIn_start source)).bind fun first hf => ?_
  refine (lands_expression (located_conditional _) hf).bind fun r hr => ?_
  split
  · exact settles_pure trivial
  · exact located_fault hr (by simp)

end Parser

end

/-! ## Diagnostics -/

/-- Whether the text ended too early. -/
def ParseError.isUnexpectedEnd : ParseError → Bool
  | .grammar ⟨.unexpectedEnd, _, _⟩ => true
  | _ => false

/-- **The diagnostic of an error within the text covers characters of it**, and says where they
begin; only an unexpected end says where the text ends. -/
theorem ParseError.PlacedIn.exists_covers {error : ParseError} (h : error.PlacedIn source) :
    ∃ span message text, (error.diagnostic source).label = some (span, message) ∧
      span.Covers source text ∧ (source ≠ [] → text ≠ []) ∧
      (error.diagnostic source).offset =
        some (if error.isUnexpectedEnd then byteSize source else span.start) := by
  match error, h with
  | .lexical ⟨fault, start, stop⟩, ⟨hstart, hstop⟩ =>
    obtain ⟨text, htext, hne⟩ := Span.exists_covers_label hstart hstop
    cases fault <;> exact ⟨_, _, text, rfl, htext, hne, rfl⟩
  | .grammar ⟨fault, start, stop⟩, ⟨hstart, hstop, hend⟩ =>
    obtain ⟨text, htext, hne⟩ := Span.exists_covers_label hstart hstop
    cases fault with
    | unexpectedEnd => exact ⟨_, _, text, rfl, htext, hne, congrArg some (hend rfl)⟩
    | _ => exact ⟨_, _, text, rfl, htext, hne, rfl⟩

/-- **Every diagnostic of a text that is refused covers characters of the text.**  It cuts none of
them, and there is at least one unless the text is empty.  Its offset is where these characters
begin, or the end of the text when this came too early. -/
theorem Expr.diagnostic_covers [Externals] {source : String} {error : ParseError}
    (h : Expr.parse source = .error error) :
    ∃ span message text, (error.diagnostic source.toList).label = some (span, message) ∧
      span.Covers source.toList text ∧ (source ≠ "" → text ≠ []) ∧
      (error.diagnostic source.toList).offset =
        some (if error.isUnexpectedEnd then byteSize source.toList else span.start) := by
  have hparse : Parser.Located source.toList (fun _ => True) (Expr.parse source) :=
    Parser.located_parse.bind fun _ _ => settles_pure trivial
  rw [h] at hparse
  obtain ⟨span, message, text, hlabel, hcovers, hne, hoffset⟩ := hparse.exists_covers
  exact ⟨span, message, text, hlabel, hcovers, fun hs => hne (by simpa using hs), hoffset⟩

/-- Behind a parenthesis and a blank of three bytes the text ends too early: the blank is
underlined, and the offset is the end. -/
theorem Expr.diagnostic_covers_blank :
    let source := "(\u3000"
    let error : ParseError := .grammar ⟨.unexpectedEnd, 4, 4⟩
    Expr.parse source = .error error ∧
      (error.diagnostic source.toList).label = some (⟨1, 3⟩, "input ends here") ∧
      ∃ span message text, (error.diagnostic source.toList).label = some (span, message) ∧
        span.Covers source.toList text ∧ (source ≠ "" → text ≠ []) ∧
        (error.diagnostic source.toList).offset =
          some (if error.isUnexpectedEnd then byteSize source.toList else span.start) := by
  intro source error
  have hparse : Expr.parse source = .error error := by cbv
  exact ⟨hparse, by decide, Expr.diagnostic_covers hparse⟩

end ChartScript
