import ChartScript.Proofs.Parser.Fork
import ChartScript.Runtime

/-!
# Proofs/Parser/Continuation — what comes behind the token that is to blame

Does what a text has behind the token that may not stand where it stands change what is reported?
The parser runs on the texts of a fork part by part here, and every part has a fate when its parts
have one.  So all texts that go on otherwise behind the token are rejected, and what is reported is
the same but for the next token: most parts scan it before they report, and when there is none they
report that instead.
-/

namespace ChartScript

open Text

section

variable [Externals]

namespace Parser

namespace Logged

open Fork

variable {p : Fork} {limits : Limits} {inner : Nonterminal} {κ : Type}
  {u : κ → Option (List Char)} {S : κ → State}

/-! ## Operands -/

/-- Nested expressions have a fate. -/
def Nonterminal.Fated (p : Fork) (inner : Nonterminal) : Prop :=
  ∀ {κ : Type} {u : κ → Option (List Char)} {S : κ → State}, p.Aligned u S →
    p.Fate u fun k => inner (S k)

section

variable (hinner : inner.Fated p)
include hinner

/-- A sequence is refused on all texts alike. -/
theorem fate_expression (h : p.Aligned u S) : p.Fate u fun k => expression inner (S k) := by
  refine .answering ((hinner h).bind fun hr => ?_)
  refine hr.ite (·.isPunctuator ",") (fun _ => ?_) fun _ => ?_
  · exact fate_fault fun _ => rfl
  · exact fate_pure hr fun _ _ => rfl

theorem fate_group (h : p.Aligned u S) : p.Fate u fun k => group inner (S k) := by
  refine .answering ((fate_expect h _).bind fun ho => ?_)
  refine (fate_expression hinner ho).bind fun he => ?_
  exact (fate_expect he _).bind fun hc => fate_pure hc fun _ _ => rfl

omit hinner in
/-- What stands between the parts of a list is told by one token. -/
theorem fate_separator (h : p.Aligned u S) (close : String) :
    p.Fate u fun k => separator close (S k) := by
  refine h.ite (·.isPunctuator close) (fun _ => ?_) fun _ => ?_
  · exact fate_pure h fun _ _ => rfl
  · exact (fate_expect h _).bind fun hc => fate_pure hc fun _ _ => rfl

/-- **A loop has a fate when its turns do** (`fate_loop`); so have the loops below. -/
theorem fate_slots (h : p.Aligned u S) : p.Fate u fun k => slots inner (S k) := by
  refine fate_loop (fun _ again h hagain => ?_) () h
  refine h.ite (·.isPunctuator "]") (fun _ => ?_) fun _ => h.ite (·.isPunctuator ",")
    (fun _ => ?_) fun _ => ?_
  · exact (fate_expect h _).bind fun hc => fate_pure hc fun _ _ => rfl
  · refine (fate_expect h _).bind fun hc => ?_
    exact (hagain hc fun _ _ => rfl).bind fun hl => fate_pure hl fun _ _ => rfl
  · refine (hinner h).bind fun he => ?_
    refine (fate_separator he _).bind fun hc => ?_
    exact (hagain hc fun _ _ => rfl).bind fun hl => fate_pure hl fun _ _ => rfl

theorem fate_array (h : p.Aligned u S) : p.Fate u fun k => array limits inner (S k) := by
  refine .answering ((fate_expect h _).bind fun ho => ?_)
  refine (fate_slots hinner ho).bind fun hr => ?_
  exact .quiet (concur_node fun _ _ => ⟨rfl, rfl⟩) fun _ => fate_pure hr fun _ _ => rfl

omit hinner in
/-- An octal key is refused on all texts alike. -/
theorem fate_key (h : p.Aligned u S) : p.Fate u fun k => key (S k) := by
  refine .answering ((fate_consume h h.key_eq).bind fun hn => ?_)
  obtain ⟨l, hl⟩ := h.exists_lexeme
  simp only [hl]
  exact .ite (fun _ => fate_fault fun _ => rfl) fun _ => fate_pure hn fun _ _ => rfl

/-- **What is no key is reported at once.** -/
theorem fate_property (h : p.Aligned u S) : p.Fate u fun k => property limits inner (S k) := by
  refine .answering (h.ite canBeKey (fun _ => ?_) fun hkey => fate_unexpected h hkey)
  refine (fate_key h).bind fun hn => ?_
  refine (fate_expect hn _).bind fun hc => ?_
  refine (hinner hc).bind fun hv => .quiet (concur_node fun _ _ => ⟨rfl, rfl⟩) fun _ => ?_
  exact fate_pure hv fun _ _ => rfl

/-- Whether a key was seen before is the same on all texts. -/
theorem fate_properties (seen : List String) (h : p.Aligned u S) :
    p.Fate u fun k => properties limits inner seen (S k) := by
  refine fate_loop (fun seen again h hagain => ?_) seen h
  refine h.ite (·.isPunctuator "\x7d") (fun _ => ?_) fun _ => ?_
  · exact (fate_expect h _).bind fun hc => fate_pure hc fun _ _ => rfl
  · refine (fate_property hinner h).bind fun {_ _ property _ _} hp => ?_
    refine .ite (c := seen.contains property.1.keyName) (fun _ => ?_) fun _ => ?_
    · exact fate_fault fun _ => rfl
    refine (fate_separator hp _).bind fun hc => ?_
    exact (hagain hc fun _ _ => rfl).bind fun hl => fate_pure hl fun _ _ => rfl

theorem fate_object (h : p.Aligned u S) : p.Fate u fun k => object limits inner (S k) := by
  refine .answering ((fate_expect h _).bind fun ho => ?_)
  refine (fate_properties hinner _ ho).bind fun hr => ?_
  exact .quiet (concur_node fun _ _ => ⟨rfl, rfl⟩) fun _ => fate_pure hr fun _ _ => rfl

omit hinner in
/-- A word is read or refused on all texts alike, and a mark is unexpected on all. -/
theorem fate_word (h : p.Aligned u S) : p.Fate u fun k => word (S k) := by
  obtain ⟨l, hl⟩ := h.exists_lexeme
  simp only [word, hl]
  cases l with
  | identifier name => exact fate_consume h fun _ _ => rfl
  | keyword name =>
    exact .ite (fun _ => fate_consume h fun _ _ => rfl) fun _ => fate_fault fun _ => rfl
  | string value octal =>
    exact .ite (fun _ => fate_fault fun _ => rfl) fun _ =>
      fate_consume h fun j k => by rw [h.text_eq j k]
  | number value octal =>
    exact .ite (fun _ => fate_fault fun _ => rfl) fun _ =>
      fate_consume h fun j k => by rw [h.text_eq j k]
  | boolean value => exact fate_consume h fun j k => by rw [h.text_eq j k]
  | null => exact fate_consume h fun j k => by rw [h.text_eq j k]
  | endOfInput | punctuator _ | regex _ _ => exact fate_behind h fun _ => result_bind _ _

/-- The first token decides, and it is the same on all texts. -/
theorem fate_primary (h : p.Aligned u S) : p.Fate u fun k => primary limits inner (S k) := by
  refine .answering (h.ite (·.isPunctuator "(") (fun _ => fate_group hinner h) fun _ => ?_)
  refine h.ite (·.isPunctuator "[") (fun _ => fate_array hinner h) fun _ => ?_
  refine h.ite (·.isPunctuator "\x7b") (fun _ => fate_object hinner h) fun _ => ?_
  exact h.ite (fun l => l.isPunctuator "/" || l.isPunctuator "/=") (fun _ => fate_regex h)
    fun _ => fate_word h

omit hinner in
/-- Whether a name stands behind a point is told by one token. -/
theorem fate_memberName (h : p.Aligned u S) : p.Fate u fun k => memberName (S k) := by
  obtain ⟨l, hl⟩ := h.exists_lexeme
  simp only [memberName, hl]
  exact .answering (fate_consumeIf h fun _ _ => rfl)

/-- Whether the list is closed is told by one token. -/
theorem fate_argumentList (h : p.Aligned u S) : p.Fate u fun k => argumentList inner (S k) := by
  refine fate_loop (fun _ again h hagain => ?_) () h
  refine (hinner h).bind fun he => he.ite (·.isPunctuator ")") (fun _ => ?_) fun _ => ?_
  · exact .log ((fate_expect he _).bind fun hc => fate_pure hc fun _ _ => rfl)
  · refine (fate_expect he _).bind fun hc => ?_
    exact (hagain hc fun _ _ => rfl).bind fun hl => fate_pure hl fun _ _ => rfl

theorem fate_arguments (h : p.Aligned u S) : p.Fate u fun k => arguments inner (S k) := by
  refine .answering ((fate_expect h _).bind fun ho => ?_)
  refine ho.ite (·.isPunctuator ")") (fun _ => ?_) fun _ => ?_
  · exact (fate_expect ho _).bind fun hc => fate_pure hc fun _ _ => rfl
  · exact (fate_argumentList hinner ho).bind fun hr => fate_pure hr fun _ _ => rfl

/-- A computed member is read up to its bracket. -/
theorem fate_computedMember (h : p.Aligned u S) :
    p.Fate u fun k => computedMember inner (S k) := by
  refine .answering ((fate_expect h _).bind fun ho => ?_)
  refine (fate_expression hinner ho).bind fun he => ?_
  exact (fate_expect he _).bind fun hc => fate_pure hc fun _ _ => rfl

/-- **What goes on behind an operand is the same on all texts**, up to the fork. -/
theorem fate_accesses (node : Node) (h : p.Aligned u S) :
    p.Fate u fun k => accesses limits inner node (S k) := by
  refine fate_loop (fun node again h hagain => ?_) node h
  refine h.ite (·.isPunctuator ".") (fun _ => ?_) fun _ => h.ite (·.isPunctuator "(")
    (fun _ => ?_) fun _ => h.ite (·.isPunctuator "[") (fun _ => ?_) fun _ => ?_
  · refine (fate_expect h _).bind fun hd => ?_
    refine (fate_memberName hd).bind fun hm => ?_
    refine .quiet (concur_node fun _ _ => ⟨rfl, rfl⟩) fun _ => ?_
    exact (hagain hm fun _ _ => rfl).bind fun hr => fate_pure hr fun _ _ => rfl
  · refine (fate_arguments hinner h).bind fun ha => ?_
    refine .quiet (concur_node fun _ _ => ⟨rfl, rfl⟩) fun _ => ?_
    exact (hagain ha fun _ _ => rfl).bind fun hr => fate_pure hr fun _ _ => rfl
  · refine (fate_computedMember hinner h).bind fun he => ?_
    refine .quiet (concur_node fun _ _ => ⟨rfl, rfl⟩) fun _ => ?_
    exact (hagain he fun _ _ => rfl).bind fun hr => fate_pure hr fun _ _ => rfl
  · exact fate_pure h fun _ _ => rfl

theorem fate_chain (h : p.Aligned u S) : p.Fate u fun k => chain limits inner (S k) := by
  refine .answering ((fate_primary hinner h).bind fun hf => ?_)
  exact (fate_accesses hinner _ hf).bind fun hr => fate_pure hr fun _ _ => rfl

/-- An increment behind an operand is refused on all texts alike. -/
theorem fate_operand (h : p.Aligned u S) : p.Fate u fun k => operand limits inner (S k) := by
  refine .answering ((fate_chain hinner h).bind fun hr => ?_)
  refine hr.ite (fun l => l.isPunctuator "++" || l.isPunctuator "--") (fun _ => ?_) fun _ => ?_
  · exact fate_fault fun _ => rfl
  · exact fate_pure hr fun _ _ => rfl

/-! ## Operations -/

omit hinner in
/-- Operators in front of an operand are counted alike on all texts. -/
theorem fate_leadingOperators (count : Nat) (h : p.Aligned u S) :
    p.Fate u fun k => leadingOperators limits count (S k) := by
  refine fate_loop (fun count again h hagain => ?_) count h
  obtain ⟨l, hl⟩ := h.exists_lexeme
  simp only [hl]
  refine .ite (fun _ => fate_fault fun _ => rfl) fun _ => ?_
  split
  · refine .ite (fun _ => fate_fault fun _ => rfl) fun _ => ?_
    refine (fate_consume h fun _ _ => rfl).bind fun ht => ?_
    exact (hagain ht fun _ _ => rfl).bind fun hl => fate_pure hl fun _ _ => rfl
  · exact fate_pure h fun _ _ => rfl

omit hinner in
omit [Externals] in
/-- Operators in front of an operand make the same node on all texts. -/
theorem concur_foldrM (operators : List UnaryOperator) (node : Node) :
    p.Concur fun k => operators.foldrM
      (fun operator node => limits.node (S k) (.unary operator node.expr) node.height) node := by
  induction operators with
  | nil => exact concur_pure node
  | cons operator operators ih =>
    simp only [List.foldrM_cons]
    exact ih.bind fun _ => concur_node fun _ _ => ⟨rfl, rfl⟩

omit hinner in
omit [Externals] in
/-- So do operators behind operands. -/
theorem concur_reduce (binding : Nat) (stack : List Pending) (current : Node) :
    p.Concur fun k => reduce limits (S k) binding stack current := by
  induction stack generalizing current with
  | nil => exact concur_pure _
  | cons pending stack ih =>
    simp only [reduce]
    split
    · exact concur_pure _
    · exact Concur.bind (concur_node fun _ _ => ⟨rfl, rfl⟩) fun node => ih node

theorem fate_unary (h : p.Aligned u S) : p.Fate u fun k => unary limits inner (S k) := by
  refine .answering ((fate_leadingOperators _ h).bind fun ho => ?_)
  refine (fate_operand hinner ho).bind fun hr => ?_
  exact .quiet (concur_foldrM _ _) fun _ => fate_pure hr fun _ _ => rfl

/-- An operator that is read has the same operands on all texts. -/
theorem fate_operations (pending : List Pending × Node) (h : p.Aligned u S) :
    p.Fate u fun k => operations limits inner pending (S k) := by
  refine fate_loop (fun pending again h hagain => ?_) pending h
  obtain ⟨l, hl⟩ := h.exists_lexeme
  simp only [hl]
  split
  · refine .quiet (concur_reduce _ _ _) fun reduced => ?_
    refine (fate_consume h fun _ _ => rfl).bind fun ht => ?_
    refine (fate_unary hinner ht).bind fun hr => ?_
    exact (hagain hr fun _ _ => rfl).bind fun hr => fate_pure hr fun _ _ => rfl
  · exact .quiet (concur_reduce _ _ _) fun reduced => fate_pure h fun _ _ => rfl

theorem fate_operation (h : p.Aligned u S) : p.Fate u fun k => operation limits inner (S k) := by
  refine .answering ((fate_unary hinner h).bind fun {_ _ first _ _} hf => ?_)
  exact (fate_operations hinner ([], first) hf).bind fun hr => fate_pure hr fun _ _ => rfl

/-- **A conditional expression has a fate** when those nested in it have one. -/
theorem fate_conditionalOver (h : p.Aligned u S) :
    p.Fate u fun k => conditionalOver limits inner (S k) := by
  refine (fate_operation hinner h).bind fun ht => ?_
  refine ht.ite (·.isPunctuator "?") (fun _ => ?_) fun _ => ?_
  · refine (fate_expect ht _).bind fun hq => ?_
    refine (hinner hq).bind fun hc => ?_
    refine (fate_expect hc _).bind fun hc => ?_
    refine (hinner hc).bind fun ha => .quiet (concur_node fun _ _ => ⟨rfl, rfl⟩) fun _ => ?_
    exact fate_pure ha fun _ _ => rfl
  · exact fate_pure ht fun _ _ => rfl

end

/-- **Conditional expressions nest as deep as they may** on all texts. -/
theorem fated_conditional (levels : Nat) : (conditional limits levels).Fated p := by
  induction levels with
  | zero => exact fun _ => fate_fault fun _ => rfl
  | succ levels ih =>
    intro κ u S h
    refine .answering (.log ?_)
    refine (fate_conditionalOver ih h).bind fun hr => .log ?_
    exact fate_pure hr fun _ _ => rfl

/-! ## Texts -/

omit [Externals] in
/-- That something is left behind an expression is no token's fault. -/
theorem settles_end {n : Nat} {x : Parse (Reached n Node)}
    (hx : Settles (fun error => ¬ p.Hits error) (fun _ => True) x) :
    Settles (fun error => ¬ p.Hits error) (fun _ => True) (x >>= fun r =>
      if r.state.lexeme.isEnd then pure r.value else throw (r.state.fault .trailingInput)) := by
  refine hx.bind fun r _ => ?_
  split
  · exact settles_pure trivial
  · exact settles_throw (not_hits_fault rfl _)

/-- **The texts of a fork**: the text is not rejected because of the token in front of the fork, or
all are. -/
theorem parse_fork (limits : Limits) {front : List Char} (hfront : byteSize front = p.offset) :
    Settles (fun error => ¬ p.Hits error) (fun _ => True)
      (Parser.parse limits (front ++ p.later)) ∨
    ∃ error report, p.Reports error report ∧
      ∀ o, Parser.parse limits (front ++ p.rest o) = .error (o.elim error report) := by
  let nested : Nonterminal := expression (conditional limits limits.nesting)
  have hfate : nested.Fated p := fate_expression (fated_conditional limits.nesting)
  have hresult : ∀ s, (nested s).result =
      Parser.expression (Parser.conditional limits limits.nesting) s :=
    result_expression (result_conditional limits.nesting)
  rcases @cases_at _ p 0 front (by omega) with ⟨t, _, _, _, _, halike, ht⟩ | hpast
  · have hrun (o : Option (List Char)) : Parser.parse limits (front ++ p.rest o) =
        (nested (t o)).result >>= fun r =>
          if r.state.lexeme.isEnd then pure r.value
          else throw (r.state.fault .trailingInput) := by
      obtain ⟨_, hfirst⟩ := ht o
      rw [Parser.parse, Cursor.start, hfirst, hresult]
      rfl
    cases hfate (.alike halike ⟨some [], Option.some_ne_none []⟩ fun _ => rfl : p.Aligned id t) with
    | reach a t' aligned yields =>
      obtain ⟨_, hanswer⟩ := yields none
      exact .inl (hrun none ▸ settles_end (hanswer ▸ settles_pure trivial))
    | leave leaves =>
      exact .inl (hrun none ▸ settles_end ((leaves none rfl).imp fun _ _ => trivial))
    | fail error report branch reports result =>
      exact .inr ⟨error, report, reports, fun o => by rw [hrun, result]; rfl⟩
  · refine .inl ((settles_ofCursor hpast).bind fun t ht => settles_end ?_)
    rw [← hresult]
    exact ((hfate (.past ht (fun _ : Unit => rfl) fun _ => rfl)).leaves (fun _ => rfl) ()).imp
      fun _ _ => trivial

end Logged

end Parser

/-- **What is reported of a token that may not stand where it stands, when the text behind it is
another.**  Let a text be rejected because of an unexpected token, and let `front` be what it has up
to the end of this token.  Whatever stands behind `front` and a blank, the text is rejected.  Either
the error is always the same, and then a mark is to blame (it stands where a key should); or it is
the same unless no token can be read behind the one to blame, and then it is said that there is
none. -/
theorem Expr.parse_behind_unexpected {source : String} {fault : SyntaxFault} {start stop : Nat}
    (hfault : fault.isUnexpected = true)
    (h : Expr.parse source = .error (.grammar ⟨fault, start, stop⟩)) :
    ∃ front later, source.toList = front ++ later ∧ byteSize front = stop ∧
      ((∃ text, fault = .unexpectedToken text) ∧
          (∀ r : String, Expr.parse (String.ofList (front ++ ' ' :: r.toList)) =
            .error (.grammar ⟨fault, start, stop⟩)) ∨
        ∀ r : String, Expr.parse (String.ofList (front ++ ' ' :: r.toList)) =
          .error ((ParseError.grammar ⟨fault, start, stop⟩).behind ⟨stop, ' ' :: r.toList⟩)) := by
  have hparse : Parser.parse .standard source.toList = .error (.grammar ⟨fault, start, stop⟩) := by
    unfold Expr.parse at h
    cases hx : Parser.parse .standard source.toList with
    | ok node => rw [hx] at h; cases h
    | error error => rw [hx] at h; cases h; rfl
  have hplaced : (ParseError.grammar ⟨fault, start, stop⟩).PlacedIn source.toList := by
    have := @Parser.located_parse source.toList _ .standard
    rwa [hparse] at this
  obtain ⟨front, later, hsource, rfl⟩ := hplaced.2.1
  refine ⟨front, later, hsource, rfl, ?_⟩
  let p : Parser.Fork := ⟨byteSize front, later⟩
  have hfront : byteSize front = p.offset := rfl
  rcases Parser.Logged.parse_fork .standard hfront with
    hsettles | ⟨error, report, hreports, hrun⟩
  · rw [← hsource, hparse] at hsettles
    exact absurd ⟨fault, start, hfault, rfl⟩ hsettles
  · have hother (r : String) : Expr.parse (String.ofList (front ++ ' ' :: r.toList)) =
        .error (report r.toList) := by
      rw [Expr.parse, String.toList_ofList]
      exact congrArg (· >>= fun node => pure node.expr) (hrun (some r.toList))
    have hsame := hrun none
    rw [show front ++ p.rest none = source.toList from hsource.symm, hparse] at hsame
    cases hsame
    rcases hreports with ⟨⟨text, _, htext⟩, rfl⟩ | rfl
    · cases htext
      exact .inl ⟨⟨text, rfl⟩, hother⟩
    · exact .inr hother

end

/-- Nothing begins with a closing parenthesis. -/
theorem Expr.parse_parenthesis :
    Expr.parse ")" = .error (.grammar ⟨.unexpectedToken ")", 0, 1⟩) := by
  cbv

/-- There is no token at a number sign, and nothing is reported but that. -/
theorem Expr.parse_parenthesis_sign :
    Expr.parse ") #" = .error (.lexical ⟨.illegal, 2, 2⟩) := by
  cbv

/-- A closing parenthesis where something should begin is to blame, unless no token can be read
behind it: the error is not always the same. -/
theorem Expr.parse_behind_parenthesis :
    let error : ParseError := .grammar ⟨.unexpectedToken ")", 0, 1⟩
    Expr.parse ")" = .error error ∧
    (¬ ∀ r : String, Expr.parse (String.ofList ([')'] ++ ' ' :: r.toList)) = .error error) ∧
    ∀ r : String, Expr.parse (String.ofList ([')'] ++ ' ' :: r.toList)) =
      .error (error.behind ⟨1, ' ' :: r.toList⟩) := by
  intro error
  have hdisplaced :
      ¬ ∀ r : String, Expr.parse (String.ofList ([')'] ++ ' ' :: r.toList)) = .error error := by
    intro hsame
    have hsign : String.ofList ([')'] ++ ' ' :: "#".toList) = ") #" := by decide
    have hparse := hsame "#"
    rw [hsign, parse_parenthesis_sign] at hparse
    exact nomatch Except.error.inj hparse
  obtain ⟨front, later, hsource, hsize, hreport⟩ :=
    Expr.parse_behind_unexpected rfl parse_parenthesis
  have hchars : [')'] = front ++ later := hsource
  obtain rfl : front = [')'] := by
    rcases List.cons_eq_append_iff.1 hchars with ⟨rfl, -⟩ | ⟨behind, rfl, hbehind⟩
    · cases hsize
    · rw [(List.append_eq_nil_iff.1 hbehind.symm).1]
  exact ⟨parse_parenthesis, hdisplaced, hreport.resolve_left fun hsame => hdisplaced hsame.2⟩

/-- **What stands behind an unexpected token may displace the error**: there is no token at `#`, and
nothing else is reported of `) #`. -/
theorem Expr.not_forall_parse_behind :
    ¬ ∀ (source r : String) (fault : SyntaxFault) (start : Nat) (front later : List Char),
      fault.isUnexpected = true →
      source.toList = front ++ later →
      Expr.parse source = .error (.grammar ⟨fault, start, byteSize front⟩) →
      ∃ fault', Expr.parse (String.ofList (front ++ ' ' :: r.toList)) =
        .error (.grammar ⟨fault', start, byteSize front⟩) := by
  intro h
  obtain ⟨fault, herror⟩ := h ")" "#" _ 0 [')'] [] rfl rfl Expr.parse_parenthesis
  cases parse_parenthesis_sign.symm.trans herror

end ChartScript
