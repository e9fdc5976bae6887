import ChartScript.Proofs.Expr.WellFormed
import ChartScript.Proofs.Sandbox.Globals
import ChartScript.Proofs.Text.Utf16
import Mathlib.Tactic.SplitIfs

/-!
# Proofs/Sandbox/Shape — what the codes of trees look like

Code is compared with a name, and quotes are taken off it, without knowing which tree it is the code
of.  Both can be trusted because the codes of trees differ in shape.  Only an identifier, a constant
and a literal can have the code of a name, every other tree has `Compound` code; and only a string
has code with quotes around it.
-/

namespace ChartScript

open Text Emit

variable {code raw name : String} {value : Literal}

/-! ## Quotes -/

/-- The quotes of strings. -/
def quotes : List Char := ['\'', '"']

theorem mem_quotes_iff {c : Char} : c ∈ quotes ↔ (c == '\'' || c == '"') = true := by
  simp [quotes]

theorem stripQuotes_eq_self
    (h : ∀ c cs, code.toList = c :: cs → c ∈ quotes → cs.getLast? ≠ some c) :
    stripQuotes code = code := by
  unfold stripQuotes
  split
  · rfl
  · next c cs hcode =>
    refine if_neg fun hquoted => ?_
    rw [Bool.and_eq_true, Bool.or_comm, ← mem_quotes_iff, beq_iff_eq] at hquoted
    exact h c cs hcode hquoted.1 hquoted.2

/-- What does not begin with a quote is left as it is. -/
theorem stripQuotes_of_head (h : ∀ c ∈ code.toList.head?, c ∉ quotes) : stripQuotes code = code := by
  refine stripQuotes_eq_self fun c cs hcode hc => absurd hc (h c ?_)
  rw [hcode]
  rfl

/-- What does not end with a quote is left as it is. -/
theorem stripQuotes_of_last {last : Char} (h : code.toList.getLast? = some last)
    (hl : last ∉ quotes) : stripQuotes code = code := by
  refine stripQuotes_eq_self fun c cs hcode hc hlast => hl ?_
  rw [hcode, List.getLast?_cons, hlast] at h
  exact Option.some.inj h ▸ hc

/-- Quotes around a text are taken off. -/
theorem stripQuotes_quoted {quote : Char} {body : List Char} (hq : quote ∈ quotes)
    (hcode : code.toList = quote :: (body ++ [quote])) :
    stripQuotes code = String.ofList code.toList.tail.dropLast := by
  unfold stripQuotes
  split
  · next hnil =>
    rw [hnil] at hcode
    cases hcode
  · next c cs hcons =>
    rw [hcons] at hcode ⊢
    obtain ⟨rfl, rfl⟩ := List.cons.inj hcode
    refine if_pos ?_
    rw [Bool.and_eq_true, Bool.or_comm, ← mem_quotes_iff, List.getLast?_concat, beq_iff_eq]
    exact ⟨hq, rfl⟩

/-- The code of a call of the function does not end with a quote. -/
def FunctionDef.closes : FunctionDef → Bool
  | .method m => m.name.toList.getLast?.any fun c => !quotes.contains c
  | .custom _ => false
  | _ => true

theorem Sandbox.closes_defaultFunctions :
    ∀ entry ∈ defaultFunctions, entry.2.closes = true := by
  decide

/-! ## Literals -/

theorem Lexeme.eq_of_ofName_eq_boolean {value : Bool} (h : Lexeme.ofName name = .boolean value) :
    name = "true" ∨ name = "false" := by
  unfold Lexeme.ofName at h
  split_ifs at h with _ _ htrue hfalse
  · exact .inl htrue
  · exact .inr hfalse

theorem Lexeme.eq_of_ofName_eq_null (h : Lexeme.ofName name = .null) : name = "null" := by
  unfold Lexeme.ofName at h
  split_ifs at h with _ hnull
  exact hnull

variable [Externals]

/-- A quote is no identifier part. -/
theorem isIdentifierPart_eq_false_of_mem_quotes {c : Char} (h : c ∈ quotes) :
    isIdentifierPart c = false := by
  refine isIdentifierPart_eq_false_of_isPlainBreak ?_
  simp only [quotes, List.mem_cons, List.not_mem_nil, or_false] at h
  rcases h with rfl | rfl <;> decide

namespace Scan

/-- Only a string begins with a quote. -/
theorem not_mem_quotes_of_lexeme {cs rest : List Char} {l : Lexeme} (h : lexeme cs = .ok (l, rest))
    (hl : ∀ value octal, l ≠ .string value octal) : ∀ c ∈ cs.head?, c ∉ quotes := by
  match cs with
  | [] => exact nofun
  | c :: cs =>
    intro d hd hc
    obtain rfl := Option.some.inj hd
    have hquote := mem_quotes_iff.1 hc
    rcases lexeme_eq_ok_cases h with ⟨hstart, -⟩ | ⟨-, -, h⟩ | ⟨-, hq, -⟩ | ⟨-, hq, -⟩
    · have hpart := isIdentifierPart_of_isIdentifierStart hstart
      rw [isIdentifierPart_eq_false_of_mem_quotes hc] at hpart
      cases hpart
    · obtain ⟨value, octal, rfl⟩ := exists_string_of_stringLiteral h
      exact hl value octal rfl
    · rw [hq] at hquote
      cases hquote
    · rw [hq] at hquote
      cases hquote

theorem exists_slash_of_regexLiteral {cs rest : List Char} {parts : String × String}
    (h : regexLiteral cs = .ok (parts, rest)) : ∃ later, cs = '/' :: later := by
  unfold regexLiteral at h
  split at h
  · exact ⟨_, rfl⟩
  · cases h

end Scan

/-- **A string is written between quotes**, and it says what is between them unless there is a
backslash. -/
theorem Literal.Spelled.exists_quoted {value : String} (h : (Literal.string value).Spelled raw) :
    ∃ quote ∈ quotes, ∃ body, raw.toList = quote :: (body ++ [quote]) ∧
      ('\\' ∉ body → value.toList = body) := by
  have h : Scan.lexeme raw.toList = .ok (.string value false, []) := h
  match hraw : raw.toList with
  | [] =>
    rw [hraw] at h
    cases h
  | c :: cs =>
    rw [hraw] at h
    rcases Scan.lexeme_eq_ok_cases h with ⟨-, h⟩ | ⟨-, hq, h⟩ | ⟨-, -, -, h⟩ | ⟨-, -, -, h⟩
    · obtain ⟨chars, -, hl⟩ := Scan.word_eq_ok_iff.1 h
      have := Lexeme.isName_ofName (String.ofList chars)
      rw [hl] at this
      cases this
    · obtain ⟨piece, hpiece, hvalue⟩ := Scan.mapValue_eq_ok_iff.1 h
      obtain ⟨body, hbody, hunits⟩ := Scan.exists_of_quoted hpiece
      refine ⟨c, mem_quotes_iff.2 hq, body, by rw [hbody], fun hplain => ?_⟩
      rw [← (Lexeme.string.inj hvalue).1, String.toList_ofList, hunits hplain,
        decodeUnits_flatMap_units]
    · obtain ⟨_, _, hl⟩ := Scan.exists_number_of_number h
      cases hl
    · obtain ⟨_, -, hl⟩ := Scan.exists_mark_of_punctuator h
      cases hl

theorem Literal.exists_slash_of_regex {pattern flags : String}
    (h : (Literal.regex pattern flags).Spelled raw) :
    ∃ later, ((Literal.regex pattern flags).code raw).toList = '/' :: later := by
  unfold Literal.code
  simp only
  split
  · exact ⟨"(?:)/".toList ++ flags.toList, by simp [String.toList_append]⟩
  · exact Scan.exists_slash_of_regexLiteral h

/-- **No literal but a string begins with a quote.** -/
theorem Literal.Spelled.head_not_mem_quotes (h : value.Spelled raw)
    (hs : ∀ text, value ≠ .string text) : ∀ c ∈ (value.code raw).toList.head?, c ∉ quotes := by
  match value with
  | .number value => exact Scan.not_mem_quotes_of_lexeme h nofun
  | .string text => exact absurd rfl (hs text)
  | .boolean value => exact Scan.not_mem_quotes_of_lexeme h nofun
  | .null => exact Scan.not_mem_quotes_of_lexeme h nofun
  | .regex pattern flags =>
    obtain ⟨later, hcode⟩ := Literal.exists_slash_of_regex h
    rw [hcode]
    simp [quotes]

/-- **No literal has the code of a name** but the three that are written like names. -/
theorem Literal.Spelled.code_ne (h : value.Spelled raw) (hn : IsName name)
    (hl : name ∉ ["true", "false", "null"]) : value.code raw ≠ name := by
  have hword : ∀ {l}, Scan.lexeme name.toList = .ok (l, []) → Lexeme.ofName name = l := by
    intro l hlexeme
    have hread := Scan.lexeme_name hn Scan.endsName_nil
    rw [List.append_nil, hlexeme] at hread
    exact (congrArg Prod.fst (Except.ok.inj hread)).symm
  have hname := Lexeme.isName_ofName name
  intro hcode
  match value with
  | .number value =>
    obtain rfl : raw = name := hcode
    rw [hword h] at hname
    cases hname
  | .string value =>
    obtain rfl : raw = name := hcode
    rw [hword h] at hname
    cases hname
  | .boolean value =>
    obtain rfl : raw = name := hcode
    rcases Lexeme.eq_of_ofName_eq_boolean (hword h) with rfl | rfl <;> simp at hl
  | .null =>
    obtain rfl : raw = name := hcode
    obtain rfl := Lexeme.eq_of_ofName_eq_null (hword h)
    simp at hl
  | .regex pattern flags =>
    obtain ⟨later, hslash⟩ := Literal.exists_slash_of_regex h
    rw [hcode] at hslash
    have hpart := (hn.isIdentifierPart '/' (hslash ▸ List.mem_cons_self)).1
    rw [isIdentifierPart_eq_false_of_isPlainBreak (by decide)] at hpart
    cases hpart

/-! ## Compound code -/

/-- **Code that is no name and has no quote at its end.** -/
structure Compound (code : String) : Prop where
  mark : ∃ c ∈ code.toList, isIdentifierPart c = false
  last : ∃ c, code.toList.getLast? = some c ∧ c ∉ quotes

theorem Compound.ne_name (h : Compound code) (hn : IsName name) : code ≠ name := by
  rintro rfl
  obtain ⟨c, hc, hmark⟩ := h.mark
  rw [(hn.isIdentifierPart c hc).1] at hmark
  cases hmark

theorem Compound.stripQuotes_eq (h : Compound code) : stripQuotes code = code := by
  obtain ⟨c, hc, hq⟩ := h.last
  exact stripQuotes_of_last hc hq

/-- Code is compound when it ends with a closing mark. -/
theorem compound_closed (front : String) {back : String} {close : Char}
    (h : back.toList.getLast? = some close) (hc : close ∈ [')', ']', '\x7d']) :
    Compound (front ++ back) := by
  have hclose : isPlainBreak close = true ∧ close ∉ quotes := by
    simp only [List.mem_cons, List.not_mem_nil, or_false] at hc
    rcases hc with rfl | rfl | rfl <;> decide
  refine ⟨⟨close, ?_, isIdentifierPart_eq_false_of_isPlainBreak hclose.1⟩, close, ?_, hclose.2⟩
  · rw [String.toList_append]
    exact List.mem_append_right _ (List.mem_of_getLast? h)
  · rw [String.toList_append, List.getLast?_append, h, Option.some_or]

/-- Code is compound when it ends with a point and something that ends with no quote. -/
theorem compound_point (front : String) {back : String} {last : Char}
    (h : back.toList.getLast? = some last) (hl : last ∉ quotes) :
    Compound (front ++ "." ++ back) where
  mark := ⟨'.', by simp [String.toList_append],
    isIdentifierPart_eq_false_of_isPlainBreak (by decide)⟩
  last := ⟨last, by rw [String.toList_append, List.getLast?_append, h, Option.some_or], hl⟩

/-- A name holds no quote. -/
theorem IsName.not_mem_quotes (h : IsName name) : ∀ c ∈ name.toList, c ∉ quotes := by
  intro c hc hq
  have hpart := (h.isIdentifierPart c hc).1
  rw [isIdentifierPart_eq_false_of_mem_quotes hq] at hpart
  cases hpart

theorem IsName.stripQuotes_eq (h : IsName name) : stripQuotes name = name :=
  stripQuotes_of_head fun c hc => h.not_mem_quotes c (List.mem_of_head? hc)

theorem IsName.exists_last (h : IsName name) :
    ∃ c, name.toList.getLast? = some c ∧ c ∉ quotes := by
  have hne : name.toList ≠ [] := by
    obtain ⟨c, cs, hname, -⟩ := h
    rw [hname]
    exact List.cons_ne_nil c cs
  exact ⟨_, List.getLast?_eq_some_getLast hne, h.not_mem_quotes _ (List.getLast_mem hne)⟩

theorem Method.compound_emit {method : Method} (hm : (FunctionDef.method method).closes = true)
    {args : List (Emit String)} (h : Emits (method.emit args) code) : Compound code := by
  match args with
  | [] => exact absurd h not_emits_fail
  | receiver :: rest =>
    obtain ⟨o, -, h⟩ := emits_bind h
    simp only at h
    split at h
    · obtain rfl := emits_pure.1 h
      obtain ⟨c, hc, hq⟩ := (Option.any_eq_true _ _).1 hm
      exact compound_point _ hc (by simpa using hq)
    · obtain rfl := emits_pure.1 h
      exact compound_closed _ (rfl : _ = some ')') (by decide)
    · obtain ⟨codes, -, h⟩ := emits_bind h
      obtain rfl := emits_pure.1 h
      exact compound_closed _ (rfl : _ = some ')') (by decide)

namespace Sandbox

variable {sandbox : Sandbox} {expand : Expr → Emit String} {e : Expr}

theorem compound_emitCall {definition : FunctionDef} (hd : definition.closes = true)
    {trees : List Expr} {args : List (Emit String)}
    (h : Emits (emitCall expand trees args definition) code) : Compound code := by
  match definition with
  | .rename target =>
    obtain ⟨codes, -, h⟩ := emits_bind h
    obtain rfl := emits_pure.1 h
    exact compound_closed _ (rfl : _ = some ')') (by decide)
  | .method method => exact Method.compound_emit hd h
  | .clamp =>
    obtain ⟨⟨value, low, high⟩, -, h⟩ := emits_bind h
    obtain rfl := emits_pure.1 h
    exact compound_closed _ (rfl : _ = some ')') (by decide)
  | .reverse =>
    match args with
    | [] => exact absurd h not_emits_fail
    | first :: _ =>
      obtain ⟨o, -, h⟩ := emits_bind h
      obtain rfl := emits_pure.1 h
      exact compound_closed _ (rfl : _ = some ')') (by decide)
  | .ifThenElse =>
    obtain ⟨⟨test, consequent, alternate⟩, -, h⟩ := emits_bind h
    obtain rfl := emits_pure.1 h
    exact compound_closed _ (rfl : _ = some ')') (by decide)
  | .custom expansion => cases hd

/-- **Every tree but a literal and an identifier has compound code**, when the functions have. -/
theorem compound_emitOver (hf : ∀ entry ∈ sandbox.functions, entry.2.closes = true)
    (hw : e.WellFormed) (hl : ∀ value raw, e ≠ .literal value raw)
    (hi : ∀ name, e ≠ .identifier name) (h : Emits (emitOver sandbox expand e) code) :
    Compound code := by
  cases hw with
  | literal _ => exact absurd rfl (hl _ _)
  | identifier _ => exact absurd rfl (hi _)
  | array _ =>
    obtain ⟨codes, -, rfl⟩ := emits_array h
    exact compound_closed _ (rfl : _ = some ']') (by decide)
  | object _ _ _ =>
    obtain ⟨codes, -, rfl⟩ := emits_object h
    exact compound_closed _ (rfl : _ = some '\x7d') (by decide)
  | call _ _ =>
    obtain ⟨function, rfl⟩ := emits_call h
    rw [emitOver] at h
    split at h
    · next definition hd =>
      obtain ⟨before, later, hsplit, -⟩ := List.lookup_eq_some_iff.1 hd
      exact compound_emitCall (hf (function, definition) (hsplit ▸ by simp)) h
    · exact absurd h not_emits_fail
  | named _ hn =>
    obtain ⟨o, p, -, hp, rfl⟩ := emits_named h
    obtain rfl := emits_name hp
    obtain ⟨c, hc, hq⟩ := hn.exists_last
    exact compound_point o hc hq
  | computed _ _ =>
    obtain ⟨o, p, -, -, rfl⟩ := emits_computed h
    exact compound_closed _ (rfl : _ = some ']') (by decide)
  | binary _ _ =>
    obtain ⟨l, r, -, -, rfl⟩ := emits_binary h
    exact compound_closed _ (rfl : _ = some ')') (by decide)
  | logical _ _ =>
    obtain ⟨l, r, -, -, rfl⟩ := emits_logical h
    exact compound_closed _ (rfl : _ = some ')') (by decide)
  | unary _ =>
    obtain ⟨a, -, rfl⟩ := emits_unary h
    exact compound_closed _ (rfl : _ = some ')') (by decide)
  | conditional _ _ _ =>
    obtain ⟨t, c, a, -, -, -, rfl⟩ := emits_conditional h
    exact compound_closed _ (rfl : _ = some ')') (by decide)

omit [Externals] in
/-- The code of an identifier is its name, a constant, or read through the global variable. -/
theorem emits_identifier_cases {id : String}
    (h : Emits (emitOver sandbox expand (.identifier id)) code) :
    code = id ∨ sandbox.constants.lookup id = some code ∨ code = sandbox.globalVar.access id := by
  obtain ⟨s, t, h⟩ := h
  have h : sandbox.resolve id s = (.ok code, t) := h
  unfold resolve at h
  split at h
  · cases h
    exact .inl rfl
  · split at h
    · cases h
    · split at h
      · next hc =>
        cases h
        exact .inr (.inl hc)
      · split at h
        · cases h
          exact .inl rfl
        · cases h
          exact .inr (.inr rfl)

end Sandbox

end ChartScript
