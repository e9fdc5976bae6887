import Mathlib
import ChartScript.Proofs.Expr.WellFormed
import ChartScript.Proofs.Grammar.Reading
import ChartScript.Proofs.Soundness.Operation

/-!
# Proofs/Grammar/Writing — texts that derive a given tree

A text `Writes` a tree when it derives the tree wherever it stands, whatever comes behind it that
leaves its last token alone.  Writing goes by the kinds of nodes: from texts of the children there
is one of the node, in which every operation is in parentheses.

Each pair of parentheses opens a conditional expression, and each branch of a choice another one; so
a tree of height `h` needs `2 * h - 2` open ones besides its own.
-/

namespace ChartScript

open Text

/-- Whether code may begin with a character: it is no layout, and it continues no mark. -/
def beginsCode (c : Char) : Bool := !isLayout c && !joiners.contains c

namespace Grammar

variable {code : String} {e : Expr} {c d f : Cursor} {rest : List Char} {G : Phrase}

theorem all_isDigit_eq_false {cs : List Char} {c : Char} (h : c ∈ cs) (hc : isDigit c = false) :
    cs.all isDigit = false := by
  rw [← Bool.not_eq_true]
  intro hall
  rw [List.all_eq_true.1 hall c h] at hc
  cases hc

/-- Any mark may stand in front of what begins as code does. -/
theorem endsMark_of_beginsCode {mark : String} (hm : mark ∈ punctuators)
    (h : ∀ x ∈ rest.head?, beginsCode x = true) : Scan.endsMark mark rest := by
  refine Scan.endsMark_of_joiners hm fun x hx => ?_
  have := h x hx
  rw [beginsCode, Bool.and_eq_true, Bool.not_eq_true', Bool.not_eq_true'] at this
  exact this.2

theorem beginsCode_of_isDigit {x : Char} (h : isDigit x = true) : beginsCode x = true := by
  have hj : joiners.all (fun y => !isDigit y) = true := by decide
  rw [beginsCode, isLayout_eq_false_of_isDigit h]
  rw [Bool.not_false, Bool.true_and, Bool.not_eq_true', ← Bool.not_eq_true]
  intro hx
  have := List.all_eq_true.1 hj x (List.contains_iff_mem.1 hx)
  rw [h] at this
  cases this

/-- The marks that may end an operand. -/
def closers : List String := [")", "]", "\x7d", ",", ":", "?"]

theorem closers_facts : ∀ mark ∈ closers, mark ∈ punctuators ∧ mark ≠ "." ∧ mark ≠ "++" ∧
    mark ≠ "--" ∧ mark ∈ brackets := by
  decide

/-- A mark begins with no identifier part. -/
theorem head?_punctuators : ∀ mark ∈ punctuators, mark ≠ "." →
    mark.toList.head?.any (fun x => isPlainBreak x && x != '.') = true := by
  decide

end Grammar

variable [Externals]

/-- What may come behind the text `code` of an operand: no identifier part, and a point only when
the text is not of digits. -/
def endsCode (code : String) (rest : List Char) : Prop :=
  Scan.endsName rest ∧ (rest.head? = some '.' → code.toList.all isDigit = false)

namespace Grammar

variable {code : String} {e : Expr} {c d f : Cursor} {rest : List Char} {G : Phrase}

/-- **The text `code` derives the tree `e` wherever it stands.** -/
structure Writes (code : String) (e : Expr) : Prop where
  begins : ∃ c cs, code.toList = c :: cs ∧ beginsCode c = true
  digits : (∀ value raw, e ≠ .literal (.number value) raw) → code.toList.all isDigit = false
  chain : ∀ {levels : Nat} {c : Cursor} {rest : List Char}, 2 * e.height ≤ levels + 2 →
    endsCode code rest → c.skipLayout.chars = code.toList ++ rest →
      ∃ d, Chain (Conditional levels) c e d ∧ d.chars = rest

/-- Where code stands there is no layout to skip. -/
theorem Writes.skipLayout_chars (h : Writes code e) (hc : c.chars = code.toList ++ rest) :
    c.skipLayout.chars = code.toList ++ rest := by
  obtain ⟨x, xs, hx, hb⟩ := h.begins
  refine Cursor.skipLayout_chars hc fun y hy => ?_
  rw [hx] at hy
  cases hy
  rw [beginsCode, Bool.and_eq_true, Bool.not_eq_true'] at hb
  exact hb.1

/-- Code continues no mark. -/
theorem Writes.endsMark (h : Writes code e) {mark : String} (hm : mark ∈ punctuators) :
    Scan.endsMark mark (code.toList ++ rest) := by
  obtain ⟨x, xs, hx, hb⟩ := h.begins
  refine endsMark_of_beginsCode hm fun y hy => ?_
  rw [hx] at hy
  cases hy
  exact hb

theorem Chain.unary (h : Chain G c e d) {l : Lexeme} (hl : d.Reads l f)
    (hi : l ≠ .punctuator "++") (hd : l ≠ .punctuator "--") : Unary G c e d :=
  .operand (.mk h (fun _ hr => hi (hl.lexeme_eq hr)) fun _ hr => hd (hl.lexeme_eq hr))

theorem Unary.binary (h : Unary G c e d) {level : Nat} (hl : level ≤ 12) : Binary G level c e d :=
  (Binary.unary h).of_le hl

/-! ## Codes up to a mark -/

/-- Any mark but a point may come behind any code. -/
theorem endsCode_mark {mark : String} (hm : mark ∈ punctuators) (hp : mark ≠ ".") :
    endsCode code (mark.toList ++ rest) := by
  obtain ⟨x, hx, hx'⟩ := (Option.any_eq_true _ _).1 (head?_punctuators mark hm hp)
  obtain ⟨xs, hxs⟩ := List.head?_eq_some_iff.1 hx
  rw [Bool.and_eq_true, bne_iff_ne] at hx'
  rw [hxs]
  exact ⟨Scan.endsName_cons.2 (isIdentifierPart_eq_false_of_isPlainBreak hx'.1),
    fun hp => absurd (Option.some.inj hp) hx'.2⟩

/-- An operand up to a mark that ends it. -/
theorem Writes.unary_upTo (h : Writes code e) {levels : Nat} (hl : 2 * e.height ≤ levels + 2)
    {mark : String} (hm : mark ∈ closers)
    (hc : c.skipLayout.chars = code.toList ++ (mark.toList ++ rest)) :
    ∃ d f, Unary (Conditional levels) c e d ∧ d.Reads (.punctuator mark) f ∧ f.chars = rest := by
  obtain ⟨hmark, hpoint, hi, hd, hclosed⟩ := closers_facts mark hm
  obtain ⟨d, hchain, hdc⟩ := h.chain hl (endsCode_mark hmark hpoint) hc
  obtain ⟨f, hf, hfc⟩ := Cursor.exists_reads_bracket_of_chars hdc hclosed
  exact ⟨d, f, hchain.unary hf (by simpa using hi) (by simpa using hd), hf, hfc⟩

/-- **A nested expression up to a mark that ends it.** -/
theorem Writes.upTo (h : Writes code e) {levels : Nat} (hl : 2 * e.height ≤ levels + 1)
    {mark : String} (hm : mark ∈ closers) (hc : c.chars = code.toList ++ (mark.toList ++ rest)) :
    ∃ d f, Conditional levels c e d ∧ d.Reads (.punctuator mark) f ∧ f.chars = rest := by
  have hpos := e.height_pos
  obtain ⟨levels, rfl⟩ : ∃ m, levels = m + 1 := ⟨levels - 1, by omega⟩
  obtain ⟨d, f, hu, hf, hfc⟩ := h.unary_upTo hl hm (h.skipLayout_chars hc)
  exact ⟨d, f, .operation (hu.binary (by omega)), hf, hfc⟩

/-- Code that writes a tree derives it by itself. -/
theorem Writes.derives (h : Writes code e) {levels : Nat}
    (hl : 2 * e.height ≤ levels + 2) : Derives (levels + 1) code e := by
  have hc : (Cursor.start code.toList).skipLayout.chars = code.toList ++ [] :=
    h.skipLayout_chars (by rw [List.append_nil]; rfl)
  obtain ⟨d, hchain, hd⟩ := h.chain hl ⟨Scan.endsName_nil, fun hp => nomatch hp⟩ hc
  obtain ⟨f, hf⟩ := Cursor.exists_reads_end hd
  exact ⟨d, f, .operation ((hchain.unary hf (by simp) (by simp)).binary (by decide)), hf⟩

/-! ## Words and literals -/

theorem beginsCode_of_isIdentifierStart {x : Char} (h : isIdentifierStart x = true) :
    beginsCode x = true := by
  have hp := isIdentifierPart_of_isIdentifierStart h
  have hj : joiners.all isPlainBreak = true := by decide
  rw [beginsCode, isLayout_eq_false_of_isIdentifierPart hp]
  rw [Bool.not_false, Bool.true_and, Bool.not_eq_true', ← Bool.not_eq_true]
  intro hx
  have hplain := List.all_eq_true.1 hj x (List.contains_iff_mem.1 hx)
  rw [isIdentifierPart_eq_false_of_isPlainBreak hplain] at hp
  cases hp

/-- What may come behind code may come behind its last token. -/
theorem endsLexeme_of_endsCode {l : Lexeme} (h : endsCode code rest) :
    Scan.endsLexeme l code.toList rest := by
  have hnumber : Scan.endsNumber code.toList rest := by
    intro x hx
    have hp := h.1 x hx
    refine ⟨?_, ?_, fun hpoint => h.2 (hpoint ▸ hx)⟩
    · rw [← Bool.not_eq_true]
      intro hs
      rw [isIdentifierPart_of_isIdentifierStart hs] at hp
      cases hp
    · rw [← Bool.not_eq_true]
      intro hd
      rw [isIdentifierPart_of_isDigit hd] at hp
      cases hp
  cases l <;> first | exact hnumber | exact h.1 | trivial

/-- A word or a literal begins as code does, and with a digit or a point only when it is a
number. -/
theorem begins_of_lexeme {raw : String} {l : Lexeme} (h : Scan.lexeme raw.toList = .ok (l, []))
    (hl : Scan.isOperandWord l = true) : ∃ x xs, raw.toList = x :: xs ∧ beginsCode x = true ∧
      ((∀ value octal, l ≠ .number value octal) → isDigit x = false) := by
  match hr : raw.toList with
  | [] =>
    rw [hr] at h
    cases h
    cases hl
  | x :: xs =>
    rw [hr] at h
    refine ⟨x, xs, rfl, ?_⟩
    rcases Scan.lexeme_eq_ok_cases h with
      ⟨hx, -⟩ | ⟨-, hq, -⟩ | ⟨-, -, hn, hread⟩ | ⟨-, -, -, hread⟩
    · exact ⟨beginsCode_of_isIdentifierStart hx, fun _ => isDigit_eq_false_of_isIdentifierStart hx⟩
    · rw [Bool.or_eq_true, beq_iff_eq, beq_iff_eq] at hq
      rcases hq with rfl | rfl
      · exact ⟨by decide, fun _ => by decide⟩
      · exact ⟨by decide, fun _ => by decide⟩
    · obtain ⟨value, octal, rfl⟩ := Scan.exists_number_of_number hread
      refine ⟨?_, fun hne => absurd rfl (hne value octal)⟩
      rw [Scan.beginsNumber, Bool.or_eq_true, Bool.and_eq_true, beq_iff_eq] at hn
      rcases hn with hd | ⟨rfl, -⟩
      · exact beginsCode_of_isDigit hd
      · decide
    · obtain ⟨mark, -, rfl⟩ := Scan.exists_mark_of_punctuator hread
      cases hl

/-- A word or a literal that stands at a place is read there. -/
theorem exists_reads_word {raw : String} {l : Lexeme} (h : Scan.lexeme raw.toList = .ok (l, []))
    (hl : Scan.isOperandWord l = true) (hends : endsCode raw rest)
    (hc : c.skipLayout.chars = raw.toList ++ rest) :
    ∃ d, c.Reads l d ∧ c.Spells raw d ∧ d.chars = rest := by
  obtain ⟨taken, htaken, hread⟩ := Scan.lexeme_append h hl
  rw [List.append_nil] at htaken
  subst htaken
  obtain ⟨d, hr, hdc⟩ := Cursor.exists_reads (hc ▸ hread rest (endsLexeme_of_endsCode hends))
  refine ⟨d, hr, ?_, hdc⟩
  unfold Cursor.Spells
  rw [hc, hdc]

/-- A text that is one word or literal writes what the word or the literal derives. -/
theorem writes_of_lexeme {raw : String} {l : Lexeme} (h : Scan.lexeme raw.toList = .ok (l, []))
    (hl : Scan.isOperandWord l = true)
    (hnumber : ∀ value octal, l = .number value octal → e = .literal (.number value) raw)
    (hword : ∀ {c d : Cursor}, c.Reads l d → c.Spells raw d → Word c e d) : Writes raw e := by
  obtain ⟨x, xs, hx, hb, hd⟩ := begins_of_lexeme h hl
  refine ⟨⟨x, xs, hx, hb⟩, fun hne => ?_, fun {levels c rest} _ hends hc => ?_⟩
  · refine all_isDigit_eq_false (by rw [hx]; exact List.mem_cons_self) (hd fun value octal hl => ?_)
    exact hne value raw (hnumber value octal hl)
  · obtain ⟨d, hr, hs, hdc⟩ := exists_reads_word h hl hends hc
    exact ⟨d, .primary (.word (hword hr hs)), hdc⟩

/-- **A literal writes itself**, unless it is a regular expression. -/
theorem writes_literal {value : Literal} {raw : String} (h : value.Spelled raw)
    (hv : ∀ pattern flags, value ≠ .regex pattern flags) : Writes raw (.literal value raw) := by
  match value with
  | .number value =>
    exact writes_of_lexeme h rfl (fun value octal hl => by cases hl; rfl) fun hr hs => .number hr hs
  | .string value =>
    exact writes_of_lexeme h rfl (fun _ _ hl => nomatch hl) fun hr hs => .string hr hs
  | .boolean value =>
    exact writes_of_lexeme h rfl (fun _ _ hl => nomatch hl) fun hr hs => .boolean hr hs
  | .null => exact writes_of_lexeme h rfl (fun _ _ hl => nomatch hl) fun hr hs => .null hr hs
  | .regex pattern flags => exact absurd rfl (hv pattern flags)

/-- **A reference writes itself.** -/
theorem writes_identifier {name : String} (h : IsReference name) :
    Writes name (.identifier name) := by
  obtain ⟨hname, hfree⟩ := h
  have hread : Scan.lexeme name.toList = .ok (Lexeme.ofName name, []) := by
    have := Scan.lexeme_name hname Scan.endsName_nil
    rwa [List.append_nil] at this
  refine writes_of_lexeme hread (Scan.isOperandWord_ofName name) ?_ ?_
  · intro value octal hl
    have hisName := Lexeme.isName_ofName name
    rw [hl] at hisName
    cases hisName
  · intro c d hr _
    rcases hfree with ⟨hr', hn, ht, hf⟩ | rfl | rfl
    · have hl : Lexeme.ofName name = .identifier name := by
        rw [Lexeme.ofName, hr', if_neg (by simp), if_neg hn, if_neg ht, if_neg hf]
      exact .name (hl ▸ hr)
    · exact .keyword hr (.inl rfl)
    · exact .keyword hr (.inr rfl)

/-! ## Regular expressions -/

/-- In front of a regular expression, the token is a slash, or a slash and an equals sign. -/
theorem exists_reads_slash {cs : List Char} (hc : c.skipLayout.chars = '/' :: cs) :
    ∃ mark b, c.Reads (.punctuator mark) b ∧ (mark = "/" ∨ mark = "/=") := by
  obtain ⟨mark, rest, hread, -, hmark⟩ := Scan.lexeme_slash cs
  obtain ⟨b, hb, -⟩ := Cursor.exists_reads (hc ▸ hread)
  exact ⟨mark, b, hb, hmark⟩

/-- **A regular expression writes itself.** -/
theorem writes_regex {raw pattern flags : String}
    (h : Scan.regexLiteral raw.toList = .ok ((pattern, flags), [])) :
    Writes raw (.literal (.regex pattern flags) raw) := by
  obtain ⟨taken, htaken, hread⟩ := Scan.local_regexLiteral h
  rw [List.append_nil] at htaken
  subst htaken
  obtain ⟨ds, -, -, -, hraw, -⟩ := Scan.regexLiteral_eq_ok_iff.1 h
  refine ⟨⟨'/', ds, hraw, by decide⟩, fun _ => ?_, fun {levels c rest} _ hends hc => ?_⟩
  · exact @all_isDigit_eq_false _ '/' (by rw [hraw]; exact List.mem_cons_self) (by decide)
  · have hslash : c.skipLayout.chars = '/' :: (ds ++ rest) := by rw [hc, hraw]; rfl
    obtain ⟨mark, b, hb, hmark⟩ := exists_reads_slash hslash
    have hx : c.ReadsRegex pattern flags (c.skipLayout.moveTo rest) :=
      Cursor.readsRegex_iff.2 ⟨rest, hc ▸ hread rest hends.1, rfl⟩
    exact ⟨_, .primary (.regex hb hmark hx hc), rfl⟩

/-- An empty group is a valid pattern, whatever the flags. -/
theorem validateLiteral_emptyGroup (hempty : Regex.AcceptsEmptyGroup) (flags : List Char) :
    Regex.validateLiteral ['(', '?', ':', ')'] flags = .ok () := by
  have hp : Regex.placeholders ['(', '?', ':', ')'] = .ok ['(', '?', ':', ')'] := by cbv
  have ht : ∀ unicode, Regex.translate unicode ['(', '?', ':', ')'] = .ok ['(', '?', ':', ')'] := by
    decide +kernel
  have hv : ∀ unicode, Regex.validate unicode ['(', '?', ':', ')'] = .ok () := by
    intro unicode
    rw [Regex.validate, ht unicode]
    exact if_pos hempty
  rw [Regex.validateLiteral, hp]
  split
  · exact hv true
  · exact hv false

/-- An empty group is a regular expression with any flags that are known. -/
theorem regexLiteral_emptyGroup (hempty : Regex.AcceptsEmptyGroup) {raw pattern flags : String}
    (h : Scan.regexLiteral raw.toList = .ok ((pattern, flags), [])) :
    Scan.regexLiteral ("/(?:)/" ++ flags).toList = .ok (("(?:)", flags), []) := by
  obtain ⟨_, _, _, chars, -, -, hflags, hk, -, hr⟩ := Scan.regexLiteral_eq_ok_iff.1 h
  obtain ⟨-, rfl⟩ := Prod.mk.inj hr
  have hsplit := Scan.regexFlags_append hflags (Scan.backslash_not_mem_of_known hk)
  refine Scan.regexLiteral_eq_ok_iff.2
    ⟨'(' :: '?' :: ':' :: ')' :: '/' :: chars, ['(', '?', ':', ')'], chars, chars, ?_, ?_, ?_, hk,
      validateLiteral_emptyGroup hempty chars, rfl⟩
  · rw [String.toList_append, @String.toList_ofList chars]
    rfl
  · rfl
  · exact hsplit.2.alone Scan.endsName_nil

/-- **An empty group stands for an empty pattern.** -/
theorem writes_emptyGroup (hempty : Regex.AcceptsEmptyGroup) {raw pattern flags : String}
    (h : Scan.regexLiteral raw.toList = .ok ((pattern, flags), [])) :
    Writes ("/(?:)/" ++ flags) (.literal (.regex "(?:)" flags) ("/(?:)/" ++ flags)) :=
  writes_regex (regexLiteral_emptyGroup hempty h)

end Grammar

end ChartScript
