import ChartScript.Proofs.Grammar.WellFormed
import ChartScript.Proofs.Sandbox.Globals
import ChartScript.Proofs.Text.Utf16
import ChartScript.Runtime

/-!
# Proofs/Sandbox/Accessor — no name breaks out of the global accessor

The accessor puts a free name between quotes as it stands.  That is safe because of the lexer alone:
whatever way a name is written, its characters are identifier parts and no backslashes, and no
quote, backslash or line terminator is among those.  So between the quotes the name is one string,
which says the name.
-/

namespace ChartScript

open Text

section

variable [Externals]

namespace Scan

omit [Externals] in
/-- A text without quotes, backslashes and line terminators is what its string says. -/
theorem quoted_plain {quote : Char} {cs rest : List Char}
    (h : ∀ c ∈ cs, c ≠ quote ∧ c ≠ '\\' ∧ isLineTerminator c = false) :
    quoted quote (cs ++ quote :: rest) = .ok (.plain (cs.flatMap units), rest) := by
  induction cs with
  | nil =>
    rw [List.nil_append, quoted.eq_def]
    simp only [beq_self_eq_true, if_true, List.flatMap_nil]
  | cons c cs ih =>
    obtain ⟨hq, hb, ht⟩ := h c List.mem_cons_self
    have hq : (c == quote) = false := beq_eq_false_iff_ne.2 hq
    have hb : (c == '\\') = false := beq_eq_false_iff_ne.2 hb
    rw [List.cons_append, quoted.eq_def]
    simp only [hq, hb, ht, Bool.false_eq_true, if_false]
    rw [ih fun d hd => h d (List.mem_cons_of_mem _ hd)]
    rfl

/-- **A name between quotes is a string that says the name.** -/
theorem lexeme_quoted_name {name : String} (h : IsName name) (rest : List Char) :
    lexeme ('"' :: (name.toList ++ '"' :: rest)) = .ok (.string name false, rest) := by
  have hquote : isIdentifierPart '"' = false :=
    isIdentifierPart_eq_false_of_isPlainBreak (by decide)
  have hplain : ∀ c ∈ name.toList, c ≠ '"' ∧ c ≠ '\\' ∧ isLineTerminator c = false := by
    intro c hc
    obtain ⟨hp, hb⟩ := h.isIdentifierPart c hc
    exact ⟨ne_of_isIdentifierPart hp hquote, hb,
      isLineTerminator_eq_false_of_isIdentifierPart hp⟩
  rw [lexeme, isIdentifierStart_eq_false hquote, stringLiteral, quoted_plain hplain]
  simp only [mapValue, Piece.plain, decodeUnits_flatMap_units, String.ofList_toList]
  rfl

end Scan

namespace Cursor

/-- The lexemes from a place on, and what stops the scanner before the end of the text. -/
def lexemes (c : Cursor) : List Lexeme × Option LexicalFailure :=
  (c.tokens.1.map Token.lexeme, c.tokens.2)

/-- The lexemes are that of the next token and those behind it. -/
theorem Reads.lexemes_eq {c d : Cursor} {l : Lexeme} (h : c.Reads l d) (hl : l.isEnd = false) :
    c.lexemes = (l :: d.lexemes.1, d.lexemes.2) := by
  obtain ⟨start, stop, h⟩ := h
  rw [lexemes, tokens_eq_of_next h hl]
  rfl

theorem Reads.lexemes_eq_end {c d : Cursor} (h : c.Reads .endOfInput d) :
    c.lexemes = ([.endOfInput], none) := by
  obtain ⟨start, stop, h⟩ := h
  rw [lexemes, tokens_eq_of_isEnd h rfl]
  rfl

end Cursor

/-- **A name in brackets and quotes is three tokens**, and the middle one says the name. -/
theorem lexemes_bracketed_name {name : String} (h : IsName name) :
    (Cursor.start ("[\"" ++ name ++ "\"]").toList).lexemes =
      ([.punctuator "[", .string name false, .punctuator "]", .endOfInput], none) := by
  have hchars : (Cursor.start ("[\"" ++ name ++ "\"]").toList).chars =
      "[".toList ++ '"' :: (name.toList ++ '"' :: "]".toList) := by
    simp [Cursor.start, String.toList_append]
  obtain ⟨c₁, h₁, hc₁⟩ := Cursor.exists_reads_bracket_of_chars hchars (by decide)
  have hs₁ := Cursor.skipLayout_chars hc₁ fun d hd => by cases hd; decide
  obtain ⟨c₂, h₂, hc₂⟩ := Cursor.exists_reads (hs₁ ▸ Scan.lexeme_quoted_name h "]".toList)
  obtain ⟨c₃, h₃, hc₃⟩ := Cursor.exists_reads_bracket_of_chars
    (hc₂.trans (List.append_nil _).symm) (by decide)
  obtain ⟨c₄, h₄⟩ := Cursor.exists_reads_end hc₃
  rw [h₁.lexemes_eq rfl, h₂.lexemes_eq rfl, h₃.lexemes_eq rfl, h₄.lexemes_eq_end]

/-- **No name breaks out of the global accessor.**  In a tree that was read, every identifier is a
name, and where code for the tree refers to a free name through a global object, what it puts behind
the object is an opening bracket, a string that says the name, and a closing bracket. -/
theorem Sandbox.globals_access_of_parse {source : String} {e : Expr}
    (h : Expr.parse source = .ok e) :
    (∀ name, .identifier name ∈ e.preorder → IsName name) ∧
      ∀ (sandbox : Sandbox) (object : String) (out : Output), sandbox.globalVar = .named object →
        sandbox.Standard → sandbox.compile e = .ok out → ∀ name ∈ out.globals,
          ∃ suffix, sandbox.globalVar.access name = object ++ suffix ∧
            (Cursor.start suffix.toList).lexemes =
              ([.punctuator "[", .string name false, .punctuator "]", .endOfInput], none) := by
  have hw := (Grammar.derives_of_parse h).1.wellFormed
  refine ⟨fun name hn => hw.isName hn, fun sandbox object out hg hstd hc name hn => ?_⟩
  have hname := hw.isName (mentions_of_mem_globals hstd hc name hn)
  refine ⟨"[\"" ++ name ++ "\"]", ?_, lexemes_bracketed_name hname⟩
  rw [hg]
  simp only [GlobalVar.access, String.append_assoc]

end

/-- A name that is written as an escape, in a sandbox that reads free names off an object. -/
theorem Sandbox.globals_access_of_escape :
    let sandbox : Sandbox := ⟨[], [], [], [], .named "vars", none⟩
    Expr.parse "\\u0061" = .ok (.identifier "a") ∧ IsName "a" ∧
      sandbox.compile (.identifier "a") = .ok ⟨"vars[\"a\"]", ["a"], []⟩ ∧
      ∃ suffix, sandbox.globalVar.access "a" = "vars" ++ suffix ∧
        (Cursor.start suffix.toList).lexemes =
          ([.punctuator "[", .string "a" false, .punctuator "]", .endOfInput], none) := by
  intro sandbox
  have hread : Scan.lexeme "\\u0061".toList = .ok (.identifier "a", []) := by cbv
  have hwrites : Grammar.Writes "\\u0061" (.identifier "a") :=
    Grammar.writes_of_lexeme hread rfl (by simp) fun hr _ => .name hr
  have hparse : Expr.parse "\\u0061" = .ok (.identifier "a") :=
    hwrites.parse_eq (by decide)
  have hc : sandbox.compile (.identifier "a") = .ok ⟨"vars[\"a\"]", ["a"], []⟩ :=
    compile_eq_of_outcome? rfl
  have hstd : sandbox.Standard := fun _ _ hf => List.not_mem_nil hf
  obtain ⟨hname, haccess⟩ := Sandbox.globals_access_of_parse hparse
  refine ⟨hparse, hname "a" ?_, hc, haccess sandbox "vars" _ rfl hstd hc "a" List.mem_cons_self⟩
  exact Expr.mentions_identifier.2 rfl

end ChartScript
