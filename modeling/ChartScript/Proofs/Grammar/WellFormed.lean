import ChartScript.Proofs.Grammar.Assembly
import ChartScript.Proofs.Grammar.Recognition
import ChartScript.Proofs.Token.Seam
import ChartScript.Runtime

/-!
# Proofs/Grammar/WellFormed — what is derived is well formed

Each nonterminal derives well-formed trees when the nested one does, and so a conditional expression
does, by induction on the number of levels.  A literal is one token within the source, and it is the
same token by itself.
-/

namespace ChartScript

open Text

section

variable [Externals]

namespace Grammar

/-- `G` derives well-formed trees only. -/
def Forms (G : Phrase) : Prop := ∀ {c d : Cursor} {e : Expr}, G c e d → e.WellFormed

variable {G : Phrase} {a b c d : Cursor} {e : Expr}

/-- The text of a token is the same token by itself. -/
theorem lexeme_alone {raw : String} {l : Lexeme} (h : c.Reads l d) (hr : c.Spells raw d) :
    Scan.lexeme raw.toList = .ok (l, []) := by
  obtain ⟨rest, hscan, rfl⟩ := Cursor.reads_iff.1 h
  obtain ⟨taken, htaken, hread⟩ := Scan.selfContained_lexeme hscan
  obtain rfl : taken = raw.toList := List.append_cancel_right (htaken.symm.trans hr)
  exact hread

/-- A regular expression is one token by itself. -/
theorem regexLiteral_alone {raw pattern flags : String} (h : c.ReadsRegex pattern flags d)
    (hr : c.Spells raw d) : Scan.regexLiteral raw.toList = .ok ((pattern, flags), []) := by
  obtain ⟨rest, hscan, rfl⟩ := Cursor.readsRegex_iff.1 h
  obtain ⟨taken, htaken, hread⟩ := Scan.selfContained_regexLiteral hscan
  obtain rfl : taken = raw.toList := List.append_cancel_right (htaken.symm.trans hr)
  exact hread

/-- A name that is read is one, and it is the word that the name makes. -/
theorem isName_of_reads {l : Lexeme} (h : c.Reads l d) (hl : l.isName = true) :
    IsName l.text ∧ l = Lexeme.ofName l.text := by
  obtain ⟨rest, h, -⟩ := Cursor.reads_iff.1 h
  exact Scan.isName_of_lexeme h hl

omit [Externals] in
/-- A lexeme is an identifier when its name is neither reserved nor a literal. -/
theorem ofName_eq_identifier {text name : String} (h : Lexeme.ofName text = .identifier name) :
    isReservedWord name = false ∧ name ≠ "null" ∧ name ≠ "true" ∧ name ≠ "false" := by
  unfold Lexeme.ofName at h
  split at h
  · cases h
  · next hr =>
    split at h
    · cases h
    · next hn =>
      split at h
      · cases h
      · next ht =>
        split at h
        · cases h
        · next hf =>
          cases h
          exact ⟨by simpa using hr, hn, ht, hf⟩

/-- **A word that is derived is a well-formed literal or name.** -/
theorem forms_word : Forms Word := by
  intro c d e h
  cases h with
  | name h =>
    obtain ⟨hname, hl⟩ := isName_of_reads h rfl
    exact .identifier ⟨hname, .inl (ofName_eq_identifier hl.symm)⟩
  | keyword h hw => exact .identifier ⟨(isName_of_reads h rfl).1, .inr hw⟩
  | number h hr => exact .literal (lexeme_alone h hr)
  | string h hr => exact .literal (lexeme_alone h hr)
  | boolean h hr => exact .literal (lexeme_alone h hr)
  | null h hr => exact .literal (lexeme_alone h hr)

/-- A key is a string, a number or a name. -/
theorem Key.isKey {key : Expr} (h : Key c key d) : key.IsKey := by
  cases h with
  | name h hl => exact .name (isName_of_reads h hl).1
  | number h hr => exact .number (lexeme_alone h hr)
  | string h hr => exact .string (lexeme_alone h hr)

/-- The elements of an array are well formed, by induction on the derivation. -/
theorem Slots.wellFormed (hG : Forms G) {slots : List (Option Expr)} (h : Slots G c slots d) :
    ∀ e, some e ∈ slots → e.WellFormed := by
  induction h with
  | close _ => simp
  | hole _ _ ih =>
    intro e he
    rcases List.mem_cons.1 he with he | he
    · cases he
    · exact ih e he
  | last element _ =>
    intro e he
    obtain rfl := Option.some.inj (List.mem_singleton.1 he)
    exact hG element
  | more element _ _ ih =>
    intro e he
    rcases List.mem_cons.1 he with he | he
    · obtain rfl := Option.some.inj he
      exact hG element
    · exact ih e he

theorem Entry.wellFormed (hG : Forms G) {entry : Expr × Expr} (h : Entry G c entry d) :
    entry.1.IsKey ∧ entry.2.WellFormed := by
  obtain ⟨hk, -, hv⟩ := h
  exact ⟨hk.isKey, hG hv⟩

/-- So are the entries of an object. -/
theorem Entries.wellFormed (hG : Forms G) {entries : List (Expr × Expr)}
    (h : Entries G c entries d) : ∀ entry ∈ entries, entry.1.IsKey ∧ entry.2.WellFormed := by
  induction h with
  | close _ => simp
  | last first _ =>
    intro entry he
    obtain rfl := List.mem_singleton.1 he
    exact first.wellFormed hG
  | more first _ _ ih =>
    intro entry he
    rcases List.mem_cons.1 he with rfl | he
    · exact first.wellFormed hG
    · exact ih entry he

theorem ArgumentList.wellFormed (hG : Forms G) {es : List Expr} (h : ArgumentList G c es d) :
    ∀ e ∈ es, e.WellFormed := by
  induction h with
  | last first _ =>
    intro e he
    obtain rfl := List.mem_singleton.1 he
    exact hG first
  | more first _ _ ih =>
    intro e he
    rcases List.mem_cons.1 he with rfl | he
    · exact hG first
    · exact ih e he

theorem Arguments.wellFormed (hG : Forms G) {es : List Expr} (h : Arguments G c es d) :
    ∀ e ∈ es, e.WellFormed := by
  cases h with
  | none _ _ => simp
  | some _ args => exact args.wellFormed hG

/-- **A primary expression is well formed** when the expressions in it are. -/
theorem forms_primary (hG : Forms G) : Forms (Primary G) := by
  intro c d e h
  cases h with
  | word h => exact forms_word h
  | regex _ _ hx hr => exact .literal (regexLiteral_alone hx hr)
  | group _ he _ => exact hG he
  | array _ hs => exact .array (hs.wellFormed hG)
  | object _ hs hk =>
    exact .object (fun entry he => (hs.wellFormed hG entry he).1)
      (fun entry he => (hs.wellFormed hG entry he).2) hk

/-- So is a chain of members and calls. -/
theorem forms_chain (hG : Forms G) : Forms (Chain G) := by
  intro c d e h
  induction h with
  | primary h => exact forms_primary hG h
  | named _ _ h hl ih => exact .named ih (isName_of_reads h hl).1
  | computed _ _ hp _ ih => exact .computed ih (hG hp)
  | call _ ha ih => exact .call ih (ha.wellFormed hG)

theorem forms_unary (hG : Forms G) : Forms (Unary G) := by
  intro c d e h
  induction h with
  | operand h =>
    obtain ⟨h, -, -⟩ := h
    exact forms_chain hG h
  | operator _ _ ih => exact .unary ih

/-- An operator makes a well-formed tree of two. -/
theorem wellFormed_apply {op : Connective} {left right : Expr} (hl : left.WellFormed)
    (hr : right.WellFormed) : (op.apply left right).WellFormed := by
  cases op with
  | binary _ => exact .binary hl hr
  | logical _ => exact .logical hl hr

/-- Operations are well formed at every level. -/
theorem forms_binary (hG : Forms G) {level : Nat} : Forms (Binary G level) := by
  intro c d e h
  induction h with
  | unary h => exact forms_unary hG h
  | tighter _ ih => exact ih
  | operation _ _ _ ihl ihr => exact wellFormed_apply ihl ihr

/-- **A conditional expression derives well-formed trees only.** -/
theorem forms_conditional (levels : Nat) : Forms (Conditional levels) := by
  induction levels with
  | zero =>
    intro c d e h
    exact h.elim
  | succ levels ih =>
    intro c d e h
    cases h with
    | operation h => exact forms_binary ih h
    | choice ht _ hc _ ha => exact .conditional (forms_binary ih ht) (ih hc) (ih ha)

end Grammar

variable {source : String} {e : Expr}

/-- **What is derived from a text is well formed.** -/
theorem Grammar.Derives.wellFormed {levels : Nat} (h : Derives levels source e) :
    e.WellFormed := by
  obtain ⟨d, f, h, -⟩ := h
  exact forms_conditional levels h

/-- **Every tree that the parser returns is well formed.** -/
theorem Expr.wellFormed_of_parse (h : Expr.parse source = .ok e) : e.WellFormed :=
  (Grammar.derives_of_parse h).1.wellFormed

end

/-- An object with a member of `this` in it, and with a key that is a string. -/
theorem Expr.wellFormed_of_parse_object :
    let e : Expr := .object [
      .property (.identifier "a") (.member (.identifier "this") (.identifier "b") false),
      .property (.literal (.string "c") "'c'") (.literal (.string "d") "\"d\"")]
    Expr.parse "\x7ba:this.b,'c':\"d\"\x7d" = .ok e ∧ e.WellFormed := by
  intro e
  have hthis : IsReference "this" := isReference_of_plain (by decide)
  have hb : IsName "b" := isName_of_plain (by decide)
  have hmember : Grammar.Writes ("this" ++ "." ++ "b")
      (.member (.identifier "this") (.identifier "b") false) :=
    Grammar.writes_named (Grammar.writes_identifier hthis) (by decide) hb
  have hkey : (Literal.string "c").Spelled "'c'" := by
    unfold Literal.Spelled
    cbv
  have hvalue : (Literal.string "d").Spelled "\"d\"" := by
    unfold Literal.Spelled
    cbv
  have hobject : Grammar.Writes "\x7ba:this.b,'c':\"d\"\x7d" e := by
    refine @Grammar.writes_object _ [
      ("a:this.b", .identifier "a", .member (.identifier "this") (.identifier "b") false),
      ("'c':\"d\"", .literal (.string "c") "'c'", .literal (.string "d") "\"d\"")] ?_ (by decide)
    simp only [List.forall_mem_cons, List.not_mem_nil, false_imp_iff, implies_true, and_true]
    exact ⟨⟨.name (isName_of_plain (by decide)), _, hmember, rfl⟩,
      .string hkey, _, Grammar.writes_literal hvalue (by simp), rfl⟩
  have hparse : Expr.parse "\x7ba:this.b,'c':\"d\"\x7d" = .ok e := hobject.parse_eq (by decide)
  exact ⟨hparse, Expr.wellFormed_of_parse hparse⟩

end ChartScript
