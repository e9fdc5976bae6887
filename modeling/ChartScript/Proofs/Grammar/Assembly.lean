import ChartScript.Proofs.Expr.Printed
import ChartScript.Proofs.Grammar.Writing
import ChartScript.Proofs.Sandbox.Emission

/-!
# Proofs/Grammar/Assembly — texts of nodes from texts of their children

Operations and choices stand in parentheses of their own, so their operands need no care; lists have
commas between their items.  Each kind of node has one lemma here, which puts texts that write the
children together to a text that writes the node.
-/

namespace ChartScript

open Text

/-- Whether an operator between two operands is spelled as a word. -/
def Connective.isWord : Connective → Bool
  | .binary op => op.isWord
  | .logical _ => false

/-- What sets an operator off from its operands. -/
def Connective.gap (op : Connective) : String := if op.isWord then " " else ""

theorem Connective.gap_mark {op : Connective} (h : op.isWord = false) : op.gap = "" := by
  rw [gap, h]
  rfl

theorem Connective.gap_word {op : Connective} (h : op.isWord = true) : op.gap = " " := by
  rw [gap, h]
  rfl

namespace Grammar

variable {code : String} {e : Expr} {c : Cursor} {rest : List Char}

variable [Externals]

/-- Code that begins with an opening bracket stands anywhere. -/
theorem writes_of_opening {mark : String} {inside : List Char} (hm : mark ∈ ["(", "[", "\x7b"])
    (htext : code.toList = mark.toList ++ inside)
    (hinside : ∀ {levels : Nat} {c a : Cursor} {rest : List Char}, 2 * e.height ≤ levels + 2 →
      c.Reads (.punctuator mark) a → a.chars = inside ++ rest →
        ∃ d, Chain (Conditional levels) c e d ∧ d.chars = rest) : Writes code e := by
  have hfacts : ∀ mark ∈ ["(", "[", "\x7b"],
      mark ∈ brackets ∧ mark.toList.head?.any (fun x => beginsCode x && !isDigit x) = true := by
    decide
  obtain ⟨hclosed, hhead⟩ := hfacts mark hm
  obtain ⟨x, hx, hb⟩ := (Option.any_eq_true _ _).1 hhead
  obtain ⟨xs, hxs⟩ := List.head?_eq_some_iff.1 hx
  rw [Bool.and_eq_true, Bool.not_eq_true'] at hb
  have htext' : code.toList = x :: (xs ++ inside) := by rw [htext, hxs, List.cons_append]
  refine ⟨⟨x, _, htext', hb.1⟩, fun _ => ?_, fun {levels c rest} hl _ hc => ?_⟩
  · exact all_isDigit_eq_false (htext' ▸ List.mem_cons_self) hb.2
  · rw [htext, List.append_assoc] at hc
    obtain ⟨a, ha, hac⟩ := Cursor.exists_reads_bracket hc hclosed
    exact hinside hl ha hac

/-! ## Operations -/

/-- **What is put in parentheses** stands anywhere. -/
theorem writes_group {inside : String} (he : 1 < e.height)
    (hinside : ∀ {levels : Nat} {c : Cursor} {rest : List Char}, 2 * e.height ≤ levels + 3 →
      c.chars = inside.toList ++ (")".toList ++ rest) →
        ∃ d f, ConditionalOver (Conditional levels) c e d ∧ d.Reads (.punctuator ")") f ∧
          f.chars = rest) :
    Writes ("(" ++ inside ++ ")") e := by
  have htext : ("(" ++ inside ++ ")").toList = "(".toList ++ (inside.toList ++ ")".toList) := by
    rw [String.toList_append, String.toList_append, List.append_assoc]
  refine writes_of_opening (by decide) htext fun {levels c a rest} hl ha hac => ?_
  obtain ⟨m, rfl⟩ : ∃ m, levels = m + 1 := ⟨levels - 1, by omega⟩
  rw [List.append_assoc] at hac
  obtain ⟨d, f, he, hf, hfc⟩ := hinside (by omega) hac
  exact ⟨f, .primary (.group ha he hf), hfc⟩

omit [Externals] in
theorem operatorMark_facts (op : Connective) (h : op.isWord = false) :
    op.symbol ∈ punctuators ∧ op.symbol ≠ "." ∧ op.symbol ≠ "++" ∧ op.symbol ≠ "--" := by
  revert h
  rcases op with op | op <;> cases op <;> decide

theorem operatorWord_facts (op : Connective) (h : op.isWord = true) :
    IsName op.symbol ∧ Lexeme.ofName op.symbol = .keyword op.symbol := by
  have hop : op.symbol = "in" ∨ op.symbol = "instanceof" := by
    revert h
    rcases op with op | op <;> cases op <;> decide
  rcases hop with hop | hop
  · rw [hop]
    exact ⟨isName_of_plain (by decide), rfl⟩
  · rw [hop]
    exact ⟨isName_of_plain (by decide), rfl⟩

/-- An operator and what sets it off may come behind any code. -/
theorem endsCode_operator (op : Connective) :
    endsCode code (op.gap.toList ++ (op.symbol.toList ++ rest)) := by
  match hw : op.isWord with
  | false =>
    obtain ⟨hm, hp, -⟩ := operatorMark_facts op hw
    rw [Connective.gap_mark hw]
    exact @endsCode_mark _ _ rest _ hm hp
  | true =>
    rw [Connective.gap_word hw]
    exact ⟨Scan.endsName_cons.2 (isIdentifierPart_eq_false_of_isLayout (by decide)),
      fun hp => nomatch hp⟩

/-- **An operator is read** in front of the code of its right operand. -/
theorem exists_reads_operator (op : Connective) (h : Writes code e)
    (hc : c.chars =
      op.gap.toList ++ (op.symbol.toList ++ (op.gap.toList ++ (code.toList ++ rest)))) :
    ∃ l d, c.Reads l d ∧ l ≠ .punctuator "++" ∧ l ≠ .punctuator "--" ∧ Operator op c d ∧
      d.skipLayout.chars = code.toList ++ rest := by
  match hw : op.isWord with
  | false =>
    obtain ⟨hm, hp, hi, hd⟩ := operatorMark_facts op hw
    rw [Connective.gap_mark hw] at hc
    obtain ⟨d, hr, hdc⟩ := Cursor.exists_reads_mark (Cursor.skipLayout_chars_mark hm hc) hm
      (h.endsMark hm) fun heq => absurd heq hp
    exact ⟨_, d, hr, by simpa using hi, by simpa using hd, .inl hr, h.skipLayout_chars hdc⟩
  | true =>
    obtain ⟨hname, hkeyword⟩ := operatorWord_facts op hw
    rw [Connective.gap_word hw] at hc
    have hskip : c.skipLayout.chars
        = op.symbol.toList ++ (' ' :: (code.toList ++ rest)) := by
      refine Cursor.skipLayout_chars_blank hc fun x hx => ?_
      obtain ⟨y, ys, hy, hstart, -⟩ := hname
      rw [hy] at hx
      cases hx
      exact isLayout_eq_false_of_isIdentifierPart (isIdentifierPart_of_isIdentifierStart hstart)
    obtain ⟨d, hr, hdc⟩ := Cursor.exists_reads_name hskip hname
      (Scan.endsName_cons.2 (isIdentifierPart_eq_false_of_isLayout (by decide)))
    rw [hkeyword] at hr
    refine ⟨_, d, hr, by simp, by simp, .inr hr, Cursor.skipLayout_chars_blank hdc fun x hx => ?_⟩
    obtain ⟨y, ys, hy, hb⟩ := h.begins
    rw [hy] at hx
    cases hx
    rw [beginsCode, Bool.and_eq_true, Bool.not_eq_true'] at hb
    exact hb.1

/-- **An operation writes itself** in parentheses. -/
theorem writes_operation (op : Connective) {l r : String} {left right : Expr} (hl : Writes l left)
    (hr : Writes r right) :
    Writes ("(" ++ (l ++ op.gap ++ op.symbol ++ op.gap ++ r) ++ ")") (op.apply left right) := by
  have hheight := op.height_apply left right
  have hpos := left.height_pos
  refine writes_group (by omega) fun {levels c rest} hlevels hc => ?_
  simp only [String.toList_append, List.append_assoc] at hc
  obtain ⟨a, ha, hac⟩ := @hl.chain levels _ _ (by omega) (endsCode_operator op)
    (hl.skipLayout_chars hc)
  obtain ⟨lexeme, b, hb, hi, hd, hop, hbc⟩ := exists_reads_operator op hr hac
  obtain ⟨d, f, hright, hf, hfc⟩ := @hr.unary_upTo _ _ _ _ _ levels (by omega) ")" (by decide) hbc
  have hbinary : Binary (Conditional levels) op.precedence c (op.apply left right) d :=
    .operation ((ha.unary hb hi hd).binary (Nat.le_of_lt op.precedence_lt)) hop
      (hright.binary op.precedence_lt)
  exact ⟨d, f, .operation (hbinary.of_le op.precedence_pos), hf, hfc⟩

omit [Externals] in
theorem unaryMark_facts (op : UnaryOperator) : op.symbol ∈ punctuators ∧ op.symbol ≠ "." := by
  cases op <;> decide

/-- An operator in front of an operand writes itself in parentheses. -/
theorem writes_unary (op : UnaryOperator) (h : Writes code e) :
    Writes ("(" ++ (op.symbol ++ code) ++ ")") (.unary op e) := by
  have hheight := Expr.height_unary op e
  have hpos := e.height_pos
  obtain ⟨hm, hp⟩ := unaryMark_facts op
  refine writes_group (by omega) fun {levels c rest} hlevels hc => ?_
  rw [String.toList_append, List.append_assoc] at hc
  obtain ⟨a, ha, hac⟩ := Cursor.exists_reads_mark (Cursor.skipLayout_chars_mark hm hc) hm
    (h.endsMark hm) fun heq => absurd heq hp
  obtain ⟨d, f, hu, hf, hfc⟩ := @h.unary_upTo _ _ _ _ _ levels (by omega) ")" (by decide)
    (h.skipLayout_chars hac)
  have hunary : Unary (Conditional levels) c (.unary op e) d := .operator ha hu
  exact ⟨d, f, .operation (hunary.binary (by decide)), hf, hfc⟩

/-- A choice writes itself in parentheses. -/
theorem writes_conditional {t m a : String} {test consequent alternate : Expr}
    (ht : Writes t test) (hm : Writes m consequent) (ha : Writes a alternate) :
    Writes ("(" ++ (t ++ "?" ++ m ++ ":" ++ a) ++ ")")
      (.conditional test consequent alternate) := by
  have hheight := Expr.height_conditional test consequent alternate
  have hpos := test.height_pos
  refine writes_group (by omega) fun {levels c rest} hlevels hc => ?_
  simp only [String.toList_append, List.append_assoc] at hc
  obtain ⟨x, y, hx, hy, hyc⟩ := @ht.unary_upTo _ _ _ _ _ levels (by omega) "?" (by decide)
    (ht.skipLayout_chars hc)
  obtain ⟨z, w, hz, hw, hwc⟩ := @hm.upTo _ _ _ _ _ levels (by omega) ":" (by decide) hyc
  obtain ⟨d, f, hd, hf, hfc⟩ := @ha.upTo _ _ _ _ _ levels (by omega) ")" (by decide) hwc
  exact ⟨d, f, .choice (hx.binary (by decide)) hy hz hw hd, hf, hfc⟩

/-! ## Lists -/

/-- **Items with commas between them**, up to the mark that closes the list: the list of items is
derived when each item is, up to the comma or the mark behind it. -/
theorem exists_separated {α : Type} {item : Cursor → α → Cursor → Prop}
    {list : Cursor → List α → Cursor → Prop} {close : String}
    (hlast : ∀ {a b d : Cursor} {x : α}, item a x b → b.Reads (.punctuator close) d → list a [x] d)
    (hmore : ∀ {a b c d : Cursor} {x : α} {xs : List α}, item a x b →
      b.Reads (.punctuator ",") c → list c xs d → list a (x :: xs) d)
    {parts : List (String × α)} (hne : parts ≠ [])
    (hitem : ∀ part ∈ parts, ∀ mark ∈ [",", close], ∀ {c : Cursor} {rest : List Char},
      c.chars = part.1.toList ++ (mark.toList ++ rest) →
        ∃ d f, item c part.2 d ∧ d.Reads (.punctuator mark) f ∧ f.chars = rest)
    (hc : c.chars = (joinCodes (parts.map (·.1))).toList ++ (close.toList ++ rest)) :
    ∃ d, list c (parts.map (·.2)) d ∧ d.chars = rest := by
  induction parts generalizing c with
  | nil => exact absurd rfl hne
  | cons part parts ih =>
    match parts with
    | [] =>
      rw [List.map_singleton, joinCodes_singleton] at hc
      obtain ⟨d, f, hd, hf, hfc⟩ := hitem part List.mem_cons_self close (by simp) hc
      exact ⟨f, hlast hd hf, hfc⟩
    | next :: parts =>
      rw [List.map_cons, List.map_cons, joinCodes_cons_cons] at hc
      simp only [String.toList_append, List.append_assoc] at hc
      obtain ⟨d, f, hd, hf, hfc⟩ := hitem part List.mem_cons_self "," (by simp) hc
      obtain ⟨g, hg, hgc⟩ := ih (by simp) (fun x hx => hitem x (List.mem_cons_of_mem _ hx)) hfc
      exact ⟨g, hmore hd hf hg, hgc⟩

/-- What a text has to be to write a slot: nothing for a hole. -/
def WritesSlot (code : String) : Option Expr → Prop
  | none => code = ""
  | some e => Writes code e

/-- The tree of a slot between two places, or the same place for a hole. -/
def SlotOver (inner : Phrase) (c : Cursor) (slot : Option Expr) (d : Cursor) : Prop :=
  match slot with
  | none => c = d
  | some e => inner c e d

/-- A slot up to a mark that ends it. -/
theorem WritesSlot.upTo {slot : Option Expr} (h : WritesSlot code slot) {levels : Nat}
    (hl : ∀ e, slot = some e → 2 * e.height ≤ levels + 1) {mark : String} (hm : mark ∈ closers)
    (hc : c.chars = code.toList ++ (mark.toList ++ rest)) :
    ∃ d f, SlotOver (Conditional levels) c slot d ∧ d.Reads (.punctuator mark) f ∧
      f.chars = rest := by
  match slot with
  | none =>
    obtain rfl : code = "" := h
    obtain ⟨-, -, -, -, hclosed⟩ := closers_facts mark hm
    obtain ⟨f, hf, hfc⟩ := @Cursor.exists_reads_bracket_of_chars c rest _ mark hc hclosed
    exact ⟨c, f, rfl, hf, hfc⟩
  | some e => exact Writes.upTo h (hl e rfl) hm hc

/-- **An array writes itself** in brackets, but for a hole that is its last slot. -/
theorem writes_array {parts : List (String × Option Expr)}
    (h : ∀ part ∈ parts, WritesSlot part.1 part.2) :
    Writes ("[" ++ joinCodes (parts.map (·.1)) ++ "]")
      (.array (dropFinalHole (parts.map (·.2)))) := by
  have htext : ("[" ++ joinCodes (parts.map (·.1)) ++ "]").toList
      = "[".toList ++ ((joinCodes (parts.map (·.1))).toList ++ "]".toList) := by
    rw [String.toList_append, String.toList_append, List.append_assoc]
  refine writes_of_opening (by decide) htext fun {levels c a rest} hl ha hac => ?_
  rw [List.append_assoc] at hac
  suffices hs : ∃ d, Slots (Conditional levels) a (dropFinalHole (parts.map (·.2))) d ∧
      d.chars = rest by
    obtain ⟨d, hd, hdc⟩ := hs
    exact ⟨d, .primary (.array ha hd), hdc⟩
  by_cases hne : parts = []
  · subst hne
    obtain ⟨d, hd, hdc⟩ := @Cursor.exists_reads_bracket_of_chars a _ _ "]" hac (by decide)
    exact ⟨d, .close hd, hdc⟩
  · have hcloser : ∀ mark ∈ [",", "]"], mark ∈ closers := by decide
    -- the comma behind a slot that is not the last one makes no difference to the last one
    suffices hs : ∃ d, (parts.map (·.2) ≠ [] ∧
        Slots (Conditional levels) a (dropFinalHole (parts.map (·.2))) d) ∧ d.chars = rest by
      obtain ⟨d, ⟨-, hd⟩, hdc⟩ := hs
      exact ⟨d, hd, hdc⟩
    refine @exists_separated _ _ _ _ (SlotOver (Conditional levels))
      (fun c slots d => slots ≠ [] ∧ Slots (Conditional levels) c (dropFinalHole slots) d) "]"
      ?_ ?_ parts hne (fun part hpart mark hmark _ _ hc => ?_) hac
    · intro a b d slot hitem hclose
      refine ⟨List.cons_ne_nil _ _, ?_⟩
      cases slot with
      | none =>
        obtain rfl : a = b := hitem
        exact .close hclose
      | some e => exact .last hitem hclose
    · rintro a b c d slot slots hitem hcomma ⟨hne, hlater⟩
      refine ⟨List.cons_ne_nil _ _, ?_⟩
      rw [dropFinalHole_cons slot hne]
      cases slot with
      | none =>
        obtain rfl : a = b := hitem
        exact .hole hcomma hlater
      | some e => exact .more hitem hcomma hlater
    · refine (h part hpart).upTo (fun e he => ?_) (hcloser mark hmark) hc
      have hmem : e ∈ (parts.map (·.2)).filterMap id :=
        List.mem_filterMap.2 ⟨part.2, List.mem_map_of_mem hpart, he⟩
      have := Expr.height_le_tallest hmem
      rw [Expr.height_array, filterMap_dropFinalHole] at hl
      omega

/-- How a key is written. -/
def keyCode : Expr → String
  | .identifier name => name
  | .literal _ raw => raw
  | _ => ""

/-- **A key is read where it is written**, in front of a colon. -/
theorem exists_key {key : Expr} (h : key.IsKey)
    (hc : c.chars = (keyCode key).toList ++ (":".toList ++ rest)) :
    ∃ d f, Key c key d ∧ d.Reads (.punctuator ":") f ∧ f.chars = rest := by
  have hends : ∀ code, endsCode code (":".toList ++ rest) := fun code =>
    endsCode_mark (by decide) (by decide)
  suffices hs : ∃ d, Key c key d ∧ d.chars = ":".toList ++ rest by
    obtain ⟨d, hd, hdc⟩ := hs
    obtain ⟨f, hf, hfc⟩ := Cursor.exists_reads_bracket_of_chars hdc (by decide)
    exact ⟨d, f, hd, hf, hfc⟩
  cases h with
  | @name name hname =>
    have hchars : c.chars = name.toList ++ (":".toList ++ rest) := hc
    obtain ⟨d, hd, hdc⟩ := Cursor.exists_reads_name (Cursor.skipLayout_chars_name hname hchars)
      hname (hends "").1
    have hkey := Key.name hd (Lexeme.isName_ofName name)
    rw [Lexeme.text_ofName] at hkey
    exact ⟨d, hkey, hdc⟩
  | @string value raw hspelled =>
    have hskip := (writes_literal hspelled (by simp)).skipLayout_chars hc
    obtain ⟨d, hd, hs, hdc⟩ := exists_reads_word hspelled rfl (hends raw) hskip
    exact ⟨d, .string hd hs, hdc⟩
  | @number value raw hspelled =>
    have hskip := (writes_literal hspelled (by simp)).skipLayout_chars hc
    obtain ⟨d, hd, hs, hdc⟩ := exists_reads_word hspelled rfl (hends raw) hskip
    exact ⟨d, .number hd hs, hdc⟩

/-- What a text has to be to write an entry of an object. -/
def WritesEntry (code : String) (entry : Expr × Expr) : Prop :=
  entry.1.IsKey ∧ ∃ value, Writes value entry.2 ∧ code = keyCode entry.1 ++ ":" ++ value

/-- An entry up to a mark that ends it. -/
theorem WritesEntry.upTo {entry : Expr × Expr} (h : WritesEntry code entry) {levels : Nat}
    (hl : 2 * entry.2.height ≤ levels + 1) {mark : String} (hm : mark ∈ closers)
    (hc : c.chars = code.toList ++ (mark.toList ++ rest)) :
    ∃ d f, Entry (Conditional levels) c entry d ∧ d.Reads (.punctuator mark) f ∧
      f.chars = rest := by
  obtain ⟨hkey, value, hvalue, rfl⟩ := h
  simp only [String.toList_append, List.append_assoc] at hc
  obtain ⟨a, b, ha, hb, hbc⟩ := exists_key hkey hc
  obtain ⟨d, f, hd, hf, hfc⟩ := hvalue.upTo hl hm hbc
  exact ⟨d, f, .mk ha hb hd, hf, hfc⟩

/-- **An object writes itself** in braces. -/
theorem writes_object {parts : List (String × Expr × Expr)}
    (h : ∀ part ∈ parts, WritesEntry part.1 part.2)
    (hn : ((parts.map (·.2)).map fun entry => entry.1.keyName).Nodup) :
    Writes ("\x7b" ++ joinCodes (parts.map (·.1)) ++ "\x7d")
      (.object (properties (parts.map (·.2)))) := by
  have htext : ("\x7b" ++ joinCodes (parts.map (·.1)) ++ "\x7d").toList
      = "\x7b".toList ++ ((joinCodes (parts.map (·.1))).toList ++ "\x7d".toList) := by
    rw [String.toList_append, String.toList_append, List.append_assoc]
  refine writes_of_opening (by decide) htext fun {levels c a rest} hl ha hac => ?_
  rw [List.append_assoc] at hac
  suffices hs : ∃ d, Entries (Conditional levels) a (parts.map (·.2)) d ∧ d.chars = rest by
    obtain ⟨d, hd, hdc⟩ := hs
    exact ⟨d, .primary (.object ha hd hn), hdc⟩
  by_cases hne : parts = []
  · subst hne
    obtain ⟨d, hd, hdc⟩ := @Cursor.exists_reads_bracket_of_chars a _ _ "\x7d" hac (by decide)
    exact ⟨d, .close hd, hdc⟩
  · have hcloser : ∀ mark ∈ [",", "\x7d"], mark ∈ closers := by decide
    refine @exists_separated _ _ _ _ (Entry (Conditional levels)) _ "\x7d"
      .last .more parts hne (fun part hpart mark hmark _ _ hc => ?_) hac
    refine (h part hpart).upTo ?_ (hcloser mark hmark) hc
    have hmem : Expr.property part.2.1 part.2.2 ∈ properties (parts.map (·.2)) :=
      List.mem_map_of_mem (List.mem_map_of_mem hpart)
    have := Expr.height_le_tallest hmem
    rw [Expr.height_property] at this
    rw [Expr.height_object] at hl
    omega

/-! ## Calls and members -/

/-- What stands behind code takes its place when it begins with a mark that ends the code. -/
theorem writes_behind {o mark : String} {receiver : Expr} {inside : List Char}
    (ho : Writes o receiver) (hheight : receiver.height ≤ e.height)
    (hm : mark ∈ ["(", "[", "."]) (hpoint : mark = "." → o.toList.all isDigit = false)
    (htext : code.toList = o.toList ++ (mark.toList ++ inside))
    (hinside : ∀ {levels : Nat} {c a : Cursor} {rest : List Char}, 2 * e.height ≤ levels + 2 →
      endsCode code rest → Chain (Conditional levels) c receiver a →
        a.chars = mark.toList ++ (inside ++ rest) →
          ∃ d, Chain (Conditional levels) c e d ∧ d.chars = rest) : Writes code e := by
  have hfacts : ∀ mark ∈ ["(", "[", "."], mark ∈ punctuators ∧
      mark.toList.head?.any (fun x => !isDigit x && isPlainBreak x) = true := by
    decide
  obtain ⟨hmark, hhead⟩ := hfacts mark hm
  obtain ⟨y, hy, hb⟩ := (Option.any_eq_true _ _).1 hhead
  obtain ⟨ys, hys⟩ := List.head?_eq_some_iff.1 hy
  rw [Bool.and_eq_true, Bool.not_eq_true'] at hb
  obtain ⟨x, xs, hx, hbegins⟩ := ho.begins
  refine ⟨⟨x, _, by rw [htext, hx]; rfl, hbegins⟩, fun _ => ?_,
    fun {levels c rest} hl hends hc => ?_⟩
  · exact all_isDigit_eq_false (by rw [htext, hys]; simp) hb.1
  · have hcode : endsCode o (mark.toList ++ (inside ++ rest)) := by
      by_cases hp : mark = "."
      · rw [hys]
        exact ⟨Scan.endsName_cons.2 (isIdentifierPart_eq_false_of_isPlainBreak hb.2),
          fun _ => hpoint hp⟩
      · exact endsCode_mark hmark hp
    simp only [htext, List.append_assoc] at hc
    obtain ⟨a, ha, hac⟩ := @ho.chain levels _ _ (by omega) hcode hc
    exact hinside hl hends ha hac

/-- **A call writes itself** behind the name that is called. -/
theorem writes_call {function : String} (hf : IsReference function)
    {parts : List (String × Expr)} (h : ∀ part ∈ parts, Writes part.1 part.2) :
    Writes (function ++ "(" ++ joinCodes (parts.map (·.1)) ++ ")")
      (.call (.identifier function) (parts.map (·.2))) := by
  have htext : (function ++ "(" ++ joinCodes (parts.map (·.1)) ++ ")").toList
      = function.toList ++
        ("(".toList ++ ((joinCodes (parts.map (·.1))).toList ++ ")".toList)) := by
    simp only [String.toList_append, List.append_assoc]
  have hpos := (Expr.call (.identifier function) (parts.map (·.2))).height_pos
  refine writes_behind (writes_identifier hf) (by rw [Expr.height_identifier]; omega) (by decide)
    (by simp) htext fun {levels c a rest} hl _ ha hac => ?_
  rw [List.append_assoc] at hac
  obtain ⟨b, hb, hbc⟩ := Cursor.exists_reads_bracket_of_chars hac (by decide)
  suffices hs : ∃ d, Arguments (Conditional levels) a (parts.map (·.2)) d ∧ d.chars = rest by
    obtain ⟨d, hd, hdc⟩ := hs
    exact ⟨d, .call ha hd, hdc⟩
  by_cases hne : parts = []
  · subst hne
    obtain ⟨d, hd, hdc⟩ := @Cursor.exists_reads_bracket_of_chars b _ _ ")" hbc (by decide)
    exact ⟨d, .none hb hd, hdc⟩
  · have hcloser : ∀ mark ∈ [",", ")"], mark ∈ closers := by decide
    have hargument : ∀ part ∈ parts, 2 * part.2.height ≤ levels + 1 := by
      intro part hpart
      have hmem : part.2 ∈ parts.map (·.2) := List.mem_map_of_mem hpart
      have := Expr.height_le_tallest hmem
      rw [Expr.height_call] at hl
      omega
    obtain ⟨d, hd, hdc⟩ := @exists_separated _ _ _ _ (Conditional levels)
      (ArgumentList (Conditional levels)) ")" .last .more parts hne
      (fun part hpart mark hmark _ _ hc =>
        (h part hpart).upTo (hargument part hpart) (hcloser mark hmark) hc) hbc
    exact ⟨d, .some hb hd, hdc⟩

/-- **A computed member writes itself** with its name in brackets. -/
theorem writes_computed {o p : String} {receiver name : Expr} (ho : Writes o receiver)
    (hp : Writes p name) :
    Writes (o ++ "[" ++ p ++ "]") (.member receiver name true) := by
  have htext : (o ++ "[" ++ p ++ "]").toList
      = o.toList ++ ("[".toList ++ (p.toList ++ "]".toList)) := by
    simp only [String.toList_append, List.append_assoc]
  have hheight := Expr.height_member receiver name true
  refine writes_behind ho (by omega) (by decide) (by simp) htext
    fun {levels c a rest} hl _ ha hac => ?_
  rw [List.append_assoc] at hac
  obtain ⟨b, hb, hbc⟩ := Cursor.exists_reads_bracket_of_chars hac (by decide)
  obtain ⟨d, f, hd, hf, hfc⟩ := @hp.upTo _ _ _ _ _ levels (by omega) "]" (by decide) hbc
  exact ⟨f, .computed ha hb hd hf, hfc⟩

/-- **A member writes itself** with its name behind a point, unless the receiver is written in
digits, to which the point would belong. -/
theorem writes_named {o name : String} {receiver : Expr} (ho : Writes o receiver)
    (hdigits : o.toList.all isDigit = false) (hname : IsName name) :
    Writes (o ++ "." ++ name) (.member receiver (.identifier name) false) := by
  have htext : (o ++ "." ++ name).toList = o.toList ++ (".".toList ++ name.toList) := by
    simp only [String.toList_append, List.append_assoc]
  have hheight := Expr.height_member receiver (.identifier name) false
  refine writes_behind ho (by omega) (by decide) (fun _ => hdigits) htext
    fun {levels c a rest} hl hends ha hac => ?_
  have hstart : ∀ x ∈ (name.toList ++ rest).head?, isIdentifierStart x = true := by
    obtain ⟨y, ys, hy, hstart, -⟩ := hname
    rw [hy]
    rintro x hx
    cases hx
    exact hstart
  obtain ⟨b, hb, hbc⟩ := @Cursor.exists_reads_mark a _ _ "."
    (Cursor.skipLayout_chars_mark (by decide) hac) (by decide)
    (endsMark_of_beginsCode (by decide) fun x hx => beginsCode_of_isIdentifierStart (hstart x hx))
    fun _ x hx => isDigit_eq_false_of_isIdentifierStart (hstart x hx)
  obtain ⟨d, hd, hdc⟩ := Cursor.exists_reads_name (Cursor.skipLayout_chars_name hname hbc) hname
    hends.1
  have hmember := Chain.named ha hb hd (Lexeme.isName_ofName name)
  rw [Lexeme.text_ofName] at hmember
  exact ⟨d, hmember, hdc⟩

end Grammar

end ChartScript
