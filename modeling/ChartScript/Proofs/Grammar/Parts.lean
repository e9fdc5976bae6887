import ChartScript.Proofs.Grammar.Layout
import ChartScript.Proofs.Sandbox.Accessor

/-!
# Proofs/Grammar/Parts — texts that are put together from tokens

A `Part` is a token, with a blank in front and behind or without, and some parts make a text.  They
`Lay` the text out when its tokens are those of the parts, wherever the text stands and whatever
comes behind it that leaves its last token alone.  What is put together from parts that lay out
their texts lays out its own.
-/

namespace ChartScript

open Text Grammar

/-- A blank, where there is one. -/
def blank (spaced : Bool) : String := if spaced then " " else ""

@[simp] theorem blank_false : blank false = "" := rfl

@[simp] theorem blank_true : blank true = " " := rfl

/-- A blank is layout. -/
theorem isLayout_of_mem_blank (spaced : Bool) : ∀ x ∈ (blank spaced).toList, isLayout x = true := by
  intro x hx
  cases spaced with
  | false => simp at hx
  | true =>
    obtain rfl : x = ' ' := by simpa using hx
    decide

/-- A token, and whether blanks are around it. -/
structure Part where
  before : Bool
  token : Terminal
  after : Bool

namespace Part

def text (part : Part) : String := blank part.before ++ part.token.text ++ blank part.after

/-- A mark without blanks. -/
def mark (m : String) : Part := ⟨false, ⟨.punctuator m, m⟩, false⟩

/-- A name without blanks. -/
def name (n : String) : Part := ⟨false, ⟨Lexeme.ofName n, n⟩, false⟩

/-- The string that says a name. -/
def quoted (n : String) : Part := ⟨false, ⟨.string n false, "\"" ++ n ++ "\""⟩, false⟩

@[simp] theorem text_mark (m : String) : (mark m).text = m := by simp [text, mark]

@[simp] theorem text_name (n : String) : (name n).text = n := by simp [text, name]

@[simp] theorem text_quoted (n : String) : (quoted n).text = "\"" ++ n ++ "\"" := by
  simp [text, quoted]

end Part

/-- The text of some parts. -/
def textOf : List Part → String
  | [] => ""
  | part :: parts => part.text ++ textOf parts

/-- The tokens of some parts. -/
def tokensOf (parts : List Part) : List Terminal := parts.map Part.token

@[simp] theorem textOf_nil : textOf [] = "" := rfl

@[simp] theorem textOf_cons (part : Part) (parts : List Part) :
    textOf (part :: parts) = part.text ++ textOf parts := rfl

@[simp] theorem textOf_append (parts more : List Part) :
    textOf (parts ++ more) = textOf parts ++ textOf more := by
  induction parts with
  | nil => simp
  | cons part parts ih => simp [ih, String.append_assoc]

/-- Parts between two brackets. -/
def enclosed (opening : String) (inside : List Part) (closing : String) : List Part :=
  .mark opening :: (inside ++ [.mark closing])

@[simp] theorem textOf_enclosed (opening closing : String) (inside : List Part) :
    textOf (enclosed opening inside closing) = opening ++ textOf inside ++ closing := by
  simp [enclosed, String.append_assoc]

/-- Items with commas between them. -/
def separated : List (List Part) → List Part
  | [] => []
  | [item] => item
  | item :: next :: items => item ++ .mark "," :: separated (next :: items)

/-- The text of a list is that of its items with commas between them. -/
theorem textOf_separated (items : List (List Part)) :
    textOf (separated items) = joinCodes (items.map textOf) := by
  induction items with
  | nil => rfl
  | cons item items ih =>
    match items with
    | [] => rw [separated, List.map_singleton, joinCodes_singleton]
    | next :: items =>
      rw [List.map_cons] at ih
      rw [separated, List.map_cons, List.map_cons, joinCodes_cons_cons, textOf_append, textOf_cons,
        ih, Part.text_mark, String.append_assoc]

/-- A name is no slash. -/
theorem Lexeme.isSlash_ofName (n : String) : (Lexeme.ofName n).isSlash = false := by
  unfold Lexeme.ofName
  repeat' split
  all_goals rfl

/-- What a literal is read as. -/
def Literal.lexeme : Literal → Lexeme
  | .number value => .number value false
  | .string value => .string value false
  | .boolean value => .boolean value
  | .null => .null
  | .regex pattern flags => .regex pattern flags

/-- The code of a literal is one token. -/
def Part.literal (value : Literal) (raw : String) : Part :=
  ⟨false, ⟨value.explicit.lexeme, value.code raw⟩, false⟩

@[simp] theorem Part.text_literal (value : Literal) (raw : String) :
    (Part.literal value raw).text = value.code raw := by
  simp [Part.text, Part.literal]

variable {due mid due' : Expectation} {parts more : List Part} {follow follow' : List Char → Prop}
  {part : Part} {rest : List Char}

/-- Behind a closing mark an operator is due. -/
theorem after_closing {m : String} (hm : m ∈ [")", "]", "\x7d"]) :
    due.after (.punctuator m) = .operator := by
  have hall : ∀ m ∈ [")", "]", "\x7d"], ∀ due : Expectation,
      due.after (.punctuator m) = .operator := by
    intro m hm due
    revert m
    cases due <;> decide
  exact hall m hm due

/-- Behind a mark between operands the next one is due. -/
theorem after_separator (hdue : due ≠ .name) {m : String} (hm : m ∈ [",", ":", "?"]) :
    due.after (.punctuator m) = .operand := by
  revert m
  cases due <;> first | exact absurd rfl hdue | decide

variable [Externals]

/-! ## Reading parts -/

/-- **The parts lay out their text**: where `due` is due and in front of what `follow` admits, their
tokens are consumed, and `due'` is due behind them. -/
structure Lays (due due' : Expectation) (parts : List Part) (follow : List Char → Prop) :
    Prop where
  behind : due.behind (tokensOf parts) = due'
  walk {c : Cursor} {rest : List Char} (hf : follow rest)
    (hc : c.skipLayout.chars = ((textOf parts).toList ++ rest).dropWhile isLayout) :
    ∃ d, Walk due c (tokensOf parts) d ∧ d.skipLayout.chars = rest.dropWhile isLayout

/-- Anything may follow nothing. -/
theorem lays_nil : Lays due due [] fun _ => True where
  behind := rfl
  walk {c _} _ hc := ⟨c, .nil, hc⟩

/-- More may be asked of what follows. -/
theorem Lays.imp (h : Lays due due' parts follow) (hf : ∀ rest, follow' rest → follow rest) :
    Lays due due' parts follow' where
  behind := h.behind
  walk hrest hc := h.walk (hf _ hrest) hc

/-- **Some parts behind others.** -/
theorem Lays.append (h : Lays due mid parts follow) (h' : Lays mid due' more follow')
    (hf : ∀ rest, follow' rest → follow ((textOf more).toList ++ rest)) :
    Lays due due' (parts ++ more) follow' where
  behind := by
    rw [tokensOf, List.map_append, Expectation.behind_append]
    exact h.behind.symm ▸ h'.behind
  walk {c rest} hrest hc := by
    rw [textOf_append, String.toList_append, List.append_assoc] at hc
    obtain ⟨b, hb, hbc⟩ := h.walk (hf rest hrest) hc
    obtain ⟨d, hd, hdc⟩ := h'.walk hrest hbc
    refine ⟨d, ?_, hdc⟩
    rw [tokensOf, List.map_append]
    exact Walk.append_iff.2 ⟨b, hb, h.behind.symm ▸ hd⟩

/-- One part in front of others. -/
theorem Lays.cons (h : Lays due mid [part] follow) (h' : Lays mid due' more follow')
    (hf : ∀ rest, follow' rest → follow ((textOf more).toList ++ rest)) :
    Lays due due' (part :: more) follow' := h.append h' hf

/-- A part is read when its token is. -/
theorem lays_singleton (ht : ∃ y ys, part.token.text.toList = y :: ys ∧ isLayout y = false)
    (hread : ∀ {c : Cursor} {rest : List Char}, follow rest →
      c.skipLayout.chars = part.token.text.toList ++ rest →
        ∃ d, Consumes due c part.token d ∧ d.chars = rest) :
    Lays due (due.after part.token.lexeme) [part] fun rest =>
      follow ((blank part.after).toList ++ rest) where
  behind := rfl
  walk {c rest} hrest hc := by
    have htext : (textOf [part]).toList ++ rest
        = (blank part.before).toList
          ++ (part.token.text.toList ++ ((blank part.after).toList ++ rest)) := by
      simp [Part.text, String.toList_append]
    obtain ⟨y, ys, hy, hlayout⟩ := ht
    rw [htext, dropWhile_append (isLayout_of_mem_blank _)
      (by rw [hy]; rintro x hx; cases hx; exact hlayout)] at hc
    obtain ⟨d, hd, hdc⟩ := hread hrest hc
    refine ⟨d, .cons hd .nil, ?_⟩
    show d.chars.dropWhile isLayout = _
    rw [hdc, List.dropWhile_append_of_pos (isLayout_of_mem_blank _)]

/-- What is left behind a part. -/
theorem Consumes.chars_eq {c d : Cursor} (h : Consumes due c part.token d)
    (hc : c.skipLayout.chars = (part.text.toList ++ rest).dropWhile isLayout) :
    d.chars = (blank part.after).toList ++ rest := by
  have hspells : c.skipLayout.chars = part.token.text.toList ++ d.chars := h.spells
  obtain ⟨y, ys, hy, hlayout⟩ := h.text_head
  have htext : part.text.toList ++ rest = (blank part.before).toList
      ++ (part.token.text.toList ++ ((blank part.after).toList ++ rest)) := by
    simp [Part.text, String.toList_append]
  rw [htext, dropWhile_append (isLayout_of_mem_blank _)
    (by rw [hy]; rintro x hx; cases hx; exact hlayout)] at hc
  exact List.append_cancel_left (hspells.symm.trans hc)

/-- **What is left behind the tokens of some parts** is what is left behind the last part. -/
theorem Walk.chars_eq {c d : Cursor} (h : Walk due c (tokensOf (parts ++ [part])) d)
    (hc : c.skipLayout.chars = ((textOf (parts ++ [part])).toList ++ rest).dropWhile isLayout) :
    d.chars = (blank part.after).toList ++ rest := by
  induction parts generalizing due c with
  | nil =>
    cases h with
    | cons h later =>
      cases later
      exact h.chars_eq (by simpa using hc)
  | cons first parts ih =>
    cases h with
    | cons h later =>
      rw [List.cons_append, textOf_cons, String.toList_append, List.append_assoc] at hc
      have hb := h.chars_eq hc
      refine ih later ?_
      show (Cursor.chars _).dropWhile isLayout = _
      rw [hb, List.dropWhile_append_of_pos (isLayout_of_mem_blank _)]

/-! ## Marks, names and literals -/

/-- **A mark is laid** in front of what does not make a longer one of it. -/
theorem lays_mark {m : String} (before after : Bool) (hm : m ∈ punctuators)
    (hs : due = .operand → Lexeme.isSlash (.punctuator m) = false) :
    Lays due (due.after (.punctuator m)) [⟨before, ⟨.punctuator m, m⟩, after⟩] fun rest =>
      Scan.endsMark m ((blank after).toList ++ rest) ∧
        (m = "." → ∀ x ∈ ((blank after).toList ++ rest).head?, isDigit x = false) := by
  refine @lays_singleton due (fun rest => Scan.endsMark m rest ∧
    (m = "." → ∀ x ∈ rest.head?, isDigit x = false)) ⟨before, ⟨.punctuator m, m⟩, after⟩ _
    ?_ fun {c rest} hrest hc => ?_
  · obtain ⟨y, hy, hlayout⟩ := Scan.head?_mark hm []
    rw [List.append_nil] at hy
    obtain ⟨ys, hys⟩ := List.head?_eq_some_iff.1 hy
    exact ⟨y, ys, hys, hlayout⟩
  · obtain ⟨d, hd, hdc⟩ := Cursor.exists_reads_mark hc hm hrest.1 hrest.2
    refine ⟨d, .plain hd ?_ rfl hs, hdc⟩
    unfold Cursor.Spells
    rw [hc, hdc]

/-- Anything may follow a bracket or a separator. -/
theorem lays_bracket {m : String} (after : Bool) (hm : m ∈ brackets) :
    Lays due (due.after (.punctuator m)) [⟨false, ⟨.punctuator m, m⟩, after⟩] fun _ => True := by
  obtain ⟨hmark, hnone, hpoint⟩ := brackets_facts m hm
  have hslash : ∀ m ∈ brackets, Lexeme.isSlash (.punctuator m) = false := by decide
  refine (lays_mark false after hmark fun _ => hslash m hm).imp fun rest _ => ⟨fun x _ => ?_, ?_⟩
  · rw [hnone]
    exact List.not_mem_nil
  · exact fun hp => absurd hp hpoint

/-- **A name is laid** in front of what is no part of it. -/
theorem lays_name {n : String} (before after : Bool) (hn : IsName n) :
    Lays due (due.after (Lexeme.ofName n)) [⟨before, ⟨Lexeme.ofName n, n⟩, after⟩] fun rest =>
      Scan.endsName ((blank after).toList ++ rest) := by
  refine @lays_singleton due Scan.endsName ⟨before, ⟨Lexeme.ofName n, n⟩, after⟩ _ ?_
    fun {c rest} hrest hc => ?_
  · obtain ⟨y, ys, hy, hstart, -⟩ := hn
    exact ⟨y, ys, hy,
      isLayout_eq_false_of_isIdentifierPart (isIdentifierPart_of_isIdentifierStart hstart)⟩
  · obtain ⟨d, hd, hdc⟩ := Cursor.exists_reads_name hc hn hrest
    refine ⟨d, .plain hd ?_ (Lexeme.isEnd_ofName n) fun _ => Lexeme.isSlash_ofName n, hdc⟩
    unfold Cursor.Spells
    rw [hc, hdc]

/-- A name between quotes is a string. -/
theorem lays_quoted {n : String} (hn : IsName n) :
    Lays .operand .operator [Part.quoted n] fun _ => True := by
  have hhead : (Part.quoted n).token.text.toList = '"' :: (n.toList ++ ['"']) := by
    simp [Part.quoted, String.toList_append]
  refine @lays_singleton .operand (fun _ => True) (Part.quoted n) _ ⟨'"', _, hhead, by decide⟩
    fun {c rest} _ hc => ?_
  have htext : (Part.quoted n).token.text.toList ++ rest = '"' :: (n.toList ++ '"' :: rest) := by
    rw [hhead, List.cons_append, List.append_assoc]
    rfl
  rw [htext] at hc
  obtain ⟨d, hd, hdc⟩ := Cursor.exists_reads (hc ▸ Scan.lexeme_quoted_name hn rest)
  refine ⟨d, .plain hd ?_ rfl fun _ => rfl, hdc⟩
  unfold Cursor.Spells
  rw [hc, hdc]
  exact htext.symm

/-- **The code of a literal spells it**, with an empty group for an empty pattern. -/
theorem Literal.Spelled.explicit (hempty : Regex.AcceptsEmptyGroup) {value : Literal}
    {raw : String} (h : value.Spelled raw) : value.explicit.Spelled (value.code raw) := by
  match value with
  | .number _ | .string _ | .boolean _ | .null => exact h
  | .regex pattern flags =>
    rw [Literal.explicit, Literal.code]
    split
    · exact regexLiteral_emptyGroup hempty h
    · exact h

/-- A literal begins as code does. -/
theorem Literal.Spelled.begins {value : Literal} {raw : String} (h : value.Spelled raw) :
    ∃ x xs, raw.toList = x :: xs ∧ beginsCode x = true := by
  match value with
  | .number _ | .string _ | .boolean _ | .null =>
    obtain ⟨x, xs, hx, hb, -⟩ := begins_of_lexeme h rfl
    exact ⟨x, xs, hx, hb⟩
  | .regex pattern flags =>
    obtain ⟨ds, -, -, -, hraw, -⟩ := Scan.regexLiteral_eq_ok_iff.1 h
    exact ⟨'/', ds, hraw, by decide⟩

/-- **A literal is consumed where it stands.** -/
theorem Literal.Spelled.exists_consumes {value : Literal} {raw : String} {c : Cursor}
    (h : value.Spelled raw) (hends : endsCode raw rest)
    (hc : c.skipLayout.chars = raw.toList ++ rest) :
    ∃ d, Consumes .operand c ⟨value.lexeme, raw⟩ d ∧ d.chars = rest := by
  match value with
  | .number _ | .string _ | .boolean _ | .null =>
    obtain ⟨d, hd, hs, hdc⟩ := exists_reads_word h rfl hends hc
    exact ⟨d, .plain hd hs rfl fun _ => rfl, hdc⟩
  | .regex pattern flags =>
    obtain ⟨taken, htaken, hread⟩ := Scan.local_regexLiteral h
    rw [List.append_nil] at htaken
    subst htaken
    have hx : c.ReadsRegex pattern flags (c.skipLayout.moveTo rest) :=
      Cursor.readsRegex_iff.2 ⟨rest, hc ▸ hread rest hends.1, rfl⟩
    exact ⟨_, .regex rfl hx hc, rfl⟩

/-! ## Lists -/

/-- A mark comes next that may end an operand. -/
def Closes (rest : List Char) : Prop := ∃ m ∈ closers, ∃ later, rest = m.toList ++ later

/-- **Parts that may be listed**: they are read up to a mark that ends them. -/
def Listed (item : List Part) : Prop := ∃ due, due ≠ .name ∧ Lays .operand due item Closes

theorem listed_nil : Listed [] := ⟨.operand, by simp, lays_nil.imp fun _ _ => trivial⟩

/-- A listed item and the bracket that closes the list. -/
theorem Listed.close {item : List Part} (h : Listed item) {m : String}
    (hm : m ∈ [")", "]", "\x7d"]) : Lays .operand .operator (item ++ [.mark m]) fun _ => True := by
  have hfacts : ∀ m ∈ [")", "]", "\x7d"], m ∈ brackets ∧ m ∈ closers := by decide
  obtain ⟨due, -, h⟩ := h
  have hclose := @lays_bracket due _ m false (hfacts m hm).1
  rw [after_closing hm] at hclose
  exact h.append hclose fun rest _ => ⟨m, (hfacts m hm).2, rest, by simp⟩

/-- A listed item, a separator and what comes behind it. -/
theorem Listed.separate {item : List Part} (h : Listed item) {m : String} (after : Bool)
    (hm : m ∈ [",", ":", "?"]) (h' : Lays .operand due' more follow) :
    Lays .operand due' (item ++ ⟨false, ⟨.punctuator m, m⟩, after⟩ :: more) follow := by
  have hfacts : ∀ m ∈ [",", ":", "?"], m ∈ brackets ∧ m ∈ closers := by decide
  obtain ⟨due, hdue, h⟩ := h
  have hseparator := @lays_bracket due _ m after (hfacts m hm).1
  rw [after_separator hdue hm] at hseparator
  refine h.append (hseparator.cons h' fun _ _ => trivial) fun rest _ => ?_
  exact ⟨m, (hfacts m hm).2, (blank after).toList ++ ((textOf more).toList ++ rest),
    by simp [Part.text, String.toList_append]⟩

/-- **Listed items with commas between them**, up to the bracket that closes the list. -/
theorem lays_separated {items : List (List Part)} (h : ∀ item ∈ items, Listed item) {m : String}
    (hm : m ∈ [")", "]", "\x7d"]) :
    Lays .operand .operator (separated items ++ [.mark m]) fun _ => True := by
  induction items with
  | nil => exact listed_nil.close hm
  | cons item items ih =>
    match items with
    | [] => exact (h item List.mem_cons_self).close hm
    | next :: items =>
      rw [separated, List.append_assoc]
      exact (h item List.mem_cons_self).separate false (by decide)
        (ih fun x hx => h x (List.mem_cons_of_mem _ hx))

end ChartScript
