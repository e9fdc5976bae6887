import ChartScript.Proofs.Grammar.Standing

/-!
# Proofs/Grammar/Point — a point and a name behind a text

A point behind a text is a token of its own unless the last token of the text is written in digits,
for then it belongs to the number.  No text that ends with a closing bracket or with a name ends in
such a token (`Ended.takesPoint`), and behind any other text a point and a name access what the text
is read as (`TakesPoint.exists_chain`).
-/

namespace ChartScript

open Text Grammar

variable {due : Expectation} {c c' d : Cursor} {t : Terminal} {ts : List Terminal}
  {front point x ys : List Char} {y : Char} {code n : String} {parts : List Part}

variable [Externals]

/-! ## Digits behind identifier parts -/

/-- A token that ends with an identifier part is continued by a digit. -/
theorem Consumes.noDigit (h : Consumes due c t d) (hy : isIdentifierPart y = true)
    (ht : t.text.toList = front ++ [y]) : Scan.noDigit d.chars := by
  have hspells : c.skipLayout.chars = t.text.toList ++ d.chars := h.spells
  rw [ht, List.append_assoc, List.singleton_append] at hspells
  cases h with
  | plain h _ _ _ =>
    obtain ⟨rest, hread, rfl⟩ := Cursor.reads_iff.1 h
    rw [hspells] at hread
    exact Scan.noDigit_of_lexeme hy hread
  | regex _ h _ =>
    obtain ⟨rest, hread, rfl⟩ := Cursor.readsRegex_iff.1 h
    obtain ⟨-, -, mid, flags, -, -, hflags, -⟩ := Scan.regexLiteral_eq_ok_iff.1 hread
    exact Scan.noDigit_of_endsName (Scan.endsName_of_regexFlags hflags)

/-- **No token begins with a digit behind an identifier part.** -/
theorem Walk.noDigit (h : Walk due c ts d) (hy : isIdentifierPart y = true)
    (hc : c.chars = x ++ y :: d.chars) : Scan.noDigit d.chars := by
  induction h generalizing x with
  | nil =>
    have := congrArg List.length hc
    rw [List.length_append, List.length_cons] at this
    omega
  | @cons due b c d t ts h later ih =>
    obtain ⟨gap, -, hchars⟩ := h.exists_layout
    obtain ⟨z, hz⟩ := later.suffix
    have hsame : x ++ [y] ++ d.chars = gap ++ t.text.toList ++ z ++ d.chars := by
      rw [List.append_assoc _ z, hz, List.append_assoc gap, ← hchars, hc, List.append_assoc,
        List.singleton_append]
    have hx : x ++ [y] = gap ++ t.text.toList ++ z := List.append_cancel_right hsame
    -- the identifier part is the last one of what is consumed later, or of this token
    rcases List.eq_nil_or_concat' z with rfl | ⟨z, w, rfl⟩
    · obtain ⟨v, vs, hv, -⟩ := h.text_head
      obtain ⟨text, w, hw⟩ := (List.eq_nil_or_concat' t.text.toList).resolve_left (by simp [hv])
      rw [hw, List.append_nil, ← List.append_assoc] at hx
      obtain ⟨-, rfl⟩ := List.append_singleton_inj.1 hx
      rw [List.nil_append] at hz
      exact hz ▸ h.noDigit hy hw
    · rw [← List.append_assoc] at hx
      obtain ⟨-, rfl⟩ := List.append_singleton_inj.1 hx
      exact ih (by rw [← hz, List.append_assoc, List.singleton_append])

/-! ## Points behind tokens -/

/-- A point may come behind a token that is not written in digits. -/
theorem Consumes.exists_point (h : Consumes due c t d) (ht : t.text.toList.all isDigit = false)
    (hc : c'.skipLayout.chars = t.text.toList ++ '.' :: point) :
    ∃ d', Consumes due c' t d' ∧ d'.chars = '.' :: point := by
  have hspells : ∀ {d'}, d'.chars = '.' :: point → c'.Spells t.text d' := fun hd => by
    unfold Cursor.Spells
    rw [hc, hd]
  cases h with
  | @plain d l raw h hraw hl hs =>
    obtain ⟨rest, hread, rfl⟩ := Cursor.reads_iff.1 h
    have hraw : c.skipLayout.chars = raw.toList ++ rest := hraw
    rw [hraw] at hread
    obtain ⟨d', hd, hrest⟩ := Cursor.exists_reads (hc ▸ Scan.lexeme_point hread hl ht point)
    exact ⟨d', .plain hd (hspells hrest) hl hs, hrest⟩
  | @regex d pattern flags raw hdue h hraw =>
    obtain ⟨rest, hread, rfl⟩ := Cursor.readsRegex_iff.1 h
    obtain ⟨taken, htaken, hmove⟩ := Scan.local_regexLiteral hread
    obtain rfl : taken = raw.toList := List.append_cancel_right (htaken.symm.trans hraw)
    have hends : Scan.endsName ('.' :: point) :=
      Scan.endsName_cons.2 (isIdentifierPart_eq_false_of_isPlainBreak (by decide))
    exact ⟨_, .regex hdue (Cursor.readsRegex_iff.2 ⟨_, hc ▸ hmove _ hends, rfl⟩) (hspells rfl), rfl⟩

/-- **A point may come behind a text** that does not end in a token of digits. -/
theorem Walk.exists_point (h : Walk due c ts d) (hd : d.skipLayout.chars = [])
    (ht : d.chars = [] → ∀ t ∈ ts.getLast?, t.text.toList.all isDigit = false)
    (hc : c'.chars = c.chars ++ '.' :: point) :
    ∃ d', Walk due c' ts d' ∧ d'.skipLayout.chars = '.' :: point := by
  have hpoint : isLayout '.' = false := by decide
  have hskip : ∀ {d' : Cursor} {gap : List Char}, (∀ x ∈ gap, isLayout x = true) →
      d'.chars = gap ++ '.' :: point → d'.skipLayout.chars = '.' :: point := fun hgap hd' =>
    Cursor.skipLayout_chars_append hgap (fun x hx => Option.some.inj hx ▸ hpoint) hd'
  have hlayout : ∀ x ∈ d.chars, isLayout x = true := List.dropWhile_eq_nil_iff.1 hd
  have hhead : ∀ {cs : List Char}, cs ≠ [] → Scan.Replaces (cs ++ '.' :: point) cs :=
    fun hcs => .inl (List.head?_append_of_ne_nil _ hcs)
  by_cases hnil : d.chars = []
  · rcases List.eq_nil_or_concat' ts with rfl | ⟨ts, t, rfl⟩
    · cases h
      exact ⟨c', .nil, hskip hlayout hc⟩
    · obtain ⟨b, hb, hlast⟩ := Walk.append_iff.1 h
      cases hlast with
      | cons hlast later =>
        cases later
        obtain ⟨x, hx⟩ := hb.suffix
        obtain ⟨gap, hgap, hchars⟩ := hlast.exists_layout
        obtain ⟨v, vs, hv, hvl⟩ := hlast.text_head
        have hne : b.chars ≠ [] := by simp [hchars, hv]
        obtain ⟨b', hb', hbc⟩ := hb.replace (hhead hne) hx.symm
          (hc.trans (by rw [← hx, List.append_assoc]))
        rw [hchars, hnil, List.append_nil, List.append_assoc] at hbc
        have hbskip : b'.skipLayout.chars = t.text.toList ++ '.' :: point := by
          refine Cursor.skipLayout_chars_append hgap (fun x hx => ?_) hbc
          rw [hv] at hx
          exact Option.some.inj hx ▸ hvl
        obtain ⟨d', hd', hdc⟩ := hlast.exists_point (ht hnil t (by simp)) hbskip
        refine ⟨d', Walk.append_iff.2 ⟨b', hb', .cons hd' .nil⟩, ?_⟩
        exact @hskip d' [] (by simp) hdc
  · obtain ⟨x, hx⟩ := h.suffix
    obtain ⟨d', hd', hdc⟩ := h.replace (hhead hnil) hx.symm
      (hc.trans (by rw [← hx, List.append_assoc]))
    exact ⟨d', hd', hskip hlayout hdc⟩

/-! ## Texts that take a point -/

/-- **A text that ends with a name, or with a character that is no digit, does not end in a token of
digits.** -/
theorem Walk.all_isDigit_getLast? (h : Walk due c ts d) (hd : d.chars = [])
    (hc : c.chars = front ++ y :: ys) (hy : isDigit y = false)
    (hys : ys = [] ∨ ∀ z ∈ y :: ys, isIdentifierPart z = true) :
    ∀ t ∈ ts.getLast?, t.text.toList.all isDigit = false := by
  intro t ht
  obtain ⟨ts, rfl⟩ := List.getLast?_eq_some_iff.1 ht
  obtain ⟨b, hb, hlast⟩ := Walk.append_iff.1 h
  cases hlast with
  | cons hlast later =>
    cases later
    obtain ⟨x, hx⟩ := hb.suffix
    obtain ⟨gap, hgap, hchars⟩ := hlast.exists_layout
    rw [hd, List.append_nil] at hchars
    obtain ⟨v, vs, hv, -⟩ := hlast.text_head
    have hsame : front ++ y :: ys = x ++ gap ++ t.text.toList := by
      rw [List.append_assoc, ← hchars, hx, hc]
    rcases List.append_eq_append_iff.1 hsame with ⟨name, hfront, hname⟩ | ⟨text, -, htext⟩
    · rcases List.eq_nil_or_concat' name with rfl | ⟨name, z, rfl⟩
      · rw [List.nil_append] at hname
        exact all_isDigit_eq_false (hname ▸ List.mem_cons_self) hy
      · -- the token begins within the name, right behind an identifier part
        have hz : isIdentifierPart z = true := by
          refine hys.resolve_left (fun hnil => ?_) z (by simp [hname])
          have hlength := congrArg List.length hname
          simp only [hnil, hv, List.length_append, List.length_cons, List.length_nil] at hlength
          omega
        have hgapnil : gap = [] := by
          refine (List.eq_nil_or_concat' gap).resolve_right ?_
          rintro ⟨gap, g, rfl⟩
          rw [← List.append_assoc, ← List.append_assoc] at hfront
          obtain ⟨-, rfl⟩ := List.append_singleton_inj.1 hfront
          have := hgap g (by simp)
          rw [isLayout_eq_false_of_isIdentifierPart hz] at this
          cases this
        rw [hgapnil, List.append_nil] at hfront
        have hno := @Walk.noDigit _ _ _ _ (front ++ name) z _ hb hz (by
          rw [← hx, hfront]
          simp)
        rw [hchars, hgapnil, List.nil_append, hv] at hno
        exact all_isDigit_eq_false (hv ▸ List.mem_cons_self) (hno v rfl)
    · exact @all_isDigit_eq_false _ y (by simp [htext]) hy

/-- **The text does not end in a token of digits**, so that a point may come behind it. -/
def TakesPoint (code : String) : Prop :=
  ∀ ts d, Walk .operand (Cursor.start code.toList) ts d → d.chars = [] →
    ∀ t ∈ ts.getLast?, t.text.toList.all isDigit = false

theorem Part.Final.exists_start {part : Part} (h : part.Final) :
    ∃ y ys, part.text.toList = y :: ys ∧ isDigit y = false ∧
      (ys = [] ∨ ∀ z ∈ y :: ys, isIdentifierPart z = true) := by
  cases h with
  | @bracket m hm =>
    rw [Part.text_mark]
    have hfacts : ∀ m ∈ [")", "]", "\x7d"], ∃ y, m.toList = [y] ∧ isDigit y = false := by
      simp only [List.forall_mem_cons]
      exact ⟨⟨_, rfl, by decide⟩, ⟨_, rfl, by decide⟩, ⟨_, rfl, by decide⟩, nofun⟩
    obtain ⟨y, hm, hy⟩ := hfacts m hm
    exact ⟨y, [], hm, hy, .inl rfl⟩
  | @name n hn =>
    rw [Part.text_name]
    have hparts := hn.isIdentifierPart
    obtain ⟨y, ys, hn, hstart, -⟩ := hn
    rw [hn] at hparts
    exact ⟨y, ys, hn, isDigit_eq_false_of_isIdentifierStart hstart, .inr fun z hz => (hparts z hz).1⟩

/-- **A text that ends with a closing bracket or a name takes a point.** -/
theorem Part.Final.takesPoint {part : Part} (h : part.Final) (front : String) :
    TakesPoint (front ++ part.text) := by
  obtain ⟨y, ys, htext, hy, hys⟩ := h.exists_start
  intro ts d hw hd
  have hsource : (Cursor.start (front ++ part.text).toList).chars = front.toList ++ y :: ys := by
    simp [Cursor.start, String.toList_append, htext]
  exact hw.all_isDigit_getLast? hd hsource hy hys

theorem Ended.takesPoint (h : Ended parts) : TakesPoint (textOf parts) := by
  obtain ⟨front, last, rfl, hlast⟩ := h
  rw [textOf_append, textOf_cons, textOf_nil, String.append_empty]
  exact hlast.takesPoint _

/-- A text that is one token takes a point when it is not of digits. -/
theorem Comprises.takesPoint (h : Comprises code [t]) (hd : t.text.toList.all isDigit = false) :
    TakesPoint code := by
  intro ts d hw hend
  obtain ⟨f, hf, hfc⟩ := h
  obtain rfl := hw.unique (by rw [Cursor.skipLayout_chars hend (by simp)]) hf hfc
  intro u hu
  obtain rfl := Option.some.inj hu
  exact hd

/-- Where a number ends in front of a point it is not written in digits. -/
theorem Consumes.all_isDigit_of_point {value : Float} {raw : String}
    (h : Consumes due c ⟨.number value false, raw⟩ d)
    (hc : c.skipLayout.chars = raw.toList ++ '.' :: point) : raw.toList.all isDigit = false := by
  obtain ⟨rest, hread, rfl⟩ := Cursor.reads_iff.1 (h.reads nofun)
  obtain rfl : rest = '.' :: point := List.append_cancel_left (h.spells.symm.trans hc)
  rw [hc] at hread
  have hends : Scan.endsNumber raw.toList ('.' :: point) := Scan.endsLexeme_of_lexeme hread rfl
  exact (hends '.' rfl).2.2 rfl

/-- **A point behind a number in digits belongs to the number**, so the text is not scanned as that
of the number is. -/
theorem Literal.Spelled.not_walk_point {value : Float} {raw : String}
    (h : (Literal.number value).Spelled raw) (hd : raw.toList.all isDigit = true)
    (hts : Comprises raw ts) : ¬ Walk .operand (Cursor.start (raw.toList ++ '.' :: point)) ts d := by
  intro hwalk
  obtain ⟨x, xs, hx, hb⟩ := h.begins
  have hskip : ∀ rest, (Cursor.start (raw.toList ++ rest)).skipLayout.chars = raw.toList ++ rest := by
    intro rest
    refine Cursor.skipLayout_chars rfl fun y hy => ?_
    rw [hx] at hy
    rw [beginsCode, Bool.and_eq_true, Bool.not_eq_true'] at hb
    exact Option.some.inj hy ▸ hb.1
  obtain ⟨b, hb, hbc⟩ := hts
  have hends : endsCode raw [] := ⟨Scan.endsName_nil, by simp⟩
  obtain ⟨f, hf, hfc⟩ := h.exists_consumes hends (hskip [])
  rw [List.append_nil] at hf
  obtain rfl := hb.unique hbc (.cons hf .nil) (Cursor.skipLayout_chars hfc (by simp))
  cases hwalk with
  | cons hnumber _ =>
    have hnumber : Consumes .operand _ ⟨.number value false, raw⟩ _ := hnumber
    rw [hnumber.all_isDigit_of_point (hskip _)] at hd
    cases hd

/-! ## A name behind the point -/

section Access

variable {tail : String}

/-- **A point and a name behind a text that takes a point** are two tokens. -/
theorem TakesPoint.exists_walk (h : TakesPoint code)
    (hw : Walk .operand (Cursor.start code.toList) ts d) (hd : d.skipLayout.chars = [])
    (hn : IsName n) (htail : Scan.endsName tail.toList) :
    ∃ b p f, Walk .operand (Cursor.start (code ++ "." ++ n ++ tail).toList) ts b ∧
      b.Reads (.punctuator ".") p ∧ b.Spells "." p ∧ p.Reads (Lexeme.ofName n) f ∧
      p.Spells n f ∧ f.chars = tail.toList := by
  have hsource : (Cursor.start (code ++ "." ++ n ++ tail).toList).chars
      = (Cursor.start code.toList).chars ++ '.' :: (n.toList ++ tail.toList) := by
    simp [Cursor.start, String.toList_append]
  obtain ⟨b, hb, hbc⟩ := hw.exists_point hd (fun hnil => h ts d hw hnil) hsource
  have hstart : ∀ x ∈ (n.toList ++ tail.toList).head?, isIdentifierStart x = true := by
    obtain ⟨y, ys, hy, hstart, -⟩ := hn
    intro x hx
    rw [hy] at hx
    exact Option.some.inj hx ▸ hstart
  obtain ⟨p, hp, hpc⟩ := @Cursor.exists_reads_mark _ _ _ "." hbc (by decide)
    (endsMark_of_beginsCode (by decide) fun x hx => beginsCode_of_isIdentifierStart (hstart x hx))
    fun _ x hx => isDigit_eq_false_of_isIdentifierStart (hstart x hx)
  have hskip := Cursor.skipLayout_chars_name hn hpc
  obtain ⟨f, hf, hfc⟩ := Cursor.exists_reads_name hskip hn htail
  refine ⟨b, p, f, hb, hp, ?_, hf, ?_, hfc⟩
  · unfold Cursor.Spells
    rw [hbc, hpc]
    rfl
  · unfold Cursor.Spells
    rw [hskip, hfc]

/-- The tokens of a point and a name. -/
def accessTokens (n : String) : List Terminal := tokensOf [.mark ".", .name n]

theorem TakesPoint.exists_tokens (h : TakesPoint code) (hc : Comprises code ts) (hn : IsName n)
    (htail : Scan.endsName tail.toList) :
    ∃ d, Walk .operand (Cursor.start (code ++ "." ++ n ++ tail).toList) (ts ++ accessTokens n) d ∧
      d.chars = tail.toList := by
  obtain ⟨d, hw, hd⟩ := hc
  obtain ⟨b, p, f, hb, hp, hps, hf, hfs, hfc⟩ := h.exists_walk hw hd hn htail
  refine ⟨f, Walk.append_iff.2 ⟨b, hb, ?_⟩, hfc⟩
  exact .cons (.plain hp hps rfl fun _ => rfl)
    (.cons (.plain hf hfs (Lexeme.isEnd_ofName n) fun _ => Lexeme.isSlash_ofName n) .nil)

/-- **The text begins with an operand** that is read as `e`, with what is accessed on it and called,
and `rest` is left behind it. -/
def BeginsWith (levels : Nat) (source : String) (e : Expr) (rest : String) : Prop :=
  ∃ d, Chain (Conditional levels) (Cursor.start source.toList) e d ∧ d.chars = rest.toList

/-- A text that is an operand is parsed as it. -/
theorem BeginsWith.parse_eq {e : Expr} (h : BeginsWith 255 code e "") (hh : e.height ≤ maxDepth) :
    Expr.parse code = .ok e := by
  obtain ⟨d, hchain, hd⟩ := h
  obtain ⟨f, hf⟩ := Cursor.exists_reads_end hd
  have hderives : Derives maxDepth code e :=
    ⟨d, f, .operation ((hchain.unary hf (by simp) (by simp)).binary (by decide)), hf⟩
  exact hderives.parse_eq hh

/-- What writes a tree begins with it in parentheses. -/
theorem Grammar.Writes.beginsWith {e : Expr} (h : Writes code e) {levels : Nat}
    (hl : 2 * e.height ≤ levels + 1) : BeginsWith levels ("(" ++ code ++ ")") e "" := by
  have hopen : (Cursor.start ("(" ++ code ++ ")").toList).chars
      = "(".toList ++ (code.toList ++ (")".toList ++ [])) := by
    simp [Cursor.start, String.toList_append]
  obtain ⟨b, hb, hbc⟩ := Cursor.exists_reads_bracket_of_chars hopen (by decide)
  obtain ⟨d, f, he, hf, hfc⟩ := h.upTo hl (by decide : ")" ∈ closers) hbc
  exact ⟨f, .primary (.group hb he hf), hfc⟩

/-- **A point and a name behind a text access what the text is read as.** -/
theorem TakesPoint.beginsWith (h : TakesPoint code) {levels : Nat} {e : Expr}
    (he : BeginsWith levels code e "") (hn : IsName n) (htail : Scan.endsName tail.toList) :
    BeginsWith levels (code ++ "." ++ n ++ tail) (.member e (.identifier n) false) tail := by
  obtain ⟨d, hchain, hd⟩ := he
  obtain ⟨ts, hw, -, hderives⟩ := traced_chain (traced_conditional levels) hchain
  obtain ⟨b, p, f, hb, hp, -, hf, -, hfc⟩ :=
    h.exists_walk hw (Cursor.skipLayout_chars hd (by simp)) hn htail
  have hread := hderives _ b hb (clear_of_reads hp (by simp) (by simp))
  have haccess := Chain.named hread hp hf (Lexeme.isName_ofName n)
  rw [Lexeme.text_ofName] at haccess
  exact ⟨f, haccess, hfc⟩

end Access

end ChartScript
