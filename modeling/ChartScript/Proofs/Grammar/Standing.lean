import ChartScript.Proofs.Grammar.Parts

/-!
# Proofs/Grammar/Standing — texts that stand as operands

Parts `Stand` when an operand is due in front of them and an operator behind.  Literals and names
stand, and what is put together from parts that stand, with marks and names between them, stands
again: members, calls, lists, and operations in parentheses.  A path is a name with further names
behind points.
-/

namespace ChartScript

open Text Grammar

/-- An operator and the blanks that set it off. -/
def Part.operator (op : Connective) : Part :=
  ⟨op.isWord, ⟨if op.isWord then .keyword op.symbol else .punctuator op.symbol, op.symbol⟩, op.isWord⟩

@[simp] theorem Part.text_operator (op : Connective) :
    (Part.operator op).text = op.gap ++ op.symbol ++ op.gap := rfl

/-! ## Names with points between them -/

/-- The texts between the points of a text. -/
def namesOf (code : String) : List String := (code.toList.splitOn '.').map String.ofList

theorem namesOf_ne_nil (code : String) : namesOf code ≠ [] := by
  unfold namesOf
  simp [List.splitOn_ne_nil]

/-- Names with points between them. -/
def dotted : List String → List Part
  | [] => []
  | [n] => [.name n]
  | n :: next :: names => .name n :: .mark "." :: dotted (next :: names)

/-- The parts of a path. -/
def path (code : String) : List Part := dotted (namesOf code)

theorem textOf_dotted (names : List String) :
    textOf (dotted names) = String.intercalate "." names := by
  induction names with
  | nil => rfl
  | cons n names ih =>
    match names with
    | [] => simp [dotted, String.intercalate_singleton]
    | next :: names =>
      rw [dotted, textOf_cons, textOf_cons, ih, Part.text_name, Part.text_mark,
        String.intercalate_cons_cons, String.append_assoc]

theorem textOf_path (code : String) : textOf (path code) = code := by
  rw [path, textOf_dotted, ← String.toList_inj, String.toList_intercalate, namesOf, List.map_map]
  have hid : String.toList ∘ String.ofList = id := funext fun cs => String.toList_ofList
  rw [hid, List.map_id]
  exact List.intercalate_splitOn '.'

theorem dotted_concat {names : List String} (hne : names ≠ []) (n : String) :
    dotted (names ++ [n]) = dotted names ++ [.mark ".", .name n] := by
  induction names with
  | nil => exact absurd rfl hne
  | cons m names ih =>
    match names with
    | [] => rfl
    | next :: names =>
      show .name m :: .mark "." :: dotted (next :: names ++ [n]) = _
      rw [ih (List.cons_ne_nil next names)]
      rfl

variable [Externals] {due due' : Expectation} {parts more : List Part}
  {follow : List Char → Prop} {rest : List Char}

/-! ## Operands -/

/-- **Parts that stand as an operand**, whatever may come behind their text. -/
structure Stands (parts : List Part) : Prop where
  begins : ∃ x xs, (textOf parts).toList = x :: xs ∧ beginsCode x = true
  lays : Lays .operand .operator parts (endsCode (textOf parts))

theorem Stands.listed (h : Stands parts) : Listed parts := by
  refine ⟨.operator, by simp, h.lays.imp ?_⟩
  rintro rest ⟨m, hm, later, rfl⟩
  obtain ⟨hmark, hpoint, -⟩ := closers_facts m hm
  exact endsCode_mark hmark hpoint

/-- Any mark may stand in front of an operand. -/
theorem Stands.endsMark (h : Stands parts) {m : String} (hm : m ∈ punctuators) :
    Scan.endsMark m ((textOf parts).toList ++ rest) := by
  obtain ⟨x, xs, hx, hb⟩ := h.begins
  refine endsMark_of_beginsCode hm fun y hy => ?_
  rw [hx] at hy
  cases hy
  exact hb

/-- **What stands is cut into its tokens**, up to its end. -/
theorem Stands.comprises (h : Stands parts) : Comprises (textOf parts) (tokensOf parts) := by
  obtain ⟨d, hd, hdc⟩ := @Lays.walk _ _ _ _ _ h.lays (Cursor.start (textOf parts).toList) []
    ⟨Scan.endsName_nil, fun hp => nomatch hp⟩ (by rw [List.append_nil]; rfl)
  exact ⟨d, hd, hdc⟩

theorem stands_literal (hempty : Regex.AcceptsEmptyGroup) {value : Literal} {raw : String}
    (h : value.Spelled raw) : Stands [.literal value raw] := by
  have hcode := h.explicit hempty
  obtain ⟨x, xs, hx, hb⟩ := hcode.begins
  have hlayout : isLayout x = false := by
    rw [beginsCode, Bool.and_eq_true, Bool.not_eq_true'] at hb
    exact hb.1
  have hafter : Expectation.operand.after (Part.literal value raw).token.lexeme = .operator := by
    cases value <;> rfl
  refine ⟨⟨x, xs, by simpa using hx, hb⟩, hafter ▸ ?_⟩
  have hlays := @lays_singleton .operand (endsCode (value.code raw)) (.literal value raw) _
    ⟨x, xs, hx, hlayout⟩
    fun hrest hc => hcode.exists_consumes hrest hc
  rw [textOf_cons, Part.text_literal, textOf_nil, String.append_empty]
  exact hlays

/-- **Parts between brackets stand.** -/
theorem stands_enclosed {opening closing : String} {inside : List Part}
    (ho : opening ∈ ["(", "[", "\x7b"])
    (h : Lays .operand .operator (inside ++ [.mark closing]) fun _ => True) :
    Stands (enclosed opening inside closing) := by
  have hfacts : ∀ m ∈ ["(", "[", "\x7b"], m ∈ brackets ∧
      Expectation.operand.after (.punctuator m) = .operand ∧
      m.toList.head?.any beginsCode = true := by decide
  obtain ⟨hbracket, hafter, hhead⟩ := hfacts opening ho
  obtain ⟨x, hx, hb⟩ := (Option.any_eq_true _ _).1 hhead
  obtain ⟨xs, hxs⟩ := List.head?_eq_some_iff.1 hx
  have hopen := @lays_bracket .operand _ opening false hbracket
  rw [hafter] at hopen
  refine ⟨⟨x, xs ++ (textOf inside ++ closing).toList, ?_, hb⟩, ?_⟩
  · rw [textOf_enclosed, String.append_assoc, String.toList_append, hxs, List.cons_append]
  · exact (hopen.cons h fun _ _ => trivial).imp fun _ _ => trivial

/-- A member stands behind what stands, unless this is written in digits. -/
theorem Stands.access (h : Stands parts) (hd : (textOf parts).toList.all isDigit = false)
    {n : String} (hn : IsName n) : Stands (parts ++ [.mark ".", .name n]) := by
  obtain ⟨x, xs, hx, hb⟩ := h.begins
  refine ⟨⟨x, _, by rw [textOf_append, String.toList_append, hx, List.cons_append], hb⟩, ?_⟩
  have hpoint := @lays_mark .operator _ "." false false (by decide) (by simp)
  have hname := @lays_name .name _ n false false hn
  have hstart : ∀ rest, ∀ y ∈ ((textOf [Part.name n]).toList ++ rest).head?,
      isIdentifierStart y = true := by
    obtain ⟨y, ys, hy, hstart, -⟩ := hn
    intro rest z hz
    rw [textOf_cons, Part.text_name, textOf_nil, String.append_empty, hy] at hz
    cases hz
    exact hstart
  have haccess : Lays .operator .operator [.mark ".", .name n] Scan.endsName := by
    refine hpoint.cons hname fun rest _ => ⟨?_, fun _ y hy => ?_⟩
    · exact endsMark_of_beginsCode (by decide) fun y hy =>
        beginsCode_of_isIdentifierStart (hstart rest y hy)
    · exact isDigit_eq_false_of_isIdentifierStart (hstart rest y hy)
  refine h.lays.append (haccess.imp fun _ hr => hr.1) fun rest _ => ?_
  rw [textOf_cons, Part.text_mark, String.toList_append, List.append_assoc]
  exact ⟨Scan.endsName_cons.2 (isIdentifierPart_eq_false_of_isPlainBreak (by decide)),
    fun _ => hd⟩

/-- What is between brackets stands behind what stands. -/
theorem Stands.behind (h : Stands parts) {opening closing : String} {inside : List Part}
    (ho : opening ∈ ["(", "["])
    (h' : Lays .operand .operator (inside ++ [.mark closing]) fun _ => True) :
    Stands (parts ++ enclosed opening inside closing) := by
  have hfacts : ∀ m ∈ ["(", "["], m ∈ brackets ∧ m ≠ "." ∧
      Expectation.operator.after (.punctuator m) = .operand := by decide
  obtain ⟨hbracket, hpoint, hafter⟩ := hfacts opening ho
  obtain ⟨x, xs, hx, hb⟩ := h.begins
  have hopen := @lays_bracket .operator _ opening false hbracket
  rw [hafter] at hopen
  refine ⟨⟨x, _, by rw [textOf_append, String.toList_append, hx, List.cons_append], hb⟩, ?_⟩
  refine h.lays.append ((hopen.cons h' fun _ _ => trivial).imp fun _ _ => trivial) fun rest _ => ?_
  rw [textOf_enclosed, String.append_assoc, String.toList_append, List.append_assoc]
  exact endsCode_mark (brackets_facts opening hbracket).1 hpoint

/-! ## How parts end -/

/-- A closing bracket, or a name. -/
inductive Part.Final : Part → Prop where
  | bracket {m : String} (hm : m ∈ [")", "]", "\x7d"]) : Final (.mark m)
  | name {n : String} (hn : IsName n) : Final (.name n)

/-- The last part is a closing bracket or a name. -/
def Ended (parts : List Part) : Prop := ∃ front last, parts = front ++ [last] ∧ last.Final

theorem Ended.behind (h : Ended more) (parts : List Part) : Ended (parts ++ more) := by
  obtain ⟨front, last, rfl, hlast⟩ := h
  exact ⟨parts ++ front, last, by rw [List.append_assoc], hlast⟩

theorem ended_enclosed {closing : String} (hc : closing ∈ [")", "]", "\x7d"]) (opening : String)
    (inside : List Part) : Ended (enclosed opening inside closing) :=
  ⟨.mark opening :: inside, _, rfl, .bracket hc⟩

theorem ended_access {n : String} (h : IsName n) (parts : List Part) :
    Ended (parts ++ [.mark ".", .name n]) :=
  ⟨parts ++ [.mark "."], _, by rw [List.append_assoc]; rfl, .name h⟩

/-! ## Operations -/

/-- An operand is due behind an operator. -/
theorem lays_operator (op : Connective) : Lays .operator .operand [.operator op] fun rest =>
    op.isWord = false → Scan.endsMark op.symbol rest := by
  unfold Part.operator
  match hw : op.isWord with
  | false =>
    obtain ⟨hm, hpoint, -⟩ := operatorMark_facts op hw
    have hafter : Expectation.operator.after (.punctuator op.symbol) = .operand := by
      rcases op with op | op <;> cases op <;> decide
    have hlays := @lays_mark .operator _ op.symbol false false hm (by simp)
    rw [hafter] at hlays
    exact hlays.imp fun rest hrest => ⟨hrest rfl, fun hp => absurd hp hpoint⟩
  | true =>
    obtain ⟨hname, hkeyword⟩ := operatorWord_facts op hw
    have hafter : Expectation.operator.after (.keyword op.symbol) = .operand := by
      rcases op with op | op <;> cases op <;> decide
    have hlays := @lays_name .operator _ op.symbol true true hname
    rw [hkeyword, hafter] at hlays
    exact hlays.imp fun rest _ =>
      Scan.endsName_cons.2 (isIdentifierPart_eq_false_of_isLayout (by decide))

/-- **An operation stands in parentheses.** -/
theorem stands_operation (op : Connective) (h : Stands parts) (h' : Stands more) :
    Stands (enclosed "(" (parts ++ .operator op :: more) ")") := by
  refine stands_enclosed (by decide) ?_
  rw [List.append_assoc, List.cons_append]
  refine h.lays.append ((lays_operator op).cons (h'.listed.close (by decide)) fun rest _ hw => ?_)
    fun rest _ => ?_
  · rw [textOf_append, String.toList_append, List.append_assoc]
    exact h'.endsMark (operatorMark_facts op hw).1
  · rw [textOf_cons, Part.text_operator]
    simp only [String.toList_append, List.append_assoc]
    exact endsCode_operator op

/-- An operator in front of an operand stands in parentheses. -/
theorem stands_unary (op : UnaryOperator) (h : Stands parts) :
    Stands (enclosed "(" (.mark op.symbol :: parts) ")") := by
  obtain ⟨hm, hpoint⟩ := unaryMark_facts op
  have hfacts : Expectation.operand.after (.punctuator op.symbol) = .operand ∧
      Lexeme.isSlash (.punctuator op.symbol) = false := by
    cases op <;> decide
  have hmark := @lays_mark .operand _ op.symbol false false hm fun _ => hfacts.2
  rw [hfacts.1] at hmark
  refine stands_enclosed (by decide) ?_
  rw [List.cons_append]
  refine hmark.cons (h.listed.close (by decide)) fun rest _ => ?_
  rw [textOf_append, String.toList_append, List.append_assoc]
  exact ⟨h.endsMark hm, fun hp => absurd hp hpoint⟩

/-- A choice stands in parentheses. -/
theorem stands_conditional {test consequent alternate : List Part} (ht : Stands test)
    (hc : Stands consequent) (ha : Stands alternate) :
    Stands (enclosed "(" (test ++ .mark "?" :: (consequent ++ .mark ":" :: alternate)) ")") := by
  refine stands_enclosed (by decide) ?_
  simp only [List.append_assoc, List.cons_append]
  exact ht.listed.separate false (by decide)
    (hc.listed.separate false (by decide) (ha.listed.close (by decide)))

/-! ## Paths -/

/-- **A path**: a reference, and names behind it with points between them. -/
def IsPath (code : String) : Prop :=
  (∀ n ∈ (namesOf code).head?, IsReference n) ∧ ∀ n ∈ namesOf code, IsName n

/-- Paths of characters among the first 128. -/
def isPlainPath (code : String) : Bool :=
  (namesOf code).head?.all isPlainReference && (namesOf code).all isPlainName

theorem isPath_of_plain {code : String} (h : isPlainPath code = true) : IsPath code := by
  rw [isPlainPath, Bool.and_eq_true] at h
  refine ⟨fun n hn => isReference_of_plain ?_, fun n hn => ?_⟩
  · rw [Option.mem_def.1 hn] at h
    exact h.1
  · exact isName_of_plain (List.all_eq_true.1 h.2 n hn)

instance (name : String) : Decidable (IsName name) :=
  decidable_of_iff (name.toList.head?.any (fun c => isIdentifierStart c && c != '\\') = true ∧
      name.toList.tail.all (fun c => isIdentifierPart c && c != '\\') = true) <| by
    unfold IsName
    cases name.toList with
    | nil => simp
    | cons c cs => simp [and_assoc]

instance (name : String) : Decidable (IsReference name) := inferInstanceAs (Decidable (_ ∧ _))

instance (code : String) : Decidable (IsPath code) := inferInstanceAs (Decidable (_ ∧ _))

/-- Behind a reference an operator is due. -/
theorem IsReference.after {n : String} (h : IsReference n) :
    Expectation.operand.after (Lexeme.ofName n) = .operator := by
  rcases h.2 with ⟨hr, -⟩ | rfl | rfl
  · unfold Lexeme.ofName
    rw [hr, if_neg (by simp)]
    repeat' split
    all_goals rfl
  · rfl
  · rfl

theorem stands_name {n : String} (h : IsReference n) : Stands [.name n] := by
  have hlays := @lays_name .operand _ n false false h.1
  rw [h.after] at hlays
  obtain ⟨x, xs, hx, hstart, -⟩ := h.1
  exact ⟨⟨x, xs, by simpa using hx, beginsCode_of_isIdentifierStart hstart⟩,
    hlays.imp fun _ hr => hr.1⟩

theorem IsName.all_isDigit {n : String} (h : IsName n) : n.toList.all isDigit = false := by
  obtain ⟨x, xs, hx, hstart, -⟩ := h
  exact all_isDigit_eq_false (hx ▸ List.mem_cons_self) (isDigit_eq_false_of_isIdentifierStart hstart)

/-- Names stand when the first of them does, and they are not of digits. -/
theorem stands_dotted {names : List String} (hne : names ≠ [])
    (hhead : ∀ n ∈ names.head?, IsReference n) (h : ∀ n ∈ names, IsName n) :
    Stands (dotted names) ∧ (textOf (dotted names)).toList.all isDigit = false := by
  induction names using List.reverseRecOn with
  | nil => exact absurd rfl hne
  | append_singleton names n ih =>
    by_cases hnil : names = []
    · subst hnil
      refine ⟨stands_name (hhead n rfl), ?_⟩
      simpa [dotted] using (h n (by simp)).all_isDigit
    · obtain ⟨hstands, hdigits⟩ := ih hnil
        (fun m hm => hhead m (by rwa [List.head?_append_of_ne_nil _ hnil]))
        fun m hm => h m (List.mem_append_left _ hm)
      rw [dotted_concat hnil]
      refine ⟨hstands.access hdigits (h n (by simp)), ?_⟩
      have hpoint : '.' ∈ (textOf (dotted names ++ [.mark ".", .name n])).toList := by
        simp [String.toList_append]
      exact all_isDigit_eq_false hpoint (by decide)

/-- **A path stands**, and it is not of digits. -/
theorem IsPath.stands {code : String} (h : IsPath code) :
    Stands (path code) ∧ code.toList.all isDigit = false := by
  have hstands := stands_dotted (namesOf_ne_nil code) h.1 h.2
  rwa [← path, textOf_path] at hstands

/-- A path ends with a name. -/
theorem IsPath.ended {code : String} (h : IsPath code) : Ended (path code) := by
  obtain ⟨names, n, hnames⟩ := (List.eq_nil_or_concat' (namesOf code)).resolve_left
    (namesOf_ne_nil code)
  have hn : IsName n := h.2 n (by simp [hnames])
  rw [path, hnames]
  by_cases hnil : names = []
  · subst hnil
    exact ⟨[], .name n, rfl, .name hn⟩
  · rw [dotted_concat hnil]
    exact ended_access hn _

end ChartScript
