import ChartScript.Proofs.Grammar.Point
import ChartScript.Proofs.Sandbox.Tokens
import ChartScript.Runtime

/-!
# Proofs/Sandbox/Access — a point behind a receiver

Emission puts a point and a name behind the code of a receiver as it is: for a member with a name,
and for a method that casts its receiver to nothing.  The code of every tree but a literal ends with
a closing bracket or a name, so the point is a token of its own behind it, and it is one behind a
literal unless this is a number in digits: `5` and `.e1` run together to another number
(`compile_access`).
-/

namespace ChartScript

open Text Grammar Emit

namespace Sandbox

variable {sandbox : Sandbox} {expand : Expr → Emit String} {object name tail : String}
  {e tree : Expr}

/-- **The tree accesses `name` on `e`**: it is a member, or a call of a method that leaves its
receiver as it is. -/
inductive Accesses (sandbox : Sandbox) (e : Expr) (name : String) : Expr → Prop where
  | member : Accesses sandbox e name (.member e (.identifier name) false)
  | method {function : String} {rest : List Expr} {mode : MethodMode}
    (hf : sandbox.functions.lookup function = some (.method ⟨name, none, mode⟩)) :
    Accesses sandbox e name (.call (.identifier function) (e :: rest))

/-- What comes behind the name in the code of the tree: nothing behind that of a member, and
arguments behind that of a method that is no property. -/
def Trails : Expr → String → Prop
  | .call _ _, tail => tail = "" ∨ ∃ inside, tail = "(" ++ inside ++ ")"
  | _, tail => tail = ""

/-! ## What is emitted for an access -/

theorem Accesses.height_le (h : sandbox.Accesses e name tree) : e.height ≤ tree.height := by
  cases h with
  | member => rw [Expr.height_member]; omega
  | method _ => rw [Expr.height_call, Expr.tallest_cons]; omega

/-- **The receiver of an access is emitted first**, and the point and the name come behind its
code. -/
theorem Accesses.exists_emit (h : sandbox.Accesses e name tree) {s t : Session} {code : String}
    (he : emitOver sandbox expand tree s = (.ok code, t)) :
    ∃ own u tail, emitOver sandbox expand e s = (.ok own, u) ∧
      code = own ++ "." ++ name ++ tail ∧ Trails tree tail := by
  cases h with
  | member =>
    rw [emitOver, asName_emitOver_identifier] at he
    obtain ⟨own, u, hown, he⟩ := bind_eq_ok_iff.1 he
    obtain ⟨_, _, hname, he⟩ := bind_eq_ok_iff.1 he
    cases hname
    obtain ⟨_, _, -, he⟩ := bind_eq_ok_iff.1 he
    cases he
    exact ⟨own, _, "", hown, (String.append_empty).symm, rfl⟩
  | @method function rest mode hf =>
    rw [emitOver, hf] at he
    have he : (Method.mk name none mode).emit
      (emitOver sandbox expand e :: emitters sandbox expand rest) s = (.ok code, t) := he
    obtain ⟨own, u, hown, he⟩ := bind_eq_ok_iff.1 he
    cases mode with
    | property =>
      cases he
      exact ⟨own, _, "", hown, (String.append_empty).symm, .inl rfl⟩
    | noArgs =>
      cases he
      exact ⟨own, _, "()", hown, rfl, .inr ⟨"", rfl⟩⟩
    | forward =>
      obtain ⟨codes, _, -, he⟩ := bind_eq_ok_iff.1 he
      cases he
      exact ⟨own, u, "(" ++ joinCodes codes ++ ")", hown,
        by simp [Method.receiver, String.append_assoc], .inr ⟨_, rfl⟩⟩

/-- **The code of an access** is that of its receiver with a point and the name behind it. -/
theorem Accesses.exists_compile (h : sandbox.Accesses e name tree) (hstd : sandbox.Standard)
    {out : Output} (hc : sandbox.compile tree = .ok out) :
    ∃ own tail, sandbox.compile e = .ok own ∧ out.code = own.code ++ "." ++ name ++ tail ∧
      Trails tree tail := by
  obtain ⟨hheight, -⟩ := exists_of_compile (hstd.expands tree) hc
  obtain ⟨session, hemit, -, -⟩ := (compile_eq_ok_iff (hstd.expands tree) hheight).1 hc
  obtain ⟨own, u, tail, hown, hcode, htail⟩ := h.exists_emit hemit
  exact ⟨⟨own, u.globals, u.fields⟩, tail, (compile_eq_ok_iff (hstd.expands e)
    (h.height_le.trans hheight)).2 ⟨u, hown, rfl, rfl⟩, hcode, htail⟩

section

variable [Externals]

theorem Trails.endsName (h : Trails tree tail) : Scan.endsName tail.toList := by
  have hnil : Scan.endsName "".toList := Scan.endsName_nil
  unfold Trails at h
  split at h
  · rcases h with rfl | ⟨inside, rfl⟩
    · exact hnil
    · rw [String.append_assoc, String.toList_append]
      exact Scan.endsName_cons.2 (isIdentifierPart_eq_false_of_isPlainBreak (by decide))
  · exact h ▸ hnil

/-! ## How the code of a receiver ends -/

theorem ended_referenceParts (hs : sandbox.Stock) (hg : sandbox.globalVar = .named object)
    {id : String} (h : IsReference id) : Ended (sandbox.referenceParts id) := by
  unfold referenceParts
  split
  · next code hc => exact (hs.isPath hc).ended
  · split
    · exact ⟨[], .name id, rfl, .name h.1⟩
    · rw [hg]
      exact (ended_enclosed (by decide) _ _).behind _

/-- **The code of a tree ends with a closing bracket or a name**, unless the tree is a literal. -/
theorem ended_parts (hs : sandbox.Stock) (hg : sandbox.globalVar = .named object)
    (hw : e.WellFormed) (hk : sandbox.Callable e) (hl : ∀ value raw, e ≠ .literal value raw) :
    Ended (sandbox.parts e) := by
  cases hw with
  | literal _ => exact absurd rfl (hl _ _)
  | identifier href => exact ended_referenceParts hs hg href
  | @call callee args _ _ =>
    obtain ⟨function, definition, rfl, hd, haccepts⟩ := (callable_iff.1 hk).1
    rw [parts, hd, partsOfAll_eq_map]
    exact ended_callParts (hs.plain hd) (by rwa [List.length_map])
  | @named receiver name _ hn => exact ended_access hn _
  | computed _ _ =>
    rw [parts]
    exact (ended_enclosed (by decide) _ _).behind _
  | array _ | object _ _ _ | binary _ _ | logical _ _ | unary _ | conditional _ _ _ =>
    rw [parts]
    exact ended_enclosed (by decide) _ _

/-- **The code of a tree takes a point**, unless the tree is a number in digits. -/
theorem takesPoint_parts (hempty : Regex.AcceptsEmptyGroup) (hs : sandbox.Stock)
    (hg : sandbox.globalVar = .named object) (hw : e.WellFormed) (hk : sandbox.Callable e)
    (hd : e.isDigits = false) : TakesPoint (textOf (sandbox.parts e)) := by
  by_cases hl : ∀ value raw, e ≠ .literal value raw
  · exact (ended_parts hs hg hw hk hl).takesPoint
  · push Not at hl
    obtain ⟨value, raw, rfl⟩ := hl
    cases hw with
    | literal hspelled =>
      have hlaid : sandbox.Laid (.literal value raw) := laid_literal hempty hspelled
      refine hlaid.stands.comprises.takesPoint ?_
      have hdigits := hlaid.digits hd
      rwa [parts, textOf_cons, Part.text_literal, textOf_nil, String.append_empty] at hdigits

/-- The code of a number in digits takes no point. -/
theorem not_walk_of_isDigits (hw : e.WellFormed) (hd : e.isDigits = true) {ts : List Terminal}
    {d : Cursor} {rest : List Char} (hts : Comprises (textOf (sandbox.parts e)) ts) :
    ¬ Walk .operand (Cursor.start ((textOf (sandbox.parts e)).toList ++ '.' :: rest)) ts d := by
  match e, hd with
  | .literal (.number value) raw, hd =>
    have hcode : textOf (sandbox.parts (.literal (.number value) raw)) = raw := by
      rw [parts, textOf_cons, Part.text_literal, textOf_nil, String.append_empty]
      rfl
    rw [hcode] at hts ⊢
    cases hw with
    | literal hspelled => exact hspelled.not_walk_point hd hts

theorem takesPoint_code (hempty : Regex.AcceptsEmptyGroup) (hs : sandbox.Stock)
    (hg : sandbox.globalVar = .named object) (hw : e.WellFormed) {out : Output}
    (hc : sandbox.compile e = .ok out) (hd : e.isDigits = false) : TakesPoint out.code := by
  obtain ⟨-, expand, session, hemit, -, -⟩ := exists_of_compile (hs.standard.expands e) hc
  rw [code_eq_textOf_parts hs.standard hg hw hc]
  exact takesPoint_parts hempty hs hg hw (callable_of_emits hs.standard ⟨_, _, hemit⟩) hd

/-- **Where an access fuses with its receiver.**  The code of an access is that of its receiver with
a point and the name behind it.  It is scanned as the tokens of the code of the receiver, the point
and the name just if the receiver is no number in digits.  Then the code accesses the name on
whatever the code of the receiver is read as.  The engines of regular expressions have to accept an
empty group, which stands in the code for an empty pattern. -/
theorem compile_access (hempty : Regex.AcceptsEmptyGroup) {source : String} {out : Output}
    (h : Expr.parse source = .ok e) (hs : sandbox.Stock) (hg : sandbox.globalVar = .named object)
    (hn : IsName name) (ha : sandbox.Accesses e name tree) (hc : sandbox.compile tree = .ok out) :
    ∃ own tail, sandbox.compile e = .ok own ∧ out.code = own.code ++ "." ++ name ++ tail ∧
      Trails tree tail ∧ (IsPath object → sandbox.Apart e → ∃ ts, Comprises own.code ts) ∧
      (∀ ts, Comprises own.code ts → ((∃ d, Walk .operand (Cursor.start out.code.toList)
        (ts ++ accessTokens name) d ∧ d.chars = tail.toList) ↔ e.isDigits = false)) ∧
      (e.isDigits = false → ∀ read,
        (∀ levels, BeginsWith levels own.code read "" →
          BeginsWith levels out.code (.member read (.identifier name) false) tail) ∧
        (tail = "" → BeginsWith 255 own.code read "" → read.height < maxDepth →
          Expr.parse out.code = .ok (.member read (.identifier name) false))) := by
  have hw := (derives_of_parse h).1.wellFormed
  obtain ⟨own, tail, hown, hcode, htail⟩ := ha.exists_compile hs.standard hc
  have hpoint := takesPoint_code hempty hs hg hw hown
  refine ⟨own, tail, hown, hcode, htail, fun ho hapart => ?_, fun ts hts => ⟨?_, fun hd => ?_⟩,
    fun hd read => ?_⟩
  · exact ⟨_, comprises_parts hempty hs hg ho hw hapart hown⟩
  · rintro ⟨d, hwalk, -⟩
    rw [← Bool.not_eq_true]
    intro hd
    obtain ⟨b, hb, -⟩ := Walk.append_iff.1 hwalk
    rw [code_eq_textOf_parts hs.standard hg hw hown] at hts hcode
    have hsource : out.code.toList = (textOf (sandbox.parts e)).toList
        ++ '.' :: (name.toList ++ tail.toList) := by
      simp [hcode, String.toList_append]
    exact not_walk_of_isDigits hw hd hts (hsource ▸ hb)
  · rw [hcode]
    exact (hpoint hd).exists_tokens hts hn htail.endsName
  · have hbegins : ∀ levels, BeginsWith levels own.code read "" →
        BeginsWith levels out.code (.member read (.identifier name) false) tail :=
      fun levels hread => hcode ▸ (hpoint hd).beginsWith hread hn htail.endsName
    refine ⟨hbegins, fun hnil hread hheight => ?_⟩
    have haccess := hbegins 255 hread
    rw [hnil] at haccess
    have hpos := read.height_pos
    refine haccess.parse_eq ?_
    rw [Expr.height_member, Expr.height_identifier]
    omega

end

/-- The point behind a regular expression and its flags is a token of its own. -/
theorem compile_access_slice :
    let e := Expr.literal (.regex "x" "g") "/x/g"
    let tree := Expr.call (.identifier "slice") [e, .identifier "a"]
    let sandbox : Sandbox := .ofOptions {}
    Regex.AcceptsEmptyGroup ∧ Expr.parse "/x/g" = .ok e ∧ sandbox.Stock ∧
      sandbox.globalVar = .named "global" ∧ IsName "slice" ∧ sandbox.Accesses e "slice" tree ∧
      sandbox.compile tree = .ok ⟨"/x/g.slice(global[\"a\"])", ["a"], []⟩ ∧
      ∃ d, Walk .operand (Cursor.start "/x/g.slice(global[\"a\"])".toList)
        [⟨.regex "x" "g", "/x/g"⟩, ⟨.punctuator ".", "."⟩, ⟨.identifier "slice", "slice"⟩] d ∧
        d.chars = "(global[\"a\"])".toList := by
  intro e tree sandbox
  have hspelled : (Literal.regex "x" "g").Spelled "/x/g" := by
    unfold Literal.Spelled
    cbv
  have hparse : Expr.parse "/x/g" = .ok e := hspelled.parse_eq
  have hn : IsName "slice" := isName_of_plain (by decide)
  have ha : sandbox.Accesses e "slice" tree := .method (by rfl)
  have hc : sandbox.compile tree = .ok ⟨"/x/g.slice(global[\"a\"])", ["a"], []⟩ :=
    compile_eq_of_outcome? (by decide +kernel)
  have hown : sandbox.compile e = .ok ⟨"/x/g", [], []⟩ :=
    compile_eq_of_outcome? (by decide +kernel)
  refine ⟨acceptsEmptyGroup, hparse, stock_ofOptions, rfl, hn, ha, hc, ?_⟩
  obtain ⟨own, tail, hown', hcode, -, -, htokens, -⟩ :=
    compile_access acceptsEmptyGroup hparse stock_ofOptions rfl hn ha hc
  obtain rfl := Except.ok.inj (hown.symm.trans hown')
  obtain ⟨d, hd, hdc⟩ := (htokens _ (stands_literal acceptsEmptyGroup hspelled).comprises).2 rfl
  refine ⟨d, hd, hdc.trans (congrArg String.toList ?_)⟩
  have hsame : "/x/g.slice" ++ "(global[\"a\"])" = "/x/g.slice" ++ tail := hcode
  exact (String.append_right_inj _).1 hsame.symm

theorem exists_spelled_five : ∃ value, (Literal.number value).Spelled "5" := by
  have hlexeme : Scan.lexeme "5".toList = Scan.decimalLiteral ['5'] := by
    show Scan.lexeme ['5'] = _
    rw [Scan.lexeme, if_neg (by decide), if_neg (by decide), if_pos (by decide)]
    exact Scan.number_eq_decimalLiteral (by simp)
  have hliteral : Scan.decimalLiteral ['5'] =
      .ok (.number (Scan.decimalValue ['5']) false, []) :=
    Scan.andThen_eq_ok_iff.2 ⟨(), [], rfl, Scan.numberEnd_eq_ok_iff.2 ⟨rfl, rfl, rfl⟩⟩
  exact ⟨Scan.decimalValue ['5'], hlexeme.trans hliteral⟩

/-- **The point of a member may belong to its receiver**: a number in digits and the point behind it
are one token. -/
theorem not_forall_access :
    ¬ ∀ (sandbox : Sandbox) (object source name : String) (e : Expr) (own out : Output),
      sandbox.functions = defaultFunctions → sandbox.constants = defaultConstants →
        sandbox.globalVar = .named object →
          Expr.parse source = .ok (.member e (.identifier name) false) →
            sandbox.compile e = .ok own →
              sandbox.compile (.member e (.identifier name) false) = .ok out →
                ∃ ts, Comprises own.code ts ∧ Comprises out.code (ts ++ accessTokens name) := by
  intro hall
  obtain ⟨value, hspelled⟩ := exists_spelled_five
  have hn : IsName "e1" := isName_of_plain (by decide)
  have hbegins : BeginsWith 255 "(5)" (.literal (.number value) "5") "" :=
    hspelled.writes.beginsWith (by simp)
  have htakes : TakesPoint "(5)" := Part.Final.takesPoint (.bracket (m := ")") (by decide)) "(5"
  have htail : Scan.endsName "".toList := Scan.endsName_nil
  have hcode : "(5)" ++ "." ++ "e1" ++ "" = "(5).e1" := rfl
  have haccess : BeginsWith 255 "(5).e1" _ "" := hcode ▸ htakes.beginsWith hbegins hn htail
  have hparse := haccess.parse_eq (by simp; decide)
  obtain ⟨ts, hts, d, hw, -⟩ := hall (.ofOptions {}) "global" "(5).e1" "e1" _ ⟨"5", [], []⟩
    ⟨"5.e1", [], []⟩ (List.nil_append _) (List.nil_append _) rfl hparse
    (compile_eq_of_outcome? rfl) (compile_eq_of_outcome? rfl)
  obtain ⟨b, hb, -⟩ := Walk.append_iff.1 hw
  exact hspelled.not_walk_point (by decide) hts hb

end Sandbox

end ChartScript
