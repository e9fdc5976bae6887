import ChartScript.Proofs.Grammar.Comment
import ChartScript.Proofs.Sandbox.Shape
import ChartScript.Proofs.Sandbox.Tokens
import ChartScript.Runtime

/-!
# Proofs/Sandbox/Comment — where code opens a comment

Emission puts operators next to operands without blanks, so a slash that divides opens a comment
when the code of the right operand begins with a slash, as the code of a regular expression does.
No other code begins with a slash, and none with a star.  So the code of a tree opens a comment just
if something in the tree is divided by what begins with a regular expression (`compile_comment`).
-/

namespace ChartScript

open Text Grammar

namespace Sandbox

variable (sandbox : Sandbox)

/-- The tree whose code the code of a tree begins with, if it is not an operation of its own: the
receiver of a member, or of a method that casts it to nothing. -/
def leading : Expr → Option Expr
  | .member receiver _ _ => some receiver
  | e => sandbox.pointed e

/-- **The code of the tree begins with a regular expression.** -/
inductive BeginsRegex : Expr → Prop where
  | literal {pattern flags raw : String} : BeginsRegex (.literal (.regex pattern flags) raw)
  | receiver {e receiver : Expr} (h : sandbox.leading e = some receiver)
    (hr : BeginsRegex receiver) : BeginsRegex e

/-- **Somewhere in the tree something is divided by what begins with a regular expression.** -/
def DividesByRegex (e : Expr) : Prop :=
  ∃ left right, .binary .div left right ∈ sandbox.emittedNodes e ∧ sandbox.BeginsRegex right

/-- How the parts of a tree begin and end, and whether they open a comment. -/
structure Outlined (e : Expr) : Prop where
  closed : Closed (sandbox.parts e)
  completes : CompletesComment (textOf (sandbox.parts e)) ↔ sandbox.BeginsRegex e
  opens : OpensComment (sandbox.parts e) ↔ sandbox.DividesByRegex e

variable {sandbox} {e : Expr}

/-- Code that begins with the tree itself begins with a regular expression only if the tree is
one. -/
theorem not_beginsRegex (hl : sandbox.leading e = none)
    (h : ∀ pattern flags raw, e ≠ .literal (.regex pattern flags) raw) :
    ¬ sandbox.BeginsRegex e := by
  rintro (_ | ⟨hr, -⟩)
  · exact h _ _ _ rfl
  · rw [hl] at hr
    cases hr

/-- Code that begins with the code of another tree begins as that does. -/
theorem beginsRegex_iff {receiver : Expr} (hl : sandbox.leading e = some receiver) :
    sandbox.BeginsRegex e ↔ sandbox.BeginsRegex receiver := by
  refine ⟨?_, .receiver hl⟩
  rintro (_ | ⟨hr, hb⟩)
  · cases hl
  · exact Option.some.inj (hl.symm.trans hr) ▸ hb

/-- A tree divides by a regular expression itself, or a tree in it that is emitted does. -/
theorem dividesByRegex_iff : sandbox.DividesByRegex e ↔
    (∃ left right, e = .binary .div left right ∧ sandbox.BeginsRegex right) ∨
      ∃ child ∈ sandbox.referring e e.children, sandbox.DividesByRegex child := by
  unfold DividesByRegex
  rw [emittedNodes_eq]
  simp only [List.mem_cons, List.mem_flatMap]
  constructor
  · rintro ⟨left, right, rfl | ⟨child, hc, hn⟩, hr⟩
    · exact .inl ⟨left, right, rfl, hr⟩
    · exact .inr ⟨child, hc, left, right, hn, hr⟩
  · rintro (⟨left, right, rfl, hr⟩ | ⟨child, hc, left, right, hn, hr⟩)
    · exact ⟨left, right, .inl rfl, hr⟩
    · exact ⟨left, right, .inr ⟨child, hc, hn⟩, hr⟩

/-- Only a division divides by a regular expression itself. -/
theorem dividesByRegex_iff_exists (h : ∀ left right, e ≠ .binary .div left right) :
    sandbox.DividesByRegex e ↔
      ∃ child ∈ sandbox.referring e e.children, sandbox.DividesByRegex child := by
  rw [dividesByRegex_iff]
  exact or_iff_right fun ⟨left, right, he, _⟩ => h left right he

/-- A node opens the comments that the trees in it open, and it divides by what these divide by. -/
theorem opensComment_iff (hdiv : ∀ left right, e ≠ .binary .div left right)
    (hopens : OpensComment (sandbox.parts e) ↔
      ∃ child ∈ sandbox.referring e e.children, OpensComment (sandbox.parts child))
    (h : ∀ child ∈ sandbox.referring e e.children,
      (OpensComment (sandbox.parts child) ↔ sandbox.DividesByRegex child)) :
    OpensComment (sandbox.parts e) ↔ sandbox.DividesByRegex e := by
  rw [hopens, dividesByRegex_iff_exists hdiv]
  exact exists_congr fun child => and_congr_right fun hc => h child hc

/-- What stands between brackets of its own begins with no regular expression. -/
theorem outlined_enclosed {opening closing : String} {inside : List Part}
    (hparts : sandbox.parts e = enclosed opening inside closing) (ho : opening ∈ quietMarks)
    (hc : closing ∈ quietMarks) (hl : sandbox.leading e = none)
    (hne : ∀ pattern flags raw, e ≠ .literal (.regex pattern flags) raw)
    (hopens : OpensComment inside ↔ sandbox.DividesByRegex e) : sandbox.Outlined e where
  closed := hparts ▸ closed_enclosed hc inside
  completes := by
    rw [hparts]
    exact iff_of_false (not_completesComment_enclosed ho inside) (not_beginsRegex hl hne)
  opens := by rw [hparts, opensComment_enclosed ho hc, hopens]

/-! ## Nodes between brackets -/

/-- The slots of an array stand apart by commas. -/
theorem outlined_array {slots : List (Option Expr)}
    (h : ∀ e, some e ∈ slots → sandbox.Outlined e) : sandbox.Outlined (.array slots) := by
  refine outlined_enclosed (by rw [parts]) (by decide) (by decide) rfl (by simp) ?_
  rw [opensComment_separated, dividesByRegex_iff_exists (by simp), slotParts_eq_map]
  simp only [List.mem_map, exists_exists_and_eq_and, referring, Expr.children, List.mem_filterMap,
    id_eq, exists_eq_right]
  constructor
  · rintro ⟨_ | e, hslot, hopens⟩
    · exact hopens.elim
    · exact ⟨e, hslot, (h e hslot).opens.1 hopens⟩
  · rintro ⟨e, hslot, hdivides⟩
    exact ⟨some e, hslot, (h e hslot).opens.2 hdivides⟩

/-- Brackets set the name of a member off from its receiver. -/
theorem outlined_computed {receiver name : Expr} (hr : sandbox.Outlined receiver)
    (hn : sandbox.Outlined name) : sandbox.Outlined (.member receiver name true) := by
  refine ⟨?_, ?_, ?_⟩
  · rw [parts]
    exact (closed_enclosed (by decide) _).behind _
  · rw [parts, hr.closed.completesComment_append, hr.completes]
    exact (beginsRegex_iff rfl).symm
  · rw [dividesByRegex_iff_exists (by simp), parts, opensComment_behind (by decide) (by decide),
      hr.opens, hn.opens]
    simp [referring, Expr.children]

/-- **A division opens a comment** when its divisor begins with a regular expression. -/
theorem outlined_binary (op : BinaryOperator) {left right : Expr} (hl : sandbox.Outlined left)
    (hr : sandbox.Outlined right) : sandbox.Outlined (.binary op left right) := by
  refine outlined_enclosed (by rw [parts]) (by decide) (by decide) rfl (by simp) ?_
  have hslash : (Part.operator (.binary op)).token.lexeme.isSlash = true ↔ op = .div := by
    cases op <;> decide
  have hoperator : OpensComment (.operator (.binary op) :: sandbox.parts right) ↔
      op = .div ∧ sandbox.BeginsRegex right ∨ sandbox.DividesByRegex right := by
    rw [OpensComment, hslash, hr.opens, ← hr.completes]
    refine or_congr_left (and_congr_right ?_)
    rintro rfl
    exact Iff.rfl
  rw [dividesByRegex_iff, hl.closed.opensComment_append, hoperator, hl.opens]
  simp only [referring, Expr.children, List.mem_cons, List.not_mem_nil, or_false,
    exists_eq_or_imp, exists_eq_left, Expr.binary.injEq]
  constructor
  · rintro (hl | ⟨rfl, hr⟩ | hr)
    · exact .inr (.inl hl)
    · exact .inl ⟨left, right, ⟨rfl, rfl, rfl⟩, hr⟩
    · exact .inr (.inr hr)
  · rintro (⟨_, _, ⟨rfl, rfl, rfl⟩, hr⟩ | hl | hr)
    · exact .inr (.inl ⟨rfl, hr⟩)
    · exact .inl hl
    · exact .inr (.inr hr)

/-- The marks of logical operators contain no slash. -/
theorem outlined_logical (op : LogicalOperator) {left right : Expr} (hl : sandbox.Outlined left)
    (hr : sandbox.Outlined right) : sandbox.Outlined (.logical op left right) := by
  refine outlined_enclosed (by rw [parts]) (by decide) (by decide) rfl (by simp) ?_
  have hslash : (Part.operator (.logical op)).token.lexeme.isSlash = false := by
    cases op <;> rfl
  rw [dividesByRegex_iff_exists (by simp), hl.closed.opensComment_append,
    opensComment_cons_of_not_slash hslash, hl.opens, hr.opens]
  simp [referring, Expr.children]

theorem outlined_unary (op : UnaryOperator) {argument : Expr} (h : sandbox.Outlined argument) :
    sandbox.Outlined (.unary op argument) := by
  refine outlined_enclosed (by rw [parts]) (by decide) (by decide) rfl (by simp) ?_
  have hquiet : (Part.mark op.symbol).Quiet := quiet_mark (by cases op <;> decide)
  rw [dividesByRegex_iff_exists (by simp), hquiet.opensComment_cons, h.opens]
  simp [referring, Expr.children]

theorem outlined_conditional {test consequent alternate : Expr} (ht : sandbox.Outlined test)
    (hc : sandbox.Outlined consequent) (ha : sandbox.Outlined alternate) :
    sandbox.Outlined (.conditional test consequent alternate) := by
  refine outlined_enclosed (by rw [parts]) (by decide) (by decide) rfl (by simp) ?_
  rw [dividesByRegex_iff_exists (by simp), (quiet_mark (by decide)).opensComment_append,
    (quiet_mark (by decide)).opensComment_append, ht.opens, hc.opens, ha.opens]
  simp [referring, Expr.children]

/-- **A call begins with a regular expression** only as a method that casts its receiver to nothing,
when the receiver does. -/
theorem beginsRegex_call {function : String} {definition : FunctionDef} {args : List Expr}
    (hd : sandbox.functions.lookup function = some definition)
    (h : ∀ e ∈ definition.emitted args, sandbox.Outlined e) :
    sandbox.BeginsRegex (.call (.identifier function) args) ↔
      ∃ m, definition = .method m ∧ m.cast = none ∧
        ∃ own ∈ (args.map sandbox.parts).head?, CompletesComment (textOf own) := by
  cases args with
  | nil => exact iff_of_false (not_beginsRegex rfl (by simp)) (by simp)
  | cons first rest =>
    have hfirst := h first (definition.mem_emitted_of_mem_head? rfl)
    by_cases hm : ∃ m, definition = .method m ∧ m.cast = none
    · obtain ⟨⟨name, cast, mode⟩, rfl, hcast⟩ := hm
      obtain rfl : cast = none := hcast
      have hl : sandbox.leading (.call (.identifier function) (first :: rest)) = some first := by
        simp [leading, pointed, hd]
      rw [beginsRegex_iff hl, ← hfirst.completes]
      simp
    · have hl : sandbox.leading (.call (.identifier function) (first :: rest)) = none := by
        simp only [leading, pointed, hd]
        split
        · next heq =>
          cases heq
          exact absurd ⟨_, rfl, rfl⟩ hm
        · rfl
      refine iff_of_false (not_beginsRegex hl (by simp)) ?_
      rintro ⟨m, hdef, hcast, -⟩
      exact hm ⟨m, hdef, hcast⟩

end Sandbox

/-- A receiver that is cast ends with a closing mark. -/
theorem Method.closed_receiverParts {m : Method} {own : List Part} (h : Closed own) :
    Closed (m.receiverParts own) := by
  unfold receiverParts
  cases m.cast with
  | none => exact h
  | some cast =>
    dsimp only
    split
    · exact closed_enclosed (by decide) _
    · exact (closed_enclosed (by decide) _).behind _

section

variable [Externals]

/-! ## Calls -/

/-- The function that is called is a path of names. -/
theorem IsCallee.wordy {target : String} (h : IsCallee target) : Wordy (callee target) := by
  unfold IsCallee at h
  unfold callee
  split at h
  · next hnew =>
    rw [if_pos hnew]
    have hquiet : Part.Quiet ⟨false, ⟨.keyword "new", "new"⟩, true⟩ :=
      ⟨rfl, by decide, not_completesComment_of_head (by rfl) (by decide)⟩
    exact h.wordy.cons hquiet
  · next hnew =>
    rw [if_neg hnew]
    exact h.wordy

namespace Method

variable {m : Method} {own : List Part}

/-- Casting a receiver opens no comment. -/
theorem opensComment_receiverParts (hm : (FunctionDef.method m).Plain) :
    OpensComment (m.receiverParts own) ↔ OpensComment own := by
  unfold receiverParts
  cases hcast : m.cast with
  | none => exact Iff.rfl
  | some cast =>
    have hcall : OpensComment (callee cast ++ enclosed "(" own ")") ↔ OpensComment own := by
      rw [opensComment_behind (by decide) (by decide)]
      exact or_iff_right (hm.2 cast hcast).wordy.opens
    dsimp only
    split
    · rw [opensComment_enclosed (by decide) (by decide), hcall]
    · exact hcall

/-- A cast begins with a name, so a slash in front of it opens no comment. -/
theorem completesComment_receiverParts (hm : (FunctionDef.method m).Plain) :
    CompletesComment (textOf (m.receiverParts own)) ↔
      m.cast = none ∧ CompletesComment (textOf own) := by
  unfold receiverParts
  cases hcast : m.cast with
  | none => simp
  | some cast =>
    have hwordy := (hm.2 cast hcast).wordy
    dsimp only
    split
    · exact iff_of_false (not_completesComment_enclosed (by decide) _) (by simp)
    · rw [hwordy.closed.completesComment_append]
      simp [hwordy.completes]

/-- A method opens the comments of the arguments that it emits. -/
theorem opensComment_parts (hm : (FunctionDef.method m).Plain) {rest : List (List Part)} :
    OpensComment (m.parts (own :: rest)) ↔
      ∃ arg ∈ (FunctionDef.method m).emitted (own :: rest), OpensComment arg := by
  have haccess : OpensComment (m.receiverParts own ++ [.mark ".", .name m.name]) ↔
      OpensComment own := by
    rw [opensComment_access hm.1, opensComment_receiverParts hm]
  unfold parts
  rw [FunctionDef.emitted_method]
  cases m.mode with
  | property => simpa using haccess
  | noArgs =>
    simp only
    rw [opensComment_behind (by decide) (by decide), haccess]
    simp [OpensComment]
  | forward =>
    simp only
    rw [opensComment_behind (by decide) (by decide), haccess, opensComment_separated]
    simp

/-- What begins a method call is its receiver. -/
theorem completesComment_parts (hm : (FunctionDef.method m).Plain) (h : Closed own)
    (rest : List (List Part)) :
    CompletesComment (textOf (m.parts (own :: rest))) ↔
      m.cast = none ∧ CompletesComment (textOf own) := by
  have hreceiver := (closed_receiverParts (m := m) h)
  unfold parts
  cases m.mode with
  | property =>
    simp only
    rw [hreceiver.completesComment_append, completesComment_receiverParts hm]
  | noArgs | forward =>
    simp only
    rw [List.append_assoc, hreceiver.completesComment_append, completesComment_receiverParts hm]

end Method

namespace Sandbox

variable {definition : FunctionDef} {args : List (List Part)}

theorem wordy_math : Wordy (path "Math.max") ∧ Wordy (path "Math.min") := by
  have hmax : IsPath "Math.max" := isPath_of_plain (by decide)
  have hmin : IsPath "Math.min" := isPath_of_plain (by decide)
  exact ⟨hmax.wordy, hmin.wordy⟩

/-- Clamping emits each of its arguments once, apart from the others. -/
theorem opensComment_clamp {value low high : List Part} :
    OpensComment (callParts [value, low, high] .clamp) ↔
      OpensComment value ∨ OpensComment low ∨ OpensComment high := by
  have hcomma : Part.Quiet ⟨false, ⟨.punctuator ",", ","⟩, true⟩ :=
    ⟨rfl, by decide, not_completesComment_of_head (by rfl) (by decide)⟩
  obtain ⟨hmax, hmin⟩ := wordy_math
  rw [callParts, opensComment_behind (by decide) (by decide), hcomma.opensComment_append,
    opensComment_behind (by decide) (by decide), opensComment_separated]
  simp only [hmax.opens, hmin.opens, List.mem_cons, List.not_mem_nil, or_false, exists_eq_or_imp,
    exists_eq_left, false_or]
  tauto

/-- **A call opens the comments that its arguments open.** -/
theorem opensComment_callParts (hp : definition.Plain)
    (ha : definition.accepts args.length = true) :
    OpensComment (callParts args definition) ↔
      ∃ arg ∈ definition.emitted args, OpensComment arg := by
  cases hp.call ha with
  | rename htarget args =>
    rw [callParts, opensComment_behind (by decide) (by decide), opensComment_separated]
    exact or_iff_right htarget.wordy.opens
  | method hm own rest => exact Method.opensComment_parts hm
  | clamp value low high =>
    rw [opensComment_clamp]
    simp [FunctionDef.emitted]
  | reverse first rest =>
    have hslice : IsName "slice" := isName_of_plain (by decide)
    have hreverse : IsName "reverse" := isName_of_plain (by decide)
    rw [callParts, opensComment_behind (by decide) (by decide), opensComment_access hreverse,
      opensComment_behind (by decide) (by decide), opensComment_access hslice,
      opensComment_enclosed (by decide) (by decide)]
    simp [FunctionDef.emitted_reverse, OpensComment]
  | ifThenElse test consequent alternate =>
    rw [callParts, opensComment_enclosed (by decide) (by decide),
      (quiet_mark (by decide)).opensComment_append, (quiet_mark (by decide)).opensComment_append]
    simp [FunctionDef.emitted]

/-- **A call begins as its receiver does**, when its function is a method that casts it to nothing,
and otherwise with no slash. -/
theorem completesComment_callParts (hp : definition.Plain)
    (ha : definition.accepts args.length = true) (h : ∀ arg ∈ args.head?, Closed arg) :
    CompletesComment (textOf (callParts args definition)) ↔
      ∃ m, definition = .method m ∧ m.cast = none ∧
        ∃ own ∈ args.head?, CompletesComment (textOf own) := by
  cases hp.call ha with
  | rename htarget args =>
    rw [callParts, htarget.wordy.closed.completesComment_append]
    exact iff_of_false htarget.wordy.completes (by simp)
  | method hm own rest =>
    rw [callParts, Method.completesComment_parts hm (h own rfl)]
    simp
  | clamp value low high =>
    obtain ⟨hmax, -⟩ := wordy_math
    rw [callParts, hmax.closed.completesComment_append]
    exact iff_of_false hmax.completes (by simp)
  | reverse first rest =>
    refine iff_of_false ?_ (by simp)
    exact (quiet_mark (by decide)).completesComment
  | ifThenElse test consequent alternate =>
    exact iff_of_false (not_completesComment_enclosed (by decide) _) (by simp)

end Sandbox

/-! ## Trees -/

namespace Sandbox

variable {sandbox : Sandbox} {e : Expr}

/-- A literal is no slash and not empty. -/
theorem quiet_literal {value : Literal} {raw : String} (h : value.Spelled raw) :
    (Part.literal value raw).token.lexeme.isSlash = false ∧ (Part.literal value raw).text ≠ "" := by
  refine ⟨by cases value <;> rfl, ?_⟩
  rw [Part.text_literal]
  intro hnone
  cases value with
  | number _ | string _ | boolean _ | null =>
    obtain rfl : raw = "" := hnone
    obtain ⟨x, xs, hx, -⟩ := h.begins
    cases hx
  | regex pattern flags =>
    obtain ⟨later, hlater⟩ := Literal.exists_slash_of_regex h
    rw [hnone] at hlater
    cases hlater

/-- Only a regular expression among the literals begins with a slash. -/
theorem outlined_literal {value : Literal} {raw : String} (h : value.Spelled raw) :
    sandbox.Outlined (.literal value raw) := by
  obtain ⟨hslash, htext⟩ := quiet_literal h
  refine ⟨⟨[], _, by rw [parts]; rfl, hslash, htext⟩, ?_, ?_⟩
  · rw [parts, textOf_cons, Part.text_literal, textOf_nil, String.append_empty]
    cases value with
    | number _ | string _ | boolean _ | null =>
      exact iff_of_false (Scan.not_completesComment_of_lexeme h (by simp))
        (not_beginsRegex rfl (by simp))
    | regex pattern flags =>
      obtain ⟨later, hlater⟩ := Literal.exists_slash_of_regex h
      refine iff_of_true ⟨'/', ?_, .inl rfl⟩ .literal
      rw [hlater]
      rfl
  · refine opensComment_iff (by simp) ?_ (by simp [referring, Expr.children])
    rw [parts, opensComment_cons_of_not_slash hslash]
    simp [OpensComment, referring, Expr.children]

/-- A free name is emitted as a constant or as a member of the global variable, by names and
brackets. -/
theorem wordy_referenceParts (hs : sandbox.Stock) {object : String}
    (hg : sandbox.globalVar = .named object) (ho : IsPath object) {id : String} (h : IsName id) :
    Wordy (sandbox.referenceParts id) := by
  unfold referenceParts
  split
  · next code hc => exact (hs.isPath hc).wordy
  · split
    · exact wordy_name h
    · rw [hg]
      have hwordy := ho.wordy
      refine ⟨(closed_enclosed (by decide) _).behind _, ?_, ?_⟩
      · rw [hwordy.closed.completesComment_append]
        exact hwordy.completes
      · rw [opensComment_behind (by decide) (by decide)]
        rintro (hopens | hopens)
        · exact hwordy.opens hopens
        · exact not_opensComment_of_forall (by simp [Part.quoted, Lexeme.isSlash]) hopens

theorem outlined_identifier (hs : sandbox.Stock) {object : String}
    (hg : sandbox.globalVar = .named object) (ho : IsPath object) {id : String} (h : IsName id) :
    sandbox.Outlined (.identifier id) := by
  have hwordy := wordy_referenceParts hs hg ho h
  refine ⟨?_, ?_, opensComment_iff (by simp) ?_ (by simp [referring, Expr.children])⟩ <;> rw [parts]
  · exact hwordy.closed
  · exact iff_of_false hwordy.completes (not_beginsRegex rfl (by simp))
  · exact iff_of_false hwordy.opens (by simp [referring, Expr.children])

/-- A key is one token, and no slash. -/
theorem wordless_keyParts {key : Expr} (h : key.IsKey) : ¬ OpensComment (keyParts key) := by
  cases h with
  | name h => exact (wordy_name h).opens
  | string h | number h =>
    rw [keyParts, opensComment_cons_of_not_slash (quiet_literal h).1]
    exact id

/-- A property opens the comments of its value. -/
theorem opensComment_property {key value : Expr} (hk : key.IsKey) :
    OpensComment (sandbox.parts (.property key value)) ↔ OpensComment (sandbox.parts value) := by
  rw [parts, (quiet_mark (by decide)).opensComment_append]
  exact or_iff_right (wordless_keyParts hk)

/-- **A call opens the comments of the arguments that are emitted.** -/
theorem outlined_call {function : String} {definition : FunctionDef} {args : List Expr}
    (hp : definition.Plain) (hd : sandbox.functions.lookup function = some definition)
    (ha : definition.accepts args.length = true)
    (h : ∀ e ∈ definition.emitted args, sandbox.Outlined e) :
    sandbox.Outlined (.call (.identifier function) args) := by
  have hparts : sandbox.parts (.call (.identifier function) args)
      = callParts (args.map sandbox.parts) definition := by
    rw [parts, hd, partsOfAll_eq_map]
  have haccepts : definition.accepts (args.map sandbox.parts).length = true := by
    rwa [List.length_map]
  refine ⟨?_, ?_, opensComment_iff (by simp) ?_ ?_⟩
  · rw [hparts]
    exact (ended_callParts hp haccepts).closed
  · rw [hparts, completesComment_callParts hp haccepts ?_]
    · exact (beginsRegex_call hd h).symm
    · intro arg harg
      rw [List.head?_map, Option.mem_map] at harg
      obtain ⟨first, hfirst, rfl⟩ := harg
      exact (h first (definition.mem_emitted_of_mem_head? hfirst)).closed
  · rw [hparts, opensComment_callParts hp haccepts, FunctionDef.emitted_map, referring_call hd]
    simp
  · rw [referring_call hd]
    exact fun e he => (h e he).opens

/-- The properties of an object stand apart by commas. -/
theorem outlined_object {entries : List (Expr × Expr)} (hkey : ∀ entry ∈ entries, entry.1.IsKey)
    (h : ∀ entry ∈ entries, sandbox.Outlined entry.2) :
    sandbox.Outlined (.object (properties entries)) := by
  refine outlined_enclosed (by rw [parts]) (by decide) (by decide) rfl (by simp) ?_
  rw [dividesByRegex_iff_exists (by simp), opensComment_separated, partsOfAll_eq_map]
  simp only [properties, List.mem_map, exists_exists_and_eq_and, referring, Expr.children]
  refine exists_congr fun entry => and_congr_right fun hentry => ?_
  rw [dividesByRegex_iff_exists (by simp), opensComment_property (hkey entry hentry),
    (h entry hentry).opens]
  simp [referring, Expr.children]

theorem outlined_named {receiver : Expr} {name : String} (hn : IsName name)
    (h : sandbox.Outlined receiver) :
    sandbox.Outlined (.member receiver (.identifier name) false) := by
  refine ⟨(ended_access hn _).closed, ?_, ?_⟩
  · rw [parts, h.closed.completesComment_append, h.completes]
    exact (beginsRegex_iff rfl).symm
  · rw [dividesByRegex_iff_exists (by simp), parts, keyParts, opensComment_access hn, h.opens]
    simp [referring, Expr.children]

/-- **How the parts of a tree begin and end, and when they open a comment.** -/
theorem outlined (hs : sandbox.Stock) {object : String} (hg : sandbox.globalVar = .named object)
    (ho : IsPath object) (hw : e.WellFormed) (hk : sandbox.Callable e) : sandbox.Outlined e := by
  have hchild : ∀ {e child : Expr}, sandbox.Callable e →
      child ∈ sandbox.referring e e.children → sandbox.Callable child :=
    fun h hc => (callable_iff.1 h).2 _ hc
  induction hw with
  | literal hspelled => exact outlined_literal hspelled
  | identifier href => exact outlined_identifier hs hg ho href.1
  | array _ ih =>
    exact outlined_array fun e he => ih e he (hchild hk (List.mem_filterMap.2 ⟨some e, he, rfl⟩))
  | object hkey _ _ ih =>
    refine outlined_object hkey fun entry hentry => ih entry hentry ?_
    exact hchild (hchild hk (List.mem_map_of_mem hentry)) List.mem_cons_self
  | @call callee args _ _ _ iha =>
    obtain ⟨function, definition, rfl, hd, haccepts⟩ := (callable_iff.1 hk).1
    refine outlined_call (hs.plain hd) hd haccepts fun e he => ?_
    exact iha e ((definition.emitted_sublist args).mem he) (hchild hk (referring_call hd ▸ he))
  | named _ hn ih => exact outlined_named hn (ih (hchild hk List.mem_cons_self))
  | computed _ _ ihr ihn =>
    exact outlined_computed (ihr (hchild hk List.mem_cons_self))
      (ihn (hchild hk (by simp [referring, Expr.children])))
  | @binary op _ _ _ _ ihl ihr =>
    exact outlined_binary op (ihl (hchild hk (by simp [referring, Expr.children])))
      (ihr (hchild hk (by simp [referring, Expr.children])))
  | @logical op _ _ _ _ ihl ihr =>
    exact outlined_logical op (ihl (hchild hk (by simp [referring, Expr.children])))
      (ihr (hchild hk (by simp [referring, Expr.children])))
  | @unary op _ _ ih =>
    exact outlined_unary op (ih (hchild hk (by simp [referring, Expr.children])))
  | conditional _ _ _ iht ihc iha =>
    exact outlined_conditional (iht (hchild hk (by simp [referring, Expr.children])))
      (ihc (hchild hk (by simp [referring, Expr.children])))
      (iha (hchild hk (by simp [referring, Expr.children])))

section Output

variable {object : String} {out : Output} (hs : sandbox.Stock)
  (hg : sandbox.globalVar = .named object) (ho : IsPath object) (hw : e.WellFormed)
  (hc : sandbox.compile e = .ok out)

include hs hg ho hw hc

/-- The parts of a tree open a comment just if something in it is divided by a regular
expression. -/
theorem opensComment_parts_iff : OpensComment (sandbox.parts e) ↔ sandbox.DividesByRegex e := by
  obtain ⟨-, expand, session, hemit, -, -⟩ := exists_of_compile (hs.standard.expands e) hc
  exact (outlined hs hg ho hw (callable_of_emits hs.standard ⟨_, _, hemit⟩)).opens

/-- **The code of a tree opens a comment just if something in the tree is divided by a regular
expression.** -/
theorem opensCommentIn_code_iff (hempty : Regex.AcceptsEmptyGroup) (ha : sandbox.Apart e) :
    OpensCommentIn out.code ↔ sandbox.DividesByRegex e := by
  have hcomprises := comprises_parts hempty hs hg ho hw ha hc
  rw [code_eq_textOf_parts hs.standard hg hw hc] at hcomprises ⊢
  rw [opensCommentIn_iff hcomprises, opensComment_parts_iff hs hg ho hw hc]

end Output

/-- **Where code opens a comment.**  The code of a tree that was read is the text of its parts, and
these open a comment just if something in the tree is divided by what begins with a regular
expression.  Where no point comes behind digits the code is cut into the tokens of the parts, so
that scanning it finds a comment just in that case; the engines of regular expressions have to
accept an empty group, which stands in the code for an empty pattern. -/
theorem compile_comment (hempty : Regex.AcceptsEmptyGroup) {source object : String} {out : Output}
    (h : Expr.parse source = .ok e) (hs : sandbox.Stock) (hg : sandbox.globalVar = .named object)
    (ho : IsPath object) (hc : sandbox.compile e = .ok out) :
    out.code = textOf (sandbox.parts e) ∧
      (OpensComment (sandbox.parts e) ↔ sandbox.DividesByRegex e) ∧
      (sandbox.Apart e → Comprises out.code (tokensOf (sandbox.parts e)) ∧
        (OpensCommentIn out.code ↔ sandbox.DividesByRegex e)) := by
  have hw := (Grammar.derives_of_parse h).1.wellFormed
  exact ⟨code_eq_textOf_parts hs.standard hg hw hc, opensComment_parts_iff hs hg ho hw hc,
    fun ha => ⟨comprises_parts hempty hs hg ho hw ha hc,
      opensCommentIn_code_iff hs hg ho hw hc hempty ha⟩⟩

end Sandbox

end

namespace Sandbox

theorem parse_quotient : Expr.parse "(a//b/)" =
    .ok (.binary .div (.identifier "a") (.literal (.regex "b" "") "/b/")) := by
  have ha : Writes "a" (.identifier "a") := writes_identifier (isReference_of_plain (by decide))
  have hregex : Scan.regexLiteral "/b/".toList = .ok (("b", ""), []) := by cbv
  have hwrites := writes_operation (.binary .div) ha (writes_regex hregex)
  exact hwrites.parse_eq (by decide)

theorem compile_quotient :
    (ofOptions {}).compile (.binary .div (.identifier "a") (.literal (.regex "b" "") "/b/"))
      = .ok ⟨"(global[\"a\"]//b/)", ["a"], []⟩ :=
  compile_eq_of_outcome? (by decide +kernel)

theorem dividesByRegex_quotient : (ofOptions {}).DividesByRegex
    (.binary .div (.identifier "a") (.literal (.regex "b" "") "/b/")) :=
  ⟨_, _, List.mem_cons_self, .literal⟩

/-- No digits stand in front of a point in this code. -/
theorem apart_quotient : (ofOptions {}).Apart
    (.binary .div (.identifier "a") (.literal (.regex "b" "") "/b/")) := by
  intro node hn
  have hn : node ∈ [.binary .div (.identifier "a") (.literal (.regex "b" "") "/b/"),
    .identifier "a", .literal (.regex "b" "") "/b/"] := hn
  simp only [List.mem_cons, List.not_mem_nil, or_false] at hn
  rcases hn with rfl | rfl | rfl <;> exact nofun

/-- A name is divided by a regular expression, and its code opens a comment. -/
theorem compile_comment_quotient :
    let e := Expr.binary .div (.identifier "a") (.literal (.regex "b" "") "/b/")
    let sandbox : Sandbox := .ofOptions {}
    Regex.AcceptsEmptyGroup ∧ Expr.parse "(a//b/)" = .ok e ∧ sandbox.Stock ∧
      sandbox.globalVar = .named "global" ∧ IsPath "global" ∧
      sandbox.compile e = .ok ⟨"(global[\"a\"]//b/)", ["a"], []⟩ ∧ sandbox.DividesByRegex e ∧
      OpensComment (sandbox.parts e) ∧ sandbox.Apart e ∧ OpensCommentIn "(global[\"a\"]//b/)" := by
  intro e sandbox
  have hpath : IsPath "global" := isPath_of_plain (by decide)
  obtain ⟨-, hopens, hscan⟩ :=
    compile_comment acceptsEmptyGroup parse_quotient stock_ofOptions rfl hpath compile_quotient
  exact ⟨acceptsEmptyGroup, parse_quotient, stock_ofOptions, rfl, hpath, compile_quotient,
    dividesByRegex_quotient, hopens.2 dividesByRegex_quotient, apart_quotient,
    (hscan apart_quotient).2.2 dividesByRegex_quotient⟩

/-- **Code may open a comment**: a slash that divides may have a slash directly behind it. -/
theorem not_forall_no_comment :
    ¬ ∀ (sandbox : Sandbox) (object source : String) (e : Expr) (out : Output),
      sandbox.functions = defaultFunctions → sandbox.constants = defaultConstants →
        sandbox.globalVar = .named object → Expr.parse source = .ok e →
          sandbox.compile e = .ok out → ¬ OpensCommentIn out.code := by
  intro hall
  refine hall (.ofOptions {}) "global" _ _ _ (List.nil_append _) (List.nil_append _) rfl
    parse_quotient compile_quotient ?_
  have hw := (Grammar.derives_of_parse parse_quotient).1.wellFormed
  exact (opensCommentIn_code_iff stock_ofOptions rfl (isPath_of_plain (by decide)) hw
    compile_quotient acceptsEmptyGroup apart_quotient).2 dividesByRegex_quotient

end Sandbox

end ChartScript
