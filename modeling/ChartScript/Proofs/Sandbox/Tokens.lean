import ChartScript.Proofs.Grammar.Alone
import ChartScript.Proofs.Sandbox.Blacklist
import ChartScript.Proofs.Sandbox.Parts

/-!
# Proofs/Sandbox/Tokens — code is cut into the tokens it was put together from

The constants and the functions that are there from the start are paths, so their parts stand where
an operand may.  Emission puts a point behind a receiver as it is, and the only receiver to which
the point would belong is a number in digits.  Where there is none (`Sandbox.Apart`), the parts of a
tree stand, and its code is cut into the tokens of its parts (`comprises_parts`).
-/

namespace ChartScript

open Text Grammar

/-! ## Texts that are not of digits -/

/-- A text that begins with one not of digits is not of digits. -/
theorem all_isDigit_append_eq_false {a b : String} (h : a.toList.all isDigit = false) :
    (a ++ b).toList.all isDigit = false := by
  rw [String.toList_append, List.all_append, h, Bool.false_and]

/-- What stands behind nothing but `new` or a point is not of digits. -/
theorem all_isDigit_textOf_enclosed (opening closing : String) (parts inside : List Part)
    (ho : opening ∈ ["(", "[", "\x7b"]) :
    (textOf (parts ++ enclosed opening inside closing)).toList.all isDigit = false := by
  have hfacts : ∀ m ∈ ["(", "[", "\x7b"], m.toList.all isDigit = false := by decide
  have hopen := hfacts opening ho
  simp only [textOf_append, textOf_enclosed, String.toList_append, List.all_append, hopen,
    Bool.false_and, Bool.and_false]

/-- A number in digits: a point behind it is part of it. -/
def Expr.isDigits : Expr → Bool
  | .literal (.number _) raw => raw.toList.all isDigit
  | _ => false

namespace Sandbox

/-- **No constant and no function but those that are there from the start.** -/
structure Stock (sandbox : Sandbox) : Prop where
  constants : ∀ entry ∈ sandbox.constants, entry ∈ defaultConstants
  functions : ∀ entry ∈ sandbox.functions, entry ∈ defaultFunctions

/-- The default sandbox holds the default tables only. -/
theorem stock_ofOptions : (ofOptions {}).Stock :=
  ⟨fun _ he => by simpa [ofOptions] using he, fun _ he => by simpa [ofOptions] using he⟩

variable (sandbox : Sandbox)

/-- The tree behind whose code the node puts a point: the receiver of a member with a name, or of a
method that casts it to nothing. -/
def pointed : Expr → Option Expr
  | .member receiver _ false => some receiver
  | .call (.identifier function) (receiver :: _) =>
    match sandbox.functions.lookup function with
    | some (.method ⟨_, none, _⟩) => some receiver
    | _ => none
  | _ => none

/-- **No point comes behind digits** in the code of the tree. -/
def Apart (e : Expr) : Prop :=
  ∀ node ∈ sandbox.emittedNodes e, ∀ receiver ∈ sandbox.pointed node, receiver.isDigits = false

variable {sandbox} {e : Expr}

/-- What is asked of every node that is emitted is asked of the tree and of those below it. -/
theorem forall_emittedNodes_iff {P : Expr → Prop} :
    (∀ node ∈ sandbox.emittedNodes e, P node) ↔
      P e ∧ ∀ child ∈ sandbox.referring e e.children,
        ∀ node ∈ sandbox.emittedNodes child, P node := by
  rw [emittedNodes_eq, List.forall_mem_cons]
  simp only [List.mem_flatMap, forall_exists_index, and_imp]
  exact and_congr_right fun _ => ⟨fun h child hc node hn => h node child hc hn,
    fun h node child hc hn => h child hc node hn⟩

/-- The functions of a stock table ask for no trees. -/
theorem Stock.standard (h : sandbox.Stock) : sandbox.Standard :=
  fun name expansion hm => custom_notMem_defaultFunctions name expansion (h.functions _ hm)

end Sandbox

variable [Externals]

/-! ## The tables that are there from the start -/

/-- A path, or a path behind `new`. -/
def IsCallee (target : String) : Prop :=
  if "new ".toList.isPrefixOf target.toList then IsPath (String.ofList (target.toList.drop 4))
  else IsPath target

/-- What may be called in characters among the first 128. -/
def isPlainCallee (target : String) : Bool :=
  if "new ".toList.isPrefixOf target.toList then isPlainPath (String.ofList (target.toList.drop 4))
  else isPlainPath target

/-- Whether a text is a callee can be computed where it is of the first 128 characters. -/
theorem isCallee_of_plain {target : String} (h : isPlainCallee target = true) :
    IsCallee target := by
  unfold isPlainCallee at h
  unfold IsCallee
  split at h
  · next hnew => exact if_pos hnew ▸ isPath_of_plain h
  · next hnew => exact if_neg hnew ▸ isPath_of_plain h

/-- What a call of the function puts into the code is made of paths and names. -/
def FunctionDef.Plain : FunctionDef → Prop
  | .rename target => IsCallee target
  | .method m => IsName m.name ∧ ∀ cast ∈ m.cast, IsCallee cast
  | .custom _ => False
  | _ => True

/-- **The calls of functions whose code is plain**, with as many arguments as they accept. -/
inductive PlainCall {α : Type} : FunctionDef → List α → Prop where
  | rename {target : String} (h : IsCallee target) (args : List α) : PlainCall (.rename target) args
  | method {m : Method} (h : (FunctionDef.method m).Plain) (own : α) (rest : List α) :
      PlainCall (.method m) (own :: rest)
  | clamp (value low high : α) : PlainCall .clamp [value, low, high]
  | reverse (first : α) (rest : List α) : PlainCall .reverse (first :: rest)
  | ifThenElse (test consequent alternate : α) :
      PlainCall .ifThenElse [test, consequent, alternate]

/-- **A call that a plain function accepts** is one of five. -/
theorem FunctionDef.Plain.call {α : Type} {definition : FunctionDef} (hp : definition.Plain)
    {args : List α} (ha : definition.accepts args.length = true) : PlainCall definition args := by
  cases definition with
  | rename target => exact .rename hp args
  | method m =>
    obtain ⟨own, rest, rfl⟩ := List.exists_cons_of_length_pos (of_decide_eq_true ha)
    exact .method hp own rest
  | clamp =>
    obtain ⟨value, low, high, rfl⟩ := List.length_eq_three.1 (beq_iff_eq.1 ha)
    exact .clamp value low high
  | reverse =>
    obtain ⟨first, rest, rfl⟩ := List.exists_cons_of_length_pos (of_decide_eq_true ha)
    exact .reverse first rest
  | ifThenElse =>
    obtain ⟨test, consequent, alternate, rfl⟩ := List.length_eq_three.1 (beq_iff_eq.1 ha)
    exact .ifThenElse test consequent alternate
  | custom _ => exact hp.elim

namespace Sandbox

/-- Every constant is a path. -/
theorem isPath_defaultConstants : ∀ entry ∈ defaultConstants, IsPath entry.2 := by
  have hplain : defaultConstants.all (isPlainPath ·.2) = true := by decide +kernel
  exact fun entry he => isPath_of_plain (List.all_eq_true.1 hplain entry he)

/-- **The code of every function is made of paths and names.** -/
theorem plain_defaultFunctions : ∀ entry ∈ defaultFunctions, entry.2.Plain := by
  have hrenames : renames.all (isPlainCallee ·.2) = true := by decide +kernel
  have hdates : dateMethods.all (isPlainName ·.2) = true := by decide +kernel
  have hmethods : methods.all (fun entry =>
      isPlainName entry.2.name && entry.2.cast.all isPlainCallee) = true := by decide +kernel
  intro entry he
  simp only [defaultFunctions, List.mem_append, List.mem_map] at he
  rcases he with ((⟨e, hm, rfl⟩ | ⟨e, hm, rfl⟩) | ⟨e, hm, rfl⟩) | he
  · exact isCallee_of_plain (List.all_eq_true.1 hrenames e hm)
  · refine ⟨isName_of_plain (List.all_eq_true.1 hdates e hm), fun cast hc => ?_⟩
    exact Option.some.inj hc ▸ isCallee_of_plain (by decide)
  · have hplain := List.all_eq_true.1 hmethods e hm
    rw [Bool.and_eq_true] at hplain
    obtain ⟨hname, hcast⟩ := hplain
    refine ⟨isName_of_plain hname, fun cast hc => isCallee_of_plain ?_⟩
    rw [Option.mem_def.1 hc] at hcast
    exact hcast
  · simp only [List.mem_cons, List.not_mem_nil, or_false] at he
    rcases he with rfl | rfl | rfl <;> trivial

variable {sandbox : Sandbox}

/-- A constant is a path. -/
theorem Stock.isPath (h : sandbox.Stock) {id code : String}
    (hc : sandbox.constants.lookup id = some code) : IsPath code := by
  obtain ⟨before, later, hsplit, -⟩ := List.lookup_eq_some_iff.1 hc
  exact isPath_defaultConstants (id, code) (h.constants (id, code) (hsplit ▸ by simp))

/-- Every function of the table is plain. -/
theorem Stock.plain (h : sandbox.Stock) {function : String} {definition : FunctionDef}
    (hd : sandbox.functions.lookup function = some definition) : definition.Plain := by
  obtain ⟨before, later, hsplit, -⟩ := List.lookup_eq_some_iff.1 hd
  exact plain_defaultFunctions (function, definition)
    (h.functions (function, definition) (hsplit ▸ by simp))

end Sandbox

/-! ## Calls -/

/-- What stands, and is not of digits, stands behind `new`. -/
theorem stands_new {parts : List Part} (h : Stands parts)
    (hd : (textOf parts).toList.all isDigit = false) :
    Stands (⟨false, ⟨.keyword "new", "new"⟩, true⟩ :: parts) := by
  have hword := @lays_name .operand _ "new" false true (isName_of_plain (by decide))
  have hafter : Expectation.operand.after (Lexeme.ofName "new") = .operand := by decide
  rw [hafter] at hword
  have hlays := hword.cons h.lays fun rest _ =>
    Scan.endsName_cons.2 (isIdentifierPart_eq_false_of_isLayout (by decide))
  refine ⟨⟨'n', "ew ".toList ++ (textOf parts).toList, ?_, by decide⟩,
    hlays.imp fun rest hr => ⟨hr.1, fun _ => hd⟩⟩
  rw [textOf_cons, String.toList_append]
  rfl

/-- **What is called stands**, and it is not of digits. -/
theorem IsCallee.stands {target : String} (h : IsCallee target) :
    Stands (callee target) ∧ target.toList.all isDigit = false := by
  unfold IsCallee at h
  unfold callee
  split at h
  · next hnew =>
    rw [if_pos hnew]
    obtain ⟨hstands, hdigits⟩ := h.stands
    refine ⟨stands_new hstands (textOf_path _ ▸ hdigits), ?_⟩
    obtain ⟨later, hlater⟩ := List.isPrefixOf_iff_prefix.1 hnew
    exact all_isDigit_eq_false (hlater ▸ List.mem_cons_self) (by decide : isDigit 'n' = false)
  · next hnew =>
    rw [if_neg hnew]
    exact h.stands

/-- A call of what is called stands. -/
theorem IsCallee.stands_call {target : String} (h : IsCallee target) {inside : List Part}
    (hi : Lays .operand .operator (inside ++ [.mark ")"]) fun _ => True) :
    Stands (callee target ++ enclosed "(" inside ")") := h.stands.1.behind (by decide) hi

namespace Method

variable {m : Method} {own : List Part}

/-- The receiver of a method stands, and a point may come behind it. -/
theorem stands_receiverParts (hm : (FunctionDef.method m).Plain) (h : Stands own)
    (hd : m.cast = none → (textOf own).toList.all isDigit = false) :
    Stands (m.receiverParts own) ∧ (textOf (m.receiverParts own)).toList.all isDigit = false := by
  unfold receiverParts
  cases hcast : m.cast with
  | none => exact ⟨h, hd hcast⟩
  | some cast =>
    have hcall := (hm.2 cast hcast).stands_call (h.listed.close (by decide))
    dsimp only
    split
    · exact ⟨stands_enclosed (by decide) (hcall.listed.close (by decide)),
        all_isDigit_textOf_enclosed _ _ [] _ (by decide)⟩
    · exact ⟨hcall, all_isDigit_textOf_enclosed _ _ _ _ (by decide)⟩

/-- **A method call stands** when its arguments do and a point may come behind the first. -/
theorem stands_parts (hm : (FunctionDef.method m).Plain) {args : List (List Part)}
    (hown : Stands own) (hd : m.cast = none → (textOf own).toList.all isDigit = false)
    (hargs : m.mode = .forward → ∀ arg ∈ args, Stands arg) :
    Stands (m.parts (own :: args)) ∧
      (textOf (m.parts (own :: args))).toList.all isDigit = false := by
  obtain ⟨hreceiver, hdigits⟩ := stands_receiverParts hm hown hd
  have haccess := hreceiver.access hdigits hm.1
  unfold parts
  cases hmode : m.mode with
  | property =>
    refine ⟨haccess, ?_⟩
    rw [textOf_append]
    exact all_isDigit_append_eq_false hdigits
  | noArgs =>
    exact ⟨haccess.behind (by decide) (listed_nil.close (by decide)),
      all_isDigit_textOf_enclosed _ _ _ _ (by decide)⟩
  | forward =>
    refine ⟨haccess.behind (by decide) (lays_separated (fun arg ha => ?_) (by decide)),
      all_isDigit_textOf_enclosed _ _ _ _ (by decide)⟩
    exact (hargs hmode arg ha).listed

/-- A method call ends with a name or a closing mark. -/
theorem ended_parts (hm : (FunctionDef.method m).Plain) (rest : List (List Part)) :
    Ended (m.parts (own :: rest)) := by
  unfold parts
  cases m.mode with
  | property => exact ended_access hm.1 _
  | noArgs | forward => exact (ended_enclosed (by decide) _ _).behind _

end Method

namespace Sandbox

/-- Clamping is a call within a call. -/
theorem stands_clamp {value low high : List Part} (hv : Stands value) (hl : Stands low)
    (hh : Stands high) : Stands (callParts [value, low, high] .clamp) := by
  have hmax : IsPath "Math.max" := isPath_of_plain (by decide)
  have hmin : IsPath "Math.min" := isPath_of_plain (by decide)
  have hinner : Stands (path "Math.min" ++ enclosed "(" (separated [high, value]) ")") := by
    refine hmin.stands.1.behind (by decide) (lays_separated (fun arg ha => ?_) (by decide))
    simp only [List.mem_cons, List.not_mem_nil, or_false] at ha
    rcases ha with rfl | rfl
    · exact hh.listed
    · exact hv.listed
  refine hmax.stands.1.behind (by decide) ?_
  rw [List.append_assoc, List.cons_append]
  exact hl.listed.separate true (by decide) (hinner.listed.close (by decide))

/-- Reversing calls a method on a copy of the list. -/
theorem stands_reverse {first : List Part} (h : Stands first) (rest : List (List Part)) :
    Stands (callParts (first :: rest) .reverse) := by
  have hsliceName : IsName "slice" := isName_of_plain (by decide)
  have hreverse : IsName "reverse" := isName_of_plain (by decide)
  have hempty : Lays .operand .operator ([] ++ [.mark ")"]) fun _ => True :=
    listed_nil.close (by decide)
  have hgroup : Stands (enclosed "(" first ")") :=
    stands_enclosed (by decide) (h.listed.close (by decide))
  have hslice := (hgroup.access (all_isDigit_textOf_enclosed _ _ [] _ (by decide))
    hsliceName).behind (by decide : "(" ∈ ["(", "["]) hempty
  exact (hslice.access (all_isDigit_textOf_enclosed _ _ _ _ (by decide)) hreverse).behind
    (by decide) hempty

/-- **A call stands** when the arguments that its function asks for do and a point may come behind
the receiver of a method. -/
theorem stands_callParts {definition : FunctionDef} (hp : definition.Plain)
    {args : List (List Part)} (ha : definition.accepts args.length = true)
    (h : ∀ arg ∈ definition.emitted args, Stands arg)
    (hd : ∀ m, definition = .method m → m.cast = none → ∀ own ∈ args.head?,
      (textOf own).toList.all isDigit = false) :
    Stands (callParts args definition) ∧
      (textOf (callParts args definition)).toList.all isDigit = false := by
  cases hp.call ha with
  | rename htarget args =>
    exact ⟨htarget.stands_call (lays_separated (fun arg harg => (h arg harg).listed) (by decide)),
      all_isDigit_textOf_enclosed _ _ _ _ (by decide)⟩
  | @method m hm own rest =>
    have hown : own ∈ (FunctionDef.method m).emitted (own :: rest) :=
      FunctionDef.mem_emitted_of_mem_head? _ rfl
    refine Method.stands_parts hm (h own hown) (hd m rfl · own rfl) fun hmode arg harg => ?_
    refine h arg ?_
    rw [FunctionDef.emitted_method, if_pos hmode]
    exact List.mem_cons_of_mem _ harg
  | clamp value low high =>
    exact ⟨stands_clamp (h value (by simp [FunctionDef.emitted]))
      (h low (by simp [FunctionDef.emitted])) (h high (by simp [FunctionDef.emitted])),
      all_isDigit_textOf_enclosed _ _ _ _ (by decide)⟩
  | reverse first rest =>
    exact ⟨stands_reverse (h first (by simp [FunctionDef.emitted_reverse])) rest,
      all_isDigit_textOf_enclosed _ _ _ _ (by decide)⟩
  | ifThenElse test consequent alternate =>
    exact ⟨stands_conditional (h test (by simp [FunctionDef.emitted]))
      (h consequent (by simp [FunctionDef.emitted])) (h alternate (by simp [FunctionDef.emitted])),
      all_isDigit_textOf_enclosed _ _ [] _ (by decide)⟩

/-- **A call ends with a closing bracket or a name.** -/
theorem ended_callParts {definition : FunctionDef} (hp : definition.Plain) {args : List (List Part)}
    (ha : definition.accepts args.length = true) : Ended (callParts args definition) := by
  cases hp.call ha with
  | rename _ _ | clamp _ _ _ | reverse _ _ => exact (ended_enclosed (by decide) _ _).behind _
  | method hm own rest => exact Method.ended_parts hm rest
  | ifThenElse _ _ _ => exact ended_enclosed (by decide) _ _

end Sandbox

/-! ## Trees -/

namespace Sandbox

variable (sandbox : Sandbox)

/-- The parts of the tree stand, and a point may come behind them unless the tree is a number in
digits. -/
structure Laid (e : Expr) : Prop where
  stands : Stands (sandbox.parts e)
  digits (h : e.isDigits = false) : (textOf (sandbox.parts e)).toList.all isDigit = false

variable {sandbox} {e : Expr}

/-- **A literal is one token**, also the group that stands for an empty pattern. -/
theorem laid_literal (hempty : Regex.AcceptsEmptyGroup) {value : Literal} {raw : String}
    (h : value.Spelled raw) : sandbox.Laid (.literal value raw) where
  stands := stands_literal hempty h
  digits hd := by
    rw [parts, textOf_cons, Part.text_literal, textOf_nil, String.append_empty]
    cases value with
    | number value => exact hd
    | string _ | boolean _ | null | regex _ _ =>
      exact (h.explicit hempty).writes.digits (by simp [Literal.explicit])

/-- A name is a constant, itself or a member of the global variable. -/
theorem laid_identifier (hs : sandbox.Stock) {object : String}
    (hg : sandbox.globalVar = .named object) (ho : IsPath object) {id : String}
    (h : IsReference id) : sandbox.Laid (.identifier id) := by
  have hid : Stands (sandbox.referenceParts id) ∧
      (textOf (sandbox.referenceParts id)).toList.all isDigit = false := by
    unfold referenceParts
    split
    · next code hc =>
      rw [textOf_path]
      exact (hs.isPath hc).stands
    · split
      · refine ⟨stands_name h, ?_⟩
        simpa using h.1.all_isDigit
      · rw [hg]
        have hquoted : Listed [.quoted id] :=
          ⟨.operator, by simp, (lays_quoted h.1).imp fun _ _ => trivial⟩
        exact ⟨ho.stands.1.behind (by decide) (hquoted.close (by decide)),
          all_isDigit_textOf_enclosed _ _ _ _ (by decide)⟩
  exact ⟨hid.1, fun _ => hid.2⟩

/-- A key is one token. -/
theorem listed_keyParts (hempty : Regex.AcceptsEmptyGroup) {key : Expr} (h : key.IsKey) :
    Listed (keyParts key) := by
  cases h with
  | @name n hn =>
    refine ⟨_, ?_, (@lays_name .operand _ n false false hn).imp ?_⟩
    · rcases after_ofName (Lexeme.isName_ofName n) with hdue | hdue <;> rw [hdue] <;> simp
    · rintro rest ⟨m, hm, later, rfl⟩
      obtain ⟨hmark, hpoint, -⟩ := closers_facts m hm
      exact (@endsCode_mark _ n _ _ hmark hpoint).1
  | string h => exact (stands_literal hempty h).listed
  | number h => exact (stands_literal hempty h).listed

/-- A property is listed when its value stands. -/
theorem listed_property (hempty : Regex.AcceptsEmptyGroup) {key value : Expr} (hk : key.IsKey)
    (hv : Stands (sandbox.parts value)) : Listed (sandbox.parts (.property key value)) := by
  obtain ⟨due, hdue, hlays⟩ := hv.listed
  exact ⟨due, hdue, (listed_keyParts hempty hk).separate false (by decide) hlays⟩

/-- **A call is laid** when the arguments that it emits are, and no digits stand in front of its
point. -/
theorem laid_call {function : String} {definition : FunctionDef} {args : List Expr}
    (hp : definition.Plain) (hd : sandbox.functions.lookup function = some definition)
    (ha : definition.accepts args.length = true)
    (h : ∀ e ∈ definition.emitted args, sandbox.Laid e)
    (hpoint : ∀ receiver ∈ sandbox.pointed (.call (.identifier function) args),
      receiver.isDigits = false) :
    sandbox.Laid (.call (.identifier function) args) := by
  have hparts : sandbox.parts (.call (.identifier function) args)
      = callParts (args.map sandbox.parts) definition := by
    rw [parts, hd, partsOfAll_eq_map]
  have hstands : ∀ arg ∈ definition.emitted (args.map sandbox.parts), Stands arg := by
    intro arg harg
    rw [FunctionDef.emitted_map] at harg
    obtain ⟨e, he, rfl⟩ := List.mem_map.1 harg
    exact (h e he).stands
  have hcall := stands_callParts hp (by rwa [List.length_map]) hstands ?_
  · exact ⟨hparts ▸ hcall.1, fun _ => hparts ▸ hcall.2⟩
  · rintro ⟨name, cast, mode⟩ rfl hcast own hown
    obtain rfl : cast = none := hcast
    cases args with
    | nil => cases hown
    | cons first rest =>
      obtain rfl := Option.some.inj hown
      exact (h first (FunctionDef.mem_emitted_of_mem_head? _ rfl)).digits
        (hpoint first (by simp [pointed, hd]))

/-- What stands between brackets is laid whatever comes behind it. -/
theorem laid_enclosed {opening closing : String} {inside : List Part}
    (hparts : sandbox.parts e = enclosed opening inside closing)
    (ho : opening ∈ ["(", "[", "\x7b"]) (h : Stands (enclosed opening inside closing)) :
    sandbox.Laid e where
  stands := hparts ▸ h
  digits _ := hparts ▸ all_isDigit_textOf_enclosed _ _ [] _ ho

theorem laid_array {slots : List (Option Expr)} (h : ∀ e, some e ∈ slots → sandbox.Laid e) :
    sandbox.Laid (.array slots) := by
  have hslots : ∀ item ∈ sandbox.slotParts slots, Listed item := by
    intro item hitem
    rw [slotParts_eq_map, List.mem_map] at hitem
    obtain ⟨slot, hslot, rfl⟩ := hitem
    cases slot with
    | none => exact listed_nil
    | some e => exact (h e hslot).stands.listed
  exact laid_enclosed (by rw [parts]) (by decide)
    (stands_enclosed (by decide) (lays_separated hslots (by decide)))

theorem laid_object (hempty : Regex.AcceptsEmptyGroup) {entries : List (Expr × Expr)}
    (hkey : ∀ entry ∈ entries, entry.1.IsKey) (h : ∀ entry ∈ entries, sandbox.Laid entry.2) :
    sandbox.Laid (.object (properties entries)) := by
  have hproperties : ∀ item ∈ sandbox.partsOfAll (properties entries), Listed item := by
    intro item hitem
    rw [partsOfAll_eq_map, List.mem_map] at hitem
    obtain ⟨property, hp, rfl⟩ := hitem
    obtain ⟨entry, hentry, rfl⟩ := List.mem_map.1 hp
    exact listed_property hempty (hkey entry hentry) (h entry hentry).stands
  exact laid_enclosed (by rw [parts]) (by decide)
    (stands_enclosed (by decide) (lays_separated hproperties (by decide)))

/-- A point behind digits would be read as theirs, and so the receiver has to be something else. -/
theorem laid_named {receiver : Expr} {name : String} (hn : IsName name)
    (h : sandbox.Laid receiver) (hd : receiver.isDigits = false) :
    sandbox.Laid (.member receiver (.identifier name) false) := by
  have hdigits := h.digits hd
  refine ⟨h.stands.access hdigits hn, fun _ => ?_⟩
  rw [parts, textOf_append]
  exact all_isDigit_append_eq_false hdigits

theorem laid_computed {receiver name : Expr} (hr : sandbox.Laid receiver)
    (hn : sandbox.Laid name) : sandbox.Laid (.member receiver name true) := by
  refine ⟨?_, fun _ => ?_⟩ <;> rw [parts]
  · exact hr.stands.behind (by decide) (hn.stands.listed.close (by decide))
  · exact all_isDigit_textOf_enclosed _ _ _ _ (by decide)

/-- **The parts of a tree stand**, when its calls suit their functions and no point comes behind
digits. -/
theorem laid (hempty : Regex.AcceptsEmptyGroup) (hs : sandbox.Stock) {object : String}
    (hg : sandbox.globalVar = .named object) (ho : IsPath object) (hw : e.WellFormed)
    (hk : sandbox.Callable e) (ha : sandbox.Apart e) : sandbox.Laid e := by
  have hchild : ∀ {e child : Expr}, sandbox.Callable e ∧ sandbox.Apart e →
      child ∈ sandbox.referring e e.children → sandbox.Callable child ∧ sandbox.Apart child :=
    fun h hc => ⟨(forall_emittedNodes_iff.1 h.1).2 _ hc, (forall_emittedNodes_iff.1 h.2).2 _ hc⟩
  have h : sandbox.Callable e ∧ sandbox.Apart e := ⟨hk, ha⟩
  clear hk ha
  induction hw with
  | literal hspelled => exact laid_literal hempty hspelled
  | identifier href => exact laid_identifier hs hg ho href
  | array _ ih =>
    exact laid_array fun e he => ih e he (hchild h (List.mem_filterMap.2 ⟨some e, he, rfl⟩))
  | object hkey _ _ ih =>
    refine laid_object hempty hkey fun entry hentry => ih entry hentry ?_
    exact hchild (hchild h (List.mem_map_of_mem hentry)) List.mem_cons_self
  | @call callee args _ _ _ iha =>
    obtain ⟨hsuits, -⟩ := callable_iff.1 h.1
    obtain ⟨function, definition, rfl, hd, haccepts⟩ := hsuits
    refine laid_call (hs.plain hd) hd haccepts (fun e he => ?_) (forall_emittedNodes_iff.1 h.2).1
    exact iha e ((definition.emitted_sublist args).mem he) (hchild h (referring_call hd ▸ he))
  | named _ hn ih =>
    exact laid_named hn (ih (hchild h List.mem_cons_self))
      ((forall_emittedNodes_iff.1 h.2).1 _ rfl)
  | computed _ _ ihr ihn =>
    exact laid_computed (ihr (hchild h List.mem_cons_self))
      (ihn (hchild h (by simp [referring, Expr.children])))
  | @binary op _ _ _ _ ihl ihr =>
    exact laid_enclosed (by rw [parts]) (by decide) (stands_operation (.binary op)
      (ihl (hchild h (by simp [referring, Expr.children]))).stands
      (ihr (hchild h (by simp [referring, Expr.children]))).stands)
  | @logical op _ _ _ _ ihl ihr =>
    exact laid_enclosed (by rw [parts]) (by decide) (stands_operation (.logical op)
      (ihl (hchild h (by simp [referring, Expr.children]))).stands
      (ihr (hchild h (by simp [referring, Expr.children]))).stands)
  | @unary op _ _ ih =>
    exact laid_enclosed (by rw [parts]) (by decide)
      (stands_unary op (ih (hchild h (by simp [referring, Expr.children]))).stands)
  | conditional _ _ _ iht ihc iha =>
    exact laid_enclosed (by rw [parts]) (by decide) (stands_conditional
      (iht (hchild h (by simp [referring, Expr.children]))).stands
      (ihc (hchild h (by simp [referring, Expr.children]))).stands
      (iha (hchild h (by simp [referring, Expr.children]))).stands)

/-- **The output of a tree is cut into the tokens of its parts**, where no point comes behind
digits. -/
theorem comprises_parts (hempty : Regex.AcceptsEmptyGroup) (hs : sandbox.Stock) {object : String}
    (hg : sandbox.globalVar = .named object) (ho : IsPath object) (hw : e.WellFormed)
    (ha : sandbox.Apart e) {out : Output} (h : sandbox.compile e = .ok out) :
    Comprises out.code (tokensOf (sandbox.parts e)) := by
  obtain ⟨-, expand, session, he, -, -⟩ := exists_of_compile (hs.standard.expands e) h
  have hk := callable_of_emits hs.standard ⟨_, _, he⟩
  rw [code_eq_textOf_parts hs.standard hg hw h]
  exact (laid hempty hs hg ho hw hk ha).stands.comprises

end Sandbox

end ChartScript
