import ChartScript.Proofs.Grammar.Standing
import ChartScript.Proofs.Sandbox.Itemizing

/-!
# Proofs/Sandbox/Parts — the tokens that code is put together from

`Sandbox.parts` lists the tokens that emission writes for a tree, and the blanks between them: those
of its literals and names, the marks that it puts around them, and the paths of constants, functions
and the global object.  Their text is the code of the tree (`code_eq_textOf_parts`).
-/

namespace ChartScript

open Emit Grammar

variable {α β : Type}

/-- The parts of what a call or a receiver is wrapped in: a path, which may stand behind `new`. -/
def callee (target : String) : List Part :=
  if "new ".toList.isPrefixOf target.toList then
    ⟨false, ⟨.keyword "new", "new"⟩, true⟩ :: path (String.ofList (target.toList.drop 4))
  else path target

theorem textOf_callee (target : String) : textOf (callee target) = target := by
  unfold callee
  split
  · next h =>
    obtain ⟨later, hlater⟩ := List.isPrefixOf_iff_prefix.1 h
    have htoList : target.toList = "new ".toList ++ target.toList.drop 4 := by
      rw [← hlater]
      rfl
    rw [textOf_cons, textOf_path, ← String.toList_inj, String.toList_append, String.toList_ofList,
      Part.text]
    exact htoList.symm
  · exact textOf_path target

namespace Method

/-- The parts of the receiver of a method. -/
def receiverParts (method : Method) (own : List Part) : List Part :=
  match method.cast with
  | none => own
  | some cast =>
    let call := callee cast ++ enclosed "(" own ")"
    if "new ".toList.isPrefixOf cast.toList then enclosed "(" call ")" else call

/-- The parts of a method call, from those of its arguments. -/
def parts (method : Method) : List (List Part) → List Part
  | [] => []
  | receiver :: rest =>
    let access := method.receiverParts receiver ++ [.mark ".", .name method.name]
    match method.mode with
    | .property => access
    | .noArgs => access ++ enclosed "(" [] ")"
    | .forward => access ++ enclosed "(" (separated rest) ")"

/-- The text of a receiver is the receiver of the text. -/
theorem textOf_receiverParts (method : Method) (own : List Part) :
    textOf (method.receiverParts own) = method.receiver (textOf own) := by
  unfold receiverParts receiver
  match method.cast with
  | none => rfl
  | some cast =>
    have hcall : textOf (callee cast ++ enclosed "(" own ")") = cast ++ "(" ++ textOf own ++ ")" := by
      rw [textOf_append, textOf_enclosed, textOf_callee, ← String.append_assoc, ← String.append_assoc]
    dsimp only
    split
    · rw [textOf_enclosed, hcall]
    · exact hcall

end Method

namespace Sandbox

variable (sandbox : Sandbox)

/-- The parts of a call, from those of its arguments. -/
def callParts (args : List (List Part)) : FunctionDef → List Part
  | .rename target => callee target ++ enclosed "(" (separated args) ")"
  | .method method => method.parts args
  | .clamp =>
    match args with
    | [value, low, high] =>
      path "Math.max" ++ enclosed "(" (low ++ ⟨false, ⟨.punctuator ",", ","⟩, true⟩ ::
        (path "Math.min" ++ enclosed "(" (separated [high, value]) ")")) ")"
    | _ => []
  | .reverse =>
    match args with
    | [] => []
    | first :: _ =>
      enclosed "(" first ")" ++ [.mark ".", .name "slice"] ++ enclosed "(" [] ")" ++
        [.mark ".", .name "reverse"] ++ enclosed "(" [] ")"
  | .ifThenElse =>
    match args with
    | [test, consequent, alternate] =>
      enclosed "(" (test ++ .mark "?" :: (consequent ++ .mark ":" :: alternate)) ")"
    | _ => []
  | .custom _ => []

/-- The parts of a reference. -/
def referenceParts (id : String) : List Part :=
  match sandbox.constants.lookup id with
  | some code => path code
  | none =>
    if sandbox.whitelist.contains id then [.name id]
    else
      match sandbox.globalVar with
      | .named object => path object ++ enclosed "[" [.quoted id] "]"
      | .accessor _ => []

/-- The part of a key or of the name of a member. -/
def keyParts : Expr → List Part
  | .identifier name => [.name name]
  | .literal value raw => [.literal value raw]
  | _ => []

mutual

/-- **The parts of the code of a tree**, when no custom function is called in it. -/
def parts (sandbox : Sandbox) : Expr → List Part
  | .literal value raw => [.literal value raw]
  | .identifier id => sandbox.referenceParts id
  | .array slots => enclosed "[" (separated (slotParts sandbox slots)) "]"
  | .object properties => enclosed "\x7b" (separated (partsOfAll sandbox properties)) "\x7d"
  | .property key value => keyParts key ++ .mark ":" :: parts sandbox value
  | .call (.identifier function) args =>
    match sandbox.functions.lookup function with
    | some definition => callParts (partsOfAll sandbox args) definition
    | none => []
  | .call _ _ => []
  | .member receiver name true => parts sandbox receiver ++ enclosed "[" (parts sandbox name) "]"
  | .member receiver name false => parts sandbox receiver ++ .mark "." :: keyParts name
  | .binary op left right =>
    enclosed "(" (parts sandbox left ++ .operator (.binary op) :: parts sandbox right) ")"
  | .logical op left right =>
    enclosed "(" (parts sandbox left ++ .operator (.logical op) :: parts sandbox right) ")"
  | .unary op argument => enclosed "(" (.mark op.symbol :: parts sandbox argument) ")"
  | .conditional test consequent alternate =>
    enclosed "(" (parts sandbox test ++ .mark "?" ::
      (parts sandbox consequent ++ .mark ":" :: parts sandbox alternate)) ")"
  | .rawCode _ => []

/-- The parts of the codes of some trees. -/
def partsOfAll (sandbox : Sandbox) : List Expr → List (List Part)
  | [] => []
  | e :: es => parts sandbox e :: partsOfAll sandbox es

/-- The parts of the codes of some slots; a hole has none. -/
def slotParts (sandbox : Sandbox) : List (Option Expr) → List (List Part)
  | [] => []
  | none :: slots => [] :: slotParts sandbox slots
  | some e :: slots => parts sandbox e :: slotParts sandbox slots

end

variable {sandbox}

theorem partsOfAll_eq_map (es : List Expr) : sandbox.partsOfAll es = es.map sandbox.parts := by
  induction es with
  | nil => rfl
  | cons e es ih => rw [partsOfAll, ih, List.map_cons]

theorem slotParts_eq_map (slots : List (Option Expr)) :
    sandbox.slotParts slots = slots.map fun slot => slot.elim [] sandbox.parts := by
  induction slots with
  | nil => rfl
  | cons slot slots ih => cases slot <;> rw [slotParts, ih, List.map_cons] <;> rfl

end Sandbox

/-! ## The text of the parts is the code -/

namespace Emit

/-- **In a session in which names are references, `x` gives `a` if it gives anything.** -/
def Says (x : Emit α) (a : α) : Prop :=
  ∀ s t b, s.nameDepth = 0 → x s = (.ok b, t) → t.nameDepth = 0 ∧ b = a

theorem says_pure (a : α) : Says (pure a : Emit α) a := by
  intro s t b hs h
  cases h
  exact ⟨hs, rfl⟩

theorem says_pure_of_eq {a b : α} (h : a = b) : Says (pure a : Emit α) b := h ▸ says_pure a

theorem says_fail (error : CompileError) (a : α) : Says (Emit.fail error : Emit α) a :=
  fun _ _ _ _ h => nomatch h

/-- **What follows says it when what comes before does.** -/
theorem Says.bind {x : Emit α} {f : α → Emit β} {a : α} {b : β} (hx : Says x a)
    (hf : Says (f a) b) : Says (x >>= f) b := by
  intro s t c hs h
  obtain ⟨a', u, hr, h⟩ := bind_eq_ok_iff.1 h
  obtain ⟨hu, rfl⟩ := hx s u a' hs hr
  exact hf u t c hu h

/-- What is given may be changed afterwards. -/
theorem Says.bind_pure {x : Emit α} {f : α → β} {a : α} {b : β} (hx : Says x a) (hb : f a = b) :
    Says (x >>= fun a => pure (f a)) b := hx.bind (says_pure_of_eq hb)

/-- A sequence says what its parts say. -/
theorem says_sequence {γ : Type} {xs : List γ} {emit : γ → Emit α} {f : γ → α}
    (h : ∀ x ∈ xs, Says (emit x) (f x)) : Says (Emit.sequence (xs.map emit)) (xs.map f) := by
  induction xs with
  | nil => exact says_pure []
  | cons x xs ih =>
    refine (h x List.mem_cons_self).bind ?_
    exact (ih fun y hy => h y (List.mem_cons_of_mem _ hy)).bind_pure rfl

theorem says_threeCodes {function : String} {a b c : Emit String} {x y z : String} (ha : Says a x)
    (hb : Says b y) (hc : Says c z) : Says (threeCodes function [a, b, c]) (x, y, z) :=
  ha.bind (hb.bind (hc.bind_pure rfl))

end Emit

namespace Sandbox

variable {sandbox : Sandbox} {expand : Expr → Emit String}

/-- A method says the text of its parts, argument by argument. -/
theorem says_method (m : Method) {emit : Expr → Emit String} {parts : Expr → List Part}
    {args : List Expr} (h : ∀ e ∈ args, Says (emit e) (textOf (parts e))) :
    Says (m.emit (args.map emit)) (textOf (m.parts (args.map parts))) := by
  match args with
  | [] => exact says_fail _ _
  | receiver :: rest =>
    unfold Method.emit Method.parts
    refine (h receiver List.mem_cons_self).bind ?_
    match m.mode with
    | .property =>
      exact says_pure_of_eq (by simp [Method.textOf_receiverParts, String.append_assoc])
    | .noArgs =>
      exact says_pure_of_eq (by simp [Method.textOf_receiverParts, String.append_assoc])
    | .forward =>
      have hrest : Says (Emit.sequence (rest.map emit)) (rest.map fun e => textOf (parts e)) :=
        says_sequence fun e he => h e (List.mem_cons_of_mem _ he)
      refine hrest.bind_pure ?_
      simp [Method.textOf_receiverParts, textOf_separated, String.append_assoc, Function.comp_def]

/-- A call says the text of its parts when its arguments do. -/
theorem says_emitCall {emit : Expr → Emit String} {parts : Expr → List Part} {trees args : List Expr}
    {definition : FunctionDef} (hc : ∀ expansion, definition ≠ .custom expansion)
    (h : ∀ e ∈ args, Says (emit e) (textOf (parts e))) :
    Says (emitCall expand trees (args.map emit) definition)
      (textOf (callParts (args.map parts) definition)) := by
  have hall : Says (Emit.sequence (args.map emit)) (args.map fun e => textOf (parts e)) :=
    says_sequence h
  cases definition with
  | rename target =>
    refine hall.bind_pure ?_
    rw [callParts, textOf_append, textOf_callee, textOf_enclosed, textOf_separated, List.map_map]
    simp only [String.append_assoc, Function.comp_def]
  | method m => exact says_method m h
  | clamp =>
    rcases args with _ | ⟨value, _ | ⟨low, _ | ⟨high, _ | ⟨_, _⟩⟩⟩⟩
    case cons.cons.cons.nil =>
      simp only [List.forall_mem_cons] at h
      refine (says_threeCodes h.1 h.2.1 h.2.2.1).bind_pure ?_
      have hcomma : Part.text ⟨false, ⟨.punctuator ",", ","⟩, true⟩ = ", " := rfl
      rw [← String.toList_inj]
      simp [callParts, hcomma, textOf_path, separated, String.toList_append]
    all_goals exact says_fail _ _
  | reverse =>
    cases args with
    | nil => exact says_fail _ _
    | cons first _ =>
      refine (h first List.mem_cons_self).bind_pure ?_
      simp [callParts, String.append_assoc]
  | ifThenElse =>
    rcases args with _ | ⟨test, _ | ⟨consequent, _ | ⟨alternate, _ | ⟨_, _⟩⟩⟩⟩
    case cons.cons.cons.nil =>
      simp only [List.forall_mem_cons] at h
      refine (says_threeCodes h.1 h.2.1 h.2.2.1).bind_pure ?_
      simp [callParts, String.append_assoc]
    all_goals exact says_fail _ _
  | custom expansion => exact absurd rfl (hc expansion)

/-- A name says what it refers to. -/
theorem says_resolve {id object : String} (hg : sandbox.globalVar = .named object) :
    Says (sandbox.resolve id) (textOf (sandbox.referenceParts id)) := by
  intro s t code hs h
  unfold resolve at h
  rw [hs, if_neg (Nat.lt_irrefl 0)] at h
  unfold referenceParts
  by_cases hb : sandbox.blacklist.contains id
  · rw [if_pos hb] at h
    cases h
  · rw [if_neg hb] at h
    cases hc : sandbox.constants.lookup id with
    | some constant =>
      rw [hc] at h
      cases h
      exact ⟨hs, (textOf_path code).symm⟩
    | none =>
      rw [hc] at h
      by_cases hw : sandbox.whitelist.contains id
      · simp only [hw, if_true] at h ⊢
        cases h
        exact ⟨hs, by simp⟩
      · simp only [hw, hg] at h ⊢
        cases h
        refine ⟨hs, String.toList_inj.1 ?_⟩
        simp [GlobalVar.access, textOf_path, String.toList_append]

/-- Recording a field says nothing. -/
theorem says_recordField (receiver name : String) : Says (sandbox.recordField receiver name) () := by
  intro s t u hs h
  unfold recordField at h
  split at h <;> (cases h; exact ⟨hs, rfl⟩)

variable [Externals]

/-- A key is emitted as it was written. -/
theorem asName_key {key : Expr} (hkey : key.IsKey) :
    asName (emitOver sandbox expand key) = pure (textOf (keyParts key)) := by
  cases hkey with
  | name _ => simp [asName_emitOver_identifier, keyParts]
  | string _ => simp [keyParts, Literal.code]; rfl
  | number _ => simp [keyParts, Literal.code]; rfl

/-- **The code of a tree is the text of its parts.** -/
theorem says_emitOver (hstd : sandbox.Standard) {object : String}
    (hg : sandbox.globalVar = .named object) {e : Expr} (hw : e.WellFormed) :
    Says (emitOver sandbox expand e) (textOf (sandbox.parts e)) := by
  induction hw with
  | literal _ =>
    rw [emitOver, parts]
    exact says_pure_of_eq (by simp)
  | identifier _ =>
    rw [emitOver, parts]
    exact says_resolve hg
  | @array slots _ ih =>
    rw [emitOver, parts, slotEmitters_eq_map, slotParts_eq_map]
    have hslots : Says (Emit.sequence (slots.map fun slot =>
        slot.elim (pure "") (emitOver sandbox expand)))
        (slots.map fun slot => textOf (slot.elim [] sandbox.parts)) := by
      refine says_sequence fun slot hslot => ?_
      cases slot with
      | none => exact says_pure ""
      | some e => exact ih e hslot
    refine hslots.bind_pure ?_
    simp [textOf_separated, Function.comp_def]
  | @object entries hkey _ _ ih =>
    rw [emitOver, parts, emitters_eq_map, partsOfAll_eq_map]
    have hall : Says (Emit.sequence ((properties entries).map (emitOver sandbox expand)))
        ((properties entries).map fun e => textOf (sandbox.parts e)) := by
      refine says_sequence fun e he => ?_
      obtain ⟨entry, hentry, rfl⟩ := List.mem_map.1 he
      rw [emitOver, parts, asName_key (hkey entry hentry)]
      refine (says_pure _).bind ((ih entry hentry).bind_pure ?_)
      simp [String.append_assoc]
    refine hall.bind_pure ?_
    simp [textOf_separated, Function.comp_def, properties]
  | @call callee args _ _ _ iha =>
    rcases emitOver_call_cases sandbox callee args with
      ⟨function, definition, rfl, hd, heq⟩ | ⟨function, -, -, heq⟩ | ⟨-, heq⟩
    · rw [heq, parts, hd, partsOfAll_eq_map]
      exact says_emitCall (hstd.ne_custom hd) iha
    · rw [heq]
      exact says_fail _ _
    · rw [heq]
      exact says_fail _ _
  | @named receiver name _ _ ih =>
    rw [emitOver, parts, asName_emitOver_identifier]
    refine ih.bind ((says_pure name).bind ((says_recordField _ _).bind_pure ?_))
    simp [keyParts, String.append_assoc]
  | @computed receiver name _ _ ihr ihn =>
    rw [emitOver, parts]
    refine ihr.bind (ihn.bind ((says_recordField _ _).bind_pure ?_))
    simp [String.append_assoc]
  | @binary op left right _ _ ihl ihr =>
    rw [emitOver, parts]
    refine ihl.bind (ihr.bind_pure ?_)
    simp only [textOf_enclosed, textOf_append, textOf_cons, Part.text_operator, String.append_assoc]
    rfl
  | @logical op left right _ _ ihl ihr =>
    rw [emitOver, parts]
    refine ihl.bind (ihr.bind_pure ?_)
    simp [String.append_assoc, Connective.gap, Connective.isWord, Connective.symbol]
  | @unary op argument _ ih =>
    rw [emitOver, parts]
    refine ih.bind_pure ?_
    simp [String.append_assoc]
  | @conditional test consequent alternate _ _ _ iht ihc iha =>
    rw [emitOver, parts]
    refine iht.bind (ihc.bind (iha.bind_pure ?_))
    simp [String.append_assoc]

/-- **The output of a tree is the text of its parts.** -/
theorem code_eq_textOf_parts (hstd : sandbox.Standard) {object : String}
    (hg : sandbox.globalVar = .named object) {e : Expr} (hw : e.WellFormed) {out : Output}
    (h : sandbox.compile e = .ok out) : out.code = textOf (sandbox.parts e) := by
  obtain ⟨-, expand, session, he, -, -⟩ := exists_of_compile (hstd.expands e) h
  exact (says_emitOver hstd hg hw .empty session out.code rfl he).2

end Sandbox

end ChartScript
