import ChartScript.Proofs.Expr.Nodes
import ChartScript.Proofs.Sandbox.Emission

/-!
# Proofs/Sandbox/Composition — what emission inherits from its steps

The code of a tree is computed in steps: a name is resolved, a field is recorded, a call is refused.
A relation between computations is `Emit.Compositional` when it passes from steps to what is made of
them.  Then it holds between two emissions of a tree as soon as it holds between the steps for the
names in the tree and between the expansions of the custom functions that it calls
(`related_emitOver`).  One induction on trees serves every such relation, and every property of a
single emission as well (`good_emitOver`).
-/

namespace ChartScript

namespace Emit

/-- **A relation between computations that passes from steps to what is made of them.** -/
structure Compositional (Rel : (α : Type) → Emit α → Emit α → Prop) : Prop where
  pure {α : Type} (a : α) : Rel α (pure a) (pure a)
  bind {α β : Type} {x y : Emit α} {f g : α → Emit β} :
    Rel α x y → (∀ a, Rel β (f a) (g a)) → Rel β (x >>= f) (y >>= g)
  asName {x y : Emit String} : Rel String x y → Rel String (Emit.asName x) (Emit.asName y)
  arity {α : Type} (function : String) (expected found : Nat) :
    Rel α (Emit.fail (.arity function expected found)) (Emit.fail (.arity function expected found))
  illegalCallee (kind : String) :
    Rel String (Emit.fail (.illegalCallee kind)) (Emit.fail (.illegalCallee kind))
  unrecognizedFunction (function : String) :
    Rel String (Emit.fail (.unrecognizedFunction function))
      (Emit.fail (.unrecognizedFunction function))

variable {Rel : (α : Type) → Emit α → Emit α → Prop}

/-- A value may be changed behind a computation. -/
theorem Compositional.bind_pure {α β : Type} (hR : Compositional Rel) {x y : Emit α}
    (hx : Rel α x y) (f : α → β) :
    Rel β (x >>= fun a => Pure.pure (f a)) (y >>= fun a => Pure.pure (f a)) :=
  hR.bind hx fun a => hR.pure (f a)

theorem Compositional.sequence {α γ : Type} (hR : Compositional Rel) {es : List γ}
    {f g : γ → Emit α} (h : ∀ e ∈ es, Rel α (f e) (g e)) :
    Rel (List α) (Emit.sequence (es.map f)) (Emit.sequence (es.map g)) := by
  induction es with
  | nil => exact hR.pure _
  | cons e es ih =>
    refine hR.bind (h e List.mem_cons_self) fun a => ?_
    exact hR.bind_pure (ih fun e' he' => h e' (List.mem_cons_of_mem _ he')) _

end Emit

open Emit

variable {Rel : (α : Type) → Emit α → Emit α → Prop} {f g : Expr → Emit String}

theorem Method.related_emit (hR : Compositional Rel) (method : Method) {args : List Expr}
    (h : ∀ e ∈ args, Rel String (f e) (g e)) :
    Rel String (method.emit (args.map f)) (method.emit (args.map g)) := by
  match args with
  | [] => exact hR.arity _ _ _
  | receiver :: rest =>
    refine hR.bind (h receiver List.mem_cons_self) fun code => ?_
    match method.mode with
    | .property => exact hR.pure _
    | .noArgs => exact hR.pure _
    | .forward =>
      exact hR.bind_pure (hR.sequence fun e he => h e (List.mem_cons_of_mem _ he)) _

theorem related_threeCodes (hR : Compositional Rel) (function : String) {args : List Expr}
    (h : ∀ e ∈ args, Rel String (f e) (g e)) :
    Rel _ (threeCodes function (args.map f)) (threeCodes function (args.map g)) := by
  match args with
  | [a, b, c] =>
    refine hR.bind (h a (by simp)) fun _ => ?_
    refine hR.bind (h b (by simp)) fun _ => ?_
    exact hR.bind_pure (h c (by simp)) _
  | [] => exact hR.arity _ _ _
  | [_] => exact hR.arity _ _ _
  | [_, _] => exact hR.arity _ _ _
  | a :: b :: c :: d :: later =>
    have hlength (emit : Expr → Emit String) :
        ((a :: b :: c :: d :: later).map emit).length = later.length + 4 := List.length_map _
    show Rel _ (Emit.fail (.arity function 3 ((a :: b :: c :: d :: later).map f).length))
      (Emit.fail (.arity function 3 ((a :: b :: c :: d :: later).map g).length))
    rw [hlength, hlength]
    exact hR.arity _ _ _

namespace Sandbox

variable {sandbox : Sandbox} {expand : Expr → Emit String}

theorem related_emitCall {expand' : Expr → Emit String} (hR : Compositional Rel)
    {trees args : List Expr} (h : ∀ e ∈ args, Rel String (f e) (g e)) {definition : FunctionDef}
    (hc : ∀ expansion, definition = .custom expansion →
      Rel String ((expansion trees).run expand) ((expansion trees).run expand')) :
    Rel String (emitCall expand trees (args.map f) definition)
      (emitCall expand' trees (args.map g) definition) := by
  match definition with
  | .rename target => exact hR.bind_pure (hR.sequence h) _
  | .method method => exact method.related_emit hR h
  | .clamp => exact hR.bind_pure (related_threeCodes hR _ h) _
  | .reverse =>
    match args with
    | [] => exact hR.arity _ _ _
    | first :: _ => exact hR.bind_pure (h first List.mem_cons_self) _
  | .ifThenElse => exact hR.bind_pure (related_threeCodes hR _ h) _
  | .custom expansion => exact hc expansion rfl

/-- The computations of the codes of some trees are those of the trees. -/
theorem emitters_eq_map (es : List Expr) :
    emitters sandbox expand es = es.map (emitOver sandbox expand) := by
  induction es with
  | nil => rfl
  | cons e es ih => rw [emitters, ih, List.map_cons]

theorem slotEmitters_eq_map (slots : List (Option Expr)) :
    slotEmitters sandbox expand slots
      = slots.map fun slot => slot.elim (pure "") (emitOver sandbox expand) := by
  induction slots with
  | nil => rfl
  | cons slot slots ih =>
    match slot with
    | none => rw [slotEmitters, ih, List.map_cons]; rfl
    | some e => rw [slotEmitters, ih, List.map_cons]; rfl

/-- **A call** is that of a known function with the codes of its arguments, or it fails. -/
theorem emitOver_call_cases (sandbox : Sandbox) (callee : Expr) (args : List Expr) :
    (∃ function definition, callee = .identifier function ∧
      sandbox.functions.lookup function = some definition ∧
      ∀ expand, emitOver sandbox expand (.call callee args)
        = emitCall expand args (args.map (emitOver sandbox expand)) definition) ∨
    (∃ function, callee = .identifier function ∧ sandbox.functions.lookup function = none ∧
      ∀ expand, emitOver sandbox expand (.call callee args)
        = Emit.fail (.unrecognizedFunction function)) ∨
    (∀ function, callee ≠ .identifier function) ∧
      ∀ expand, emitOver sandbox expand (.call callee args)
        = Emit.fail (.illegalCallee callee.kind) := by
  by_cases hid : ∃ function, callee = .identifier function
  · obtain ⟨function, rfl⟩ := hid
    cases hd : sandbox.functions.lookup function with
    | some definition =>
      refine .inl ⟨function, definition, rfl, hd, fun expand => ?_⟩
      rw [emitOver, hd, emitters_eq_map]
    | none =>
      refine .inr (.inl ⟨function, rfl, hd, fun expand => ?_⟩)
      rw [emitOver, hd]
  · have hcallee : ∀ function, callee ≠ .identifier function := fun f hf => hid ⟨f, hf⟩
    refine .inr (.inr ⟨hcallee, fun expand => ?_⟩)
    rw [emitOver]
    exact hcallee

/-- The custom functions that are called in `e` expand to what satisfies `P`. -/
def Expands (sandbox : Sandbox) (P : Program → Prop) (e : Expr) : Prop :=
  ∀ function args expansion, .call (.identifier function) args ∈ e.preorder →
    sandbox.functions.lookup function = some (.custom expansion) → P (expansion args)

theorem Expands.child {P : Program → Prop} {e child : Expr} (h : sandbox.Expands P e)
    (hc : child ∈ e.children) : sandbox.Expands P child := fun function args expansion hn =>
  h function args expansion (Expr.mem_preorder_iff.2 (.inr ⟨child, hc, hn⟩))

/-- What is no call itself calls what its children call. -/
theorem expands_of_children {P : Program → Prop} {e : Expr}
    (he : ∀ callee args, e ≠ .call callee args)
    (h : ∀ child ∈ e.children, sandbox.Expands P child) : sandbox.Expands P e := by
  intro function args expansion hn hd
  rcases Expr.mem_preorder_iff.1 hn with heq | ⟨child, hc, hn⟩
  · exact absurd heq.symm (he _ _)
  · exact h child hc function args expansion hn hd

/-- **Emission inherits a relation from its steps**: from resolving the names of the tree, recording
fields, and expanding the custom functions that the tree calls. -/
theorem related_emitOver {expand' : Expr → Emit String} (hR : Compositional Rel) {e : Expr}
    (hresolve : ∀ name, e.Mentions name → Rel String (sandbox.resolve name) (sandbox.resolve name))
    (hfield : ∀ receiver name,
      Rel Unit (sandbox.recordField receiver name) (sandbox.recordField receiver name))
    (hexpand : sandbox.Expands
      (fun program => Rel String (program.run expand) (program.run expand')) e) :
    Rel String (emitOver sandbox expand e) (emitOver sandbox expand' e) := by
  induction e using Expr.induction_children with
  | step e ih =>
    have hchild : ∀ child ∈ e.children,
        Rel String (emitOver sandbox expand child) (emitOver sandbox expand' child) :=
      fun child hc => ih child hc
        (fun name hn => hresolve name (Expr.mem_preorder_iff.2 (.inr ⟨child, hc, hn⟩)))
        (hexpand.child hc)
    clear ih
    cases e with
    | literal value raw => rw [emitOver, emitOver]; exact hR.pure _
    | identifier id => rw [emitOver, emitOver]; exact hresolve id (Expr.mentions_identifier.2 rfl)
    | array slots =>
      rw [emitOver, emitOver, slotEmitters_eq_map, slotEmitters_eq_map]
      refine hR.bind_pure (hR.sequence fun slot hslot => ?_) _
      cases slot with
      | none => exact hR.pure _
      | some e => exact hchild e (List.mem_filterMap.2 ⟨some e, hslot, rfl⟩)
    | object properties =>
      rw [emitOver, emitOver, emitters_eq_map, emitters_eq_map]
      exact hR.bind_pure (hR.sequence hchild) _
    | property key value =>
      rw [emitOver, emitOver]
      refine hR.bind (hR.asName (hchild key (by simp [Expr.children]))) fun _ => ?_
      exact hR.bind_pure (hchild value (by simp [Expr.children])) _
    | call callee args =>
      rcases sandbox.emitOver_call_cases callee args with
        ⟨function, definition, rfl, hd, heq⟩ | ⟨function, -, -, heq⟩ | ⟨-, heq⟩
      · rw [heq, heq]
        refine related_emitCall hR (fun e' he' => hchild e' (List.mem_cons_of_mem _ he')) ?_
        rintro expansion rfl
        exact hexpand function args expansion (Expr.mem_preorder_self _) hd
      · rw [heq, heq]
        exact hR.unrecognizedFunction _
      · rw [heq, heq]
        exact hR.illegalCallee _
    | member receiver name computed =>
      have hreceiver := hchild receiver (by simp [Expr.children])
      have hname := hchild name (by simp [Expr.children])
      cases computed with
      | true =>
        rw [emitOver, emitOver]
        refine hR.bind hreceiver fun o => hR.bind hname fun p => ?_
        exact hR.bind_pure (hfield o p) _
      | false =>
        rw [emitOver, emitOver]
        refine hR.bind hreceiver fun o => hR.bind (hR.asName hname) fun p => ?_
        exact hR.bind_pure (hfield o p) _
    | binary operator left right | logical operator left right =>
      rw [emitOver, emitOver]
      refine hR.bind (hchild left (by simp [Expr.children])) fun _ => ?_
      exact hR.bind_pure (hchild right (by simp [Expr.children])) _
    | unary operator argument =>
      rw [emitOver, emitOver]
      exact hR.bind_pure (hchild argument (by simp [Expr.children])) _
    | conditional test consequent alternate =>
      rw [emitOver, emitOver]
      refine hR.bind (hchild test (by simp [Expr.children])) fun _ => ?_
      refine hR.bind (hchild consequent (by simp [Expr.children])) fun _ => ?_
      exact hR.bind_pure (hchild alternate (by simp [Expr.children])) _
    | rawCode code => rw [emitOver, emitOver]; exact hR.pure _

/-- **Emission inherits a property from its steps.** -/
theorem good_emitOver {Good : (α : Type) → Emit α → Prop}
    (hG : Compositional fun α x _ => Good α x) {e : Expr}
    (hresolve : ∀ name, e.Mentions name → Good String (sandbox.resolve name))
    (hfield : ∀ receiver name, Good Unit (sandbox.recordField receiver name))
    (hexpand : sandbox.Expands (fun program => Good String (program.run expand)) e) :
    Good String (emitOver sandbox expand e) :=
  @related_emitOver _ _ _ expand hG e hresolve hfield hexpand

end Sandbox

end ChartScript
